import BindingProxy.Grammar.Parse
import Mathlib.Tactic.Lemma

/-!
# What a reader can yield

`Yields p Q` says that every value that `p` reads, from whatever cursor, satisfies `Q`.  Nothing is
said about the cases where `p` fails.  The rules follow the way a reader is put together; for a
repetition, an invariant of its states is enough.
-/

namespace BindingProxy

namespace Parse

variable {α β σ ρ : Type} {P Q : α → Prop} {R : β → Prop}

/-- Every value that `p` reads satisfies `Q`. -/
def Yields (p : Parse α) (Q : α → Prop) : Prop := ∀ c a c', p c = .ok a c' → Q a

/-- A turn goes on in a state with the invariant, or is done with a good result. -/
def Turn.Keeps (I : σ → Prop) (S : ρ → Prop) : Turn σ ρ → Prop
  | .again state => I state
  | .done result => S result

/-- A sequence that reads a value has read one in its first part. -/
lemma exists_of_bind_eq_ok {p : Parse α} {f : α → Parse β} {c c' : Cursor} {b : β}
    (h : (p >>= f) c = .ok b c') : ∃ a next, p c = .ok a next ∧ f a next = .ok b c' := by
  change andThen p f c = .ok b c' at h
  unfold andThen at h
  cases hread : p c with
  | ok a next =>
    rw [hread] at h
    exact ⟨a, next, rfl, h⟩
  | fail failure =>
    rw [hread] at h
    cases h

namespace Yields

/-- Nothing is known about what a reader yields. -/
lemma any (p : Parse α) : Yields p fun _ => True := fun _ _ _ _ => trivial

lemma pure {a : α} (h : Q a) : Yields (Pure.pure a) Q := by
  intro c b c' hok
  cases hok
  exact h

/-- A reader that only fails yields whatever one likes. -/
lemma reject {cause : SyntaxCause} : Yields (Parse.reject cause) Q := by
  intro c a c' hok
  cases hok

/-- A sequence yields what its last part yields from a value of its first part. -/
lemma bind {p : Parse α} {f : α → Parse β} (hp : Yields p P) (hf : ∀ a, P a → Yields (f a) R) :
    Yields (p >>= f) R := by
  intro c b c' hok
  obtain ⟨a, next, hread, hok⟩ := exists_of_bind_eq_ok hok
  exact hf a (hp c a next hread) next b c' hok

/-- A sequence whose first part does not matter. -/
lemma after {p : Parse α} {f : α → Parse β} (hf : ∀ a, Yields (f a) R) : Yields (p >>= f) R :=
  bind (any p) fun a _ => hf a

lemma ite {c : Prop} [Decidable c] {p q : Parse α} (hp : Yields p Q) (hq : Yields q Q) :
    Yields (if c then p else q) Q := by
  by_cases h : c
  · rw [if_pos h]
    exact hp
  · rw [if_neg h]
    exact hq

lemma unexpected : Yields Parse.unexpected Q := after fun _ => ite reject reject

/-! ### Repetition -/

variable {I : σ → Prop} {S : ρ → Prop} {turn : σ → Parse (Turn σ ρ)}

/-- If every turn keeps an invariant, a repetition that is begun with it ends with a good result. -/
lemma repeatWithin (hturn : ∀ state, I state → Yields (turn state) (Turn.Keeps I S))
    (bound : List Char) {state : σ} (h : I state) : Yields (Parse.repeatWithin turn bound state) S := by
  induction bound generalizing state with
  | nil =>
    intro c a c' hok
    cases hok
  | cons _ bound ih =>
    refine bind (hturn state h) fun t ht => ?_
    cases t with
    | again state => exact ih ht
    | done result => exact pure ht

/-- Items that were collected in reverse are all good. -/
lemma keeps_reverse {found : List α} (h : ∀ a ∈ found, P a) :
    Turn.Keeps I (fun as => ∀ a ∈ as, P a) (.done found.reverse) :=
  fun a ha => h a (List.mem_reverse.1 ha)

end Yields

end Parse

end BindingProxy
