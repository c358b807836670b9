import BindingProxy.Proofs.Grammar.Advance
import BindingProxy.Proofs.Grammar.Yields
import BindingProxy.Proofs.Token.Flawless

/-!
# What is read from tokens without a flaw

`ReadsTo p c Q` says of the value that `p` reads from the cursor `c`, and of the cursor where it
ends, that they satisfy `Q`, as long as `p` reads anything.  `Obtains p Q` says it of the value alone
and of every cursor at a token without a flaw.  A reader ends at such a token again if it only
moves, which is what `Follows` says.
-/

namespace BindingProxy

namespace Parse

variable {α β σ ρ : Type}

/-- What `p` reads from `c`, and where it ends, satisfies `Q`. -/
def ReadsTo (p : Parse α) (c : Cursor) (Q : α → Cursor → Prop) : Prop :=
  ∀ a c', p c = .ok a c' → Q a c'

/-- A turn goes on in a state with the invariant, or is done with a good result. -/
def Turn.KeepsAt (I : σ → Cursor → Prop) (S : ρ → Cursor → Prop) : Turn σ ρ → Cursor → Prop
  | .again state, c => I state c
  | .done result, c => S result c

namespace ReadsTo

variable {p q : Parse α} {f : α → Parse β} {c : Cursor} {P Q : α → Cursor → Prop}
  {R : β → Cursor → Prop}

lemma of_yields {P : α → Prop} (h : Yields p P) : ReadsTo p c fun a _ => P a :=
  fun a c' hok => h c a c' hok

/-- Only what a reader does at the cursor matters. -/
lemma congr (h : p c = q c) (hq : ReadsTo q c Q) : ReadsTo p c Q := by
  intro a c' hok
  rw [h] at hok
  exact hq a c' hok

lemma mono (h : ReadsTo p c P) (hPQ : ∀ a c', P a c' → Q a c') : ReadsTo p c Q :=
  fun a c' hok => hPQ a c' (h a c' hok)

lemma pure {a : α} (h : Q a c) : ReadsTo (Pure.pure a) c Q := by
  intro b c' hok
  cases hok
  exact h

lemma reject {cause : SyntaxCause} : ReadsTo (Parse.reject cause) c Q := by
  intro a c' hok
  cases hok

lemma bind (hp : ReadsTo p c P) (hf : ∀ a c', P a c' → ReadsTo (f a) c' R) :
    ReadsTo (p >>= f) c R := by
  intro b c' hok
  obtain ⟨a, next, hread, hok⟩ := exists_of_bind_eq_ok hok
  exact hf a next (hp a next hread) b c' hok

lemma ite {b : Prop} [Decidable b] (hp : b → ReadsTo p c Q) (hq : ¬ b → ReadsTo q c Q) :
    ReadsTo (if b then p else q) c Q := by
  by_cases h : b
  · rw [if_pos h]
    exact hp h
  · rw [if_neg h]
    exact hq h

lemma unexpected : ReadsTo Parse.unexpected c Q :=
  (of_yields (Yields.unexpected (Q := fun _ => False))).mono fun _ _ h => h.elim

/-! ### Readers that look at the current token -/

lemma kind {f : TokenKind → Parse β} (h : ReadsTo (f c.token.kind) c R) :
    ReadsTo (Parse.kind >>= f) c R := h

lemma token {f : Token → Parse β} (h : ReadsTo (f c.token) c R) :
    ReadsTo (Parse.token >>= f) c R := h

/-- A choice by whether the current token is of a kind. -/
lemma ifAt {k : TokenKind} {q r : Parse β} (hq : c.token.kind = k → ReadsTo q c R)
    (hr : c.token.kind ≠ k → ReadsTo r c R) :
    ReadsTo (Parse.isAt k >>= fun b => if b = true then q else r) c R :=
  ite (fun h => hq (beq_iff_eq.1 h)) fun h => hr fun hkind => h (beq_iff_eq.2 hkind)

lemma advance : ReadsTo Parse.advance c fun _ c' => c.next? = some (c', none) := by
  intro _ c' hok
  exact (Goes.advance.of_ok hok).2

lemma rereadSlash : ReadsTo Parse.rereadSlash c fun _ c' => c.rereadSlash = (c', none) :=
  fun _ _ hok => (Goes.rereadSlash.of_ok hok).2

lemma rereadBrace : ReadsTo Parse.rereadBrace c fun _ c' => c.rereadBrace = (c', none) :=
  fun _ _ hok => (Goes.rereadBrace.of_ok hok).2

/-- A punctuator that is passed stands at the cursor. -/
lemma expect {p : Punctuator} : ReadsTo (Parse.expect p) c fun _ c' =>
    c.token.kind = .punctuator p ∧ c.next? = some (c', none) := by
  intro a c' hok
  by_cases hkind : c.token.kind = .punctuator p
  · rw [expect_of_at hkind] at hok
    exact ⟨hkind, advance a c' hok⟩
  · rw [expect_of_not hkind] at hok
    cases hok

/-- A choice by whether a punctuator has been passed. -/
lemma ifAccept {p : Punctuator} {q r : Parse β}
    (hq : c.token.kind = .punctuator p → ∀ c', c.next? = some (c', none) → ReadsTo q c' R)
    (hr : c.token.kind ≠ .punctuator p → ReadsTo r c R) :
    ReadsTo (Parse.accept p >>= fun b => if b = true then q else r) c R := by
  by_cases hkind : c.token.kind = .punctuator p
  · rw [ReadsTo, accept_bind_of_at hkind]
    exact advance.bind fun _ c' hnext => hq hkind c' hnext
  · rw [ReadsTo, accept_bind_of_not hkind]
    exact hr hkind

/-- A choice by whether a word has been passed. -/
lemma ifAcceptWord {w : ReservedWord} {q r : Parse β}
    (hq : c.token.kind = .reserved w → ∀ c', c.next? = some (c', none) → ReadsTo q c' R)
    (hr : c.token.kind ≠ .reserved w → ReadsTo r c R) :
    ReadsTo (Parse.acceptWord w >>= fun b => if b = true then q else r) c R := by
  have htaken : ReadsTo (Parse.acceptWord w) c fun taken c' =>
      if taken = true then c.token.kind = .reserved w ∧ c.next? = some (c', none)
      else c.token.kind ≠ .reserved w ∧ c' = c :=
    ifAt (fun hkind => advance.bind fun _ c' hnext => pure (by simp [hkind, hnext]))
      fun hkind => pure (by simp [hkind])
  refine htaken.bind fun taken c' h => ?_
  cases taken with
  | true => exact hq h.1 c' h.2
  | false =>
    obtain ⟨hkind, rfl⟩ := h
    exact hr hkind

/-! ### Repetition -/

variable {I : σ → Cursor → Prop} {S : ρ → Cursor → Prop} {turn : σ → Parse (Turn σ ρ)}

/-- If every turn keeps an invariant, a repetition that is begun with it ends with a good result. -/
lemma repeatWithin (hturn : ∀ s c, I s c → ReadsTo (turn s) c (Turn.KeepsAt I S))
    (bound : List Char) {s : σ} (h : I s c) : ReadsTo (Parse.repeatWithin turn bound s) c S := by
  induction bound generalizing s c with
  | nil =>
    intro a c' hok
    cases hok
  | cons _ bound ih =>
    refine bind (hturn s c h) fun t c' ht => ?_
    cases t with
    | again s => exact ih ht
    | done r => exact pure ht

lemma repeatFrom {s : σ} (h : I s c)
    (hturn : ∀ s c, I s c → ReadsTo (turn s) c (Turn.KeepsAt I S)) :
    ReadsTo (Parse.repeatFrom s turn) c S :=
  repeatWithin hturn (tokenBound c) h

end ReadsTo

/-! ### Values alone -/

/-- What `p` reads from a token without a flaw satisfies `Q`, and it ends at such a token. -/
def Obtains (p : Parse α) (Q : α → Prop) : Prop :=
  ∀ c, c.Flawless → ReadsTo p c fun a c' => c'.Flawless ∧ Q a

namespace Obtains

variable {p q : Parse α} {f : α → Parse β} {P Q : α → Prop} {R : β → Prop}

/-- A reader that only moves. -/
lemma of_follows (h : Follows p) : Obtains p fun _ => True := by
  intro c hc a c' hok
  exact ⟨hc.moves ((h c hc.atToken).of_ok hok).1, trivial⟩

/-- A reader that only moves, with what is known of its values. -/
lemma of_readsTo (hp : Follows p) (h : ∀ c, c.Flawless → ReadsTo p c fun a _ => Q a) :
    Obtains p Q := by
  intro c hc a c' hok
  exact ⟨(of_follows hp c hc a c' hok).1, h c hc a c' hok⟩

lemma mono (hp : Obtains p P) (h : ∀ a, P a → Q a) : Obtains p Q :=
  fun c hc => (hp c hc).mono fun a _ ha => ⟨ha.1, h a ha.2⟩

lemma pure {a : α} (h : Q a) : Obtains (Pure.pure a) Q := fun _ hc => ReadsTo.pure ⟨hc, h⟩

lemma reject {cause : SyntaxCause} : Obtains (Parse.reject cause) Q := fun _ _ => ReadsTo.reject

lemma bind (hp : Obtains p P) (hf : ∀ a, P a → Obtains (f a) R) : Obtains (p >>= f) R :=
  fun c hc => (hp c hc).bind fun a c' ha => hf a ha.2 c' ha.1

/-- A sequence whose first part only moves. -/
lemma after (hp : Follows p) (hf : ∀ a, Obtains (f a) R) : Obtains (p >>= f) R :=
  bind (of_follows hp) fun a _ => hf a

/-- A sequence that begins with a punctuator. -/
lemma afterExpect {p : Punctuator} {f : Unit → Parse β} (hf : ∀ a, Obtains (f a) R) :
    Obtains (Parse.expect p >>= f) R :=
  after (advances_expect p).follows hf

lemma map {f : α → β} (hp : Obtains p P) (h : ∀ a, P a → R (f a)) : Obtains (f <$> p) R :=
  bind hp fun a ha => pure (h a ha)

lemma ite {b : Prop} [Decidable b] (hp : b → Obtains p Q) (hq : ¬ b → Obtains q Q) :
    Obtains (if b then p else q) Q :=
  fun c hc => .ite (fun h => hp h c hc) fun h => hq h c hc

lemma ifAt {k : TokenKind} (hp : Obtains p Q) (hq : Obtains q Q) :
    Obtains (do if ← Parse.isAt k then p else q) Q :=
  after (.isAt k) fun _ => ite (fun _ => hp) fun _ => hq

lemma ifAccept {k : Punctuator} (hp : Obtains p Q) (hq : Obtains q Q) :
    Obtains (do if ← Parse.accept k then p else q) Q :=
  after (.accept k) fun _ => ite (fun _ => hp) fun _ => hq

lemma ifAcceptWord {w : ReservedWord} (hp : Obtains p Q) (hq : Obtains q Q) :
    Obtains (do if ← Parse.acceptWord w then p else q) Q :=
  after (.acceptWord w) fun _ => ite (fun _ => hp) fun _ => hq

/-- A sequence that fails in its first part. -/
lemma rejectThen {cause : SyntaxCause} : Obtains (Parse.reject cause >>= f) R :=
  bind (P := fun _ => False) reject fun _ h => h.elim

lemma unexpected : Obtains Parse.unexpected Q := fun _ _ => ReadsTo.unexpected

/-! ### Repetition -/

variable {I : σ → Prop} {S : ρ → Prop} {turn : σ → Parse (Turn σ ρ)}

lemma repeatFrom {s : σ} (h : I s) (hturn : ∀ s, I s → Obtains (turn s) (Turn.Keeps I S)) :
    Obtains (Parse.repeatFrom s turn) S := by
  intro c hc
  refine ReadsTo.repeatFrom (I := fun s c => c.Flawless ∧ I s) ⟨hc, h⟩ fun s c hs => ?_
  refine (hturn s hs.2 c hs.1).mono fun t c' ht => ?_
  cases t with
  | again s => exact ht
  | done r => exact ht

/-- A repetition that collects items in reverse, each of which is good. -/
lemma collect {turn : List α → Parse (Turn (List α) ρ)}
    (hturn : ∀ found, (∀ a ∈ found, P a) →
      Obtains (turn found) (Turn.Keeps (fun found => ∀ a ∈ found, P a) S)) :
    Obtains (Parse.repeatFrom [] turn) S :=
  repeatFrom (by simp) hturn

end Obtains

/-! ### Values and what follows them -/

/-- What `p` reads from a token without a flaw, and where it ends, satisfies `Q`, and it ends at such
a token. -/
def Reaches (p : Parse α) (Q : α → Cursor → Prop) : Prop :=
  ∀ c, c.Flawless → ReadsTo p c fun a c' => c'.Flawless ∧ Q a c'

namespace Reaches

variable {p q : Parse α} {f : α → Parse β} {P : α → Prop} {Q : α → Cursor → Prop}
  {R : β → Cursor → Prop}

lemma of_obtains (h : Obtains p P) (hQ : ∀ a c, P a → Q a c) : Reaches p Q :=
  fun c hc => (h c hc).mono fun a c' ha => ⟨ha.1, hQ a c' ha.2⟩

lemma obtains (h : Reaches p Q) (hP : ∀ a c, Q a c → P a) : Obtains p P :=
  fun c hc => (h c hc).mono fun a c' ha => ⟨ha.1, hP a c' ha.2⟩

lemma bind (hp : Obtains p P) (hf : ∀ a, P a → Reaches (f a) R) : Reaches (p >>= f) R :=
  fun c hc => (hp c hc).bind fun a c' ha => hf a ha.2 c' ha.1

lemma after (hp : Follows p) (hf : ∀ a, Reaches (f a) R) : Reaches (p >>= f) R :=
  bind (.of_follows hp) fun a _ => hf a

lemma ite {b : Prop} [Decidable b] (hp : b → Reaches p Q) (hq : ¬ b → Reaches q Q) :
    Reaches (if b then p else q) Q :=
  fun c hc => .ite (fun h => hp h c hc) fun h => hq h c hc

end Reaches

end Parse

end BindingProxy
