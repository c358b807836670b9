import BindingProxy.Grammar.Program
import BindingProxy.Proofs.Grammar.Obtains
import BindingProxy.Proofs.Grammar.Targets
import BindingProxy.Proofs.Tree.Lead
import BindingProxy.Proofs.Tree.Plain

/-!
# Trees and what follows them

The name that leads an expression was read from a name token, apart from the word `new` in
`new.target`.  It has an end of its own unless the text ends in the middle of it, and then it is all
there is of the expression: every rule that goes on after an operand sees a token that is not the end
of the text.  `Led` states this of an expression together with the cursor after it.

A conditional statement takes an `else` that follows its consequent, and loops and labels end where
their bodies end.  So a statement that would take one more `else` is never followed by one, which is
what `TakesElse` says.  Hence an `else` that a conditional statement takes does not follow a
consequent that would have taken it.
-/

namespace BindingProxy

namespace Node

/-- What is known of the name that leads an expression, with the cursor after the expression. -/
def Led (n : Node) (c : Cursor) : Prop :=
  ∀ w, n.lead? = some (.identifier w) →
    w = "new" ∨ IsName w ∧ (Whole w ∨ n.isBareName = true ∧ c.token.kind = .endOfText)

/-- What leads an expression that can stand by itself. -/
def Headed (e : Node) : Prop :=
  ∀ w, e.lead? = some (identifier w) →
    w = "new" ∨ IsName w ∧ (Whole w ∨ e.isBareName = true)

/-- No `else` stands at the cursor after a statement that would take it. -/
def TakesElse (n : Node) (c : Cursor) : Prop :=
  n.endsOpen = true → c.token.kind ≠ .reserved .kwElse

/-- The consequent before an `else` would not take it. -/
def KeepsElse : Node → Prop
  | .conditionalStatement _ consequent (some _) => consequent.endsOpen = false
  | _ => True

variable {n m : Node} {c c' : Cursor}

lemma Led.headed (h : n.Led c) : n.Headed := fun w hw =>
  (h w hw).imp_right fun ⟨hname, hwhole⟩ => ⟨hname, hwhole.imp_right And.left⟩

/-- What is led by a name that more than the end of the text follows. -/
lemma Led.extend (h : n.Led c) (hc : c.token.kind ≠ .endOfText) (hm : m.lead? = n.lead?)
    (c' : Cursor) : m.Led c' := by
  intro w hw
  refine (h w (hm.symm.trans hw)).imp_right fun ⟨hname, hwhole⟩ => ⟨hname, .inl ?_⟩
  exact hwhole.resolve_right fun hbare => hc hbare.2

/-- Turning an expression into a target does not change what leads it. -/
lemma lead?_assignmentTarget {operator : AssignmentOperator} {left target : Node}
    (h : Grammar.assignmentTarget operator left = .ok target) : target.lead? = left.lead? := by
  unfold Grammar.assignmentTarget at h
  split at h
  · unfold Node.toTarget at h
    split at h
    · cases h
      rfl
    · cases h
      rfl
    · cases h
      rfl
    · obtain ⟨_, _, rfl⟩ := exists_of_map_eq_ok h
      rfl
    · obtain ⟨_, _, rfl⟩ := exists_of_map_eq_ok h
      rfl
    · cases h
  · split at h <;> cases h
    rfl

end Node

open Parse in
/-- A name is read from its token; it may be cut short where nothing follows. -/
lemma Grammar.readsTo_name {c : Cursor} (hc : c.Flawless) :
    ReadsTo name c fun w c' => c'.Flawless ∧ IsName w ∧ (Whole w ∨ c'.token.kind = .endOfText) := by
  refine .token (.ite (fun hkind => ?_) fun _ => .reject)
  refine ReadsTo.advance.bind fun _ c' hnext => .pure ⟨.next hnext, ⟨c, hc, hkind, rfl⟩, ?_⟩
  by_cases hrest : c.rest = []
  · exact .inr (Cursor.kind_of_rest_eq_nil hrest hnext)
  · exact .inl ((hc.readsWord (TokenKind.isWord_of_isName hkind)).whole hrest)

end BindingProxy
