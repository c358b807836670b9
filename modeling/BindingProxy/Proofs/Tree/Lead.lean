import BindingProxy.Proofs.Tree.Rebuild

/-!
# Leading names and literals

The code of an expression begins with that of its leftmost part: the owner of a property, the callee
of a call, the left operand of an operator, and so on.  `lead?` goes down this way to the name or
literal at its end, whether or not parentheses are put around a part on the way.  An update in front
of a plain name counts as led by the name, since it becomes a call that is.
-/

namespace BindingProxy

namespace Node

/-- The name or literal that leads an expression. -/
def lead? : Node → Option Node
  | identifier name => some (identifier name)
  | literal kind raw => some (literal kind raw)
  | member owner _ _ _ => owner.lead?
  | call callee _ _ => callee.lead?
  | taggedTemplate tag _ => tag.lead?
  | binary _ left _ | logical _ left _ | assignment _ left _ => left.lead?
  | conditional test _ _ => test.lead?
  | update _ false argument => argument.lead?
  | update _ true (identifier name) => some (identifier name)
  | _ => none

/-- A plain name, or one with an update in front of it. -/
def isBareName : Node → Bool
  | identifier _ | update _ true (identifier _) => true
  | _ => false

/-- The part that the code of an expression begins with, apart from parentheses. -/
def front? : Node → Option Node
  | member front _ _ _ | call front _ _ | taggedTemplate front _ | binary _ front _
  | logical _ front _ | assignment _ front _ | conditional front _ _ | update _ false front =>
    some front
  | _ => none

/-- The front is the first child, and other children put another node in its place. -/
lemma front?_withChildren {n front : Node} (h : n.front? = some front) :
    ∃ rest, n.children = front :: rest ∧ ∀ d ds, (n.withChildren (d :: ds)).front? = some d := by
  unfold front? at h
  split at h <;> cases h <;> exact ⟨_, rfl, fun _ _ => rfl⟩

lemma mem_children_of_front? {n front : Node} (h : n.front? = some front) :
    front ∈ n.children := by
  obtain ⟨rest, hchildren, _⟩ := front?_withChildren h
  rw [hchildren]
  exact List.mem_cons_self

lemma lead?_of_front? {n front : Node} (h : n.front? = some front) : n.lead? = front.lead? := by
  unfold front? at h
  split at h <;> cases h <;> rfl

/-- What passes from the front of an expression to the expression holds of every one. -/
lemma front_induction {P : Node → Prop} (leaf : ∀ n, n.front? = none → P n)
    (step : ∀ n front, n.front? = some front → P front → P n) (n : Node) : P n := by
  induction n using induction_on_children with
  | step n ih =>
    cases h : n.front? with
    | none => exact leaf n h
    | some front => exact step n front h (ih front (mem_children_of_front? h))

/-- An update in front of an operand is led by it if it is a plain name. -/
lemma lead?_update_true (operator : UpdateOperator) (argument : Node) :
    (update operator true argument).lead? = argument.name?.map identifier := by
  cases argument <;> rfl

/-- Where no other part comes first, a name or a literal leads itself or is updated. -/
lemma lead?_of_front?_eq_none {n leaf : Node} (hfront : n.front? = none)
    (h : n.lead? = some leaf) :
    (n = leaf ∨ ∃ operator, n = update operator true leaf) ∧
      ((∃ name, leaf = identifier name) ∨ ∃ kind raw, leaf = literal kind raw) := by
  cases n with
  | identifier name =>
    cases h
    exact ⟨.inl rfl, .inl ⟨name, rfl⟩⟩
  | literal kind raw =>
    cases h
    exact ⟨.inl rfl, .inr ⟨kind, raw, rfl⟩⟩
  | update operator leading argument =>
    cases leading with
    | false => cases hfront
    | true =>
      cases argument with
      | identifier name =>
        cases h
        exact ⟨.inr ⟨operator, rfl⟩, .inl ⟨name, rfl⟩⟩
      | _ => cases h
  | _ => first | cases h | cases hfront

/-- What leads an expression is a part of it. -/
lemma mem_walk_of_lead? {n leaf : Node} (h : n.lead? = some leaf) : leaf ∈ n.walk := by
  induction n using front_induction with
  | leaf n hfront =>
    rw [walk_eq]
    rcases (lead?_of_front?_eq_none hfront h).1 with rfl | ⟨operator, rfl⟩
    · exact List.mem_cons_self
    · rw [children, List.flatMap_singleton, walk_eq leaf]
      simp
  | step n front hfront ih =>
    have hleaf := ih (lead?_of_front? hfront ▸ h)
    rw [walk_eq]
    refine List.mem_cons_of_mem _ (List.mem_flatMap.2 ⟨front, ?_, hleaf⟩)
    exact mem_children_of_front? hfront

/-- Only names and literals lead. -/
lemma eq_or_eq_of_lead? {n leaf : Node} (h : n.lead? = some leaf) :
    (∃ name, leaf = identifier name) ∨ ∃ kind raw, leaf = literal kind raw := by
  induction n using front_induction with
  | leaf n hfront => exact (lead?_of_front?_eq_none hfront h).2
  | step n front hfront ih => exact ih (lead?_of_front? hfront ▸ h)

/-- Two nodes that begin alike and are the same plain name or none. -/
structure LeadAlike (n m : Node) : Prop where
  lead : m.lead? = n.lead?
  name : m.name? = n.name?

/-- A node that is given children that begin as before begins as before. -/
lemma leadAlike_withChildren {n : Node} {cs : List Node}
    (h : List.Forall₂ LeadAlike n.children cs) : LeadAlike n (n.withChildren cs) := by
  refine ⟨?_, name?_withChildren n cs⟩
  cases hfront : n.front? with
  | some front =>
    obtain ⟨rest, hchildren, hfill⟩ := front?_withChildren hfront
    rw [hchildren] at h
    obtain ⟨d, ds, hd, _, rfl⟩ := List.forall₂_cons_left_iff.1 h
    rw [lead?_of_front? (hfill d ds), lead?_of_front? hfront, hd.lead]
  | none =>
    cases n with
    | update operator leading argument =>
      obtain ⟨argument', rest, hargument, _, rfl⟩ := List.forall₂_cons_left_iff.1 h
      cases leading with
      | false => cases hfront
      | true =>
        rw [lead?_update_true, ← hargument.name, ← lead?_update_true operator]
        rfl
    | _ => first | rfl | cases hfront

end Node

end BindingProxy
