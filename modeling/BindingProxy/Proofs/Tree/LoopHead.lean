import BindingProxy.Proofs.Tree.Shape
import BindingProxy.Proxy.Access

/-!
# Declarators of loop heads

A declaration on the left side of a loop over a value declares names that the loop itself gives
values to.  Its declarators are told from all others by their place: `headSlot` follows the way down
from the loop through its left side to the declarators there, and `foldHeads` is a fold that knows
at every node whether this way has led to it.
-/

namespace BindingProxy

namespace Node

/-- The left side of a loop over a value. -/
def leftSide? : Node → Option Node
  | forEach _ left _ _ => some left
  | _ => none

/-- Whether the child in a place stands in the head of a loop over a value: the declaration on the
left side does, and so do the declarators of such a declaration. -/
def headSlot (n : Node) (inHead : Bool) (place : Nat) : Bool :=
  match n with
  | forEach _ left _ _ => left.isDeclaration && place == 0
  | declaration _ _ => inHead
  | _ => false

variable {α : Type}

/-- A fold whose step is also told whether the node stands in the head of a loop over a value. -/
def foldHeads (f : Node → Bool → List α → α) : Node → Bool → α :=
  fold fun n below inHead =>
    f n inHead (below.mapIdx fun place value => value (n.headSlot inHead place))

lemma foldHeads_eq (f : Node → Bool → List α → α) (n : Node) (inHead : Bool) :
    n.foldHeads f inHead =
      f n inHead (n.children.mapIdx fun place c => c.foldHeads f (n.headSlot inHead place)) := by
  rw [foldHeads, fold_eq]
  congr 1
  apply List.ext_getElem (by simp)
  intro place _ _
  simp only [List.getElem_mapIdx, List.getElem_map]

/-! ### Children in their places -/

section Places

variable {β : Type} {n : Node}

/-- What is worked out from children in their places, worked out further. -/
lemma map_mapIdx (f : α → β) (g : Nat → Node → α) (cs : List Node) :
    (cs.mapIdx g).map f = cs.mapIdx fun place c => f (g place c) :=
  List.ext_getElem (by simp) fun _ _ _ => by simp

/-- What does not ask for the places. -/
lemma mapIdx_eq_map (f : Node → α) (cs : List Node) : (cs.mapIdx fun _ c => f c) = cs.map f :=
  List.ext_getElem (by simp) fun _ _ _ => by simp

lemma mapIdx_congr {f g : Node → Bool → α} (inHead : Bool)
    (h : ∀ c ∈ n.children, ∀ inHead, f c inHead = g c inHead) :
    (n.children.mapIdx fun place c => f c (n.headSlot inHead place)) =
      n.children.mapIdx fun place c => g c (n.headSlot inHead place) := by
  refine List.ext_getElem (by simp) fun place hplace _ => ?_
  rw [List.length_mapIdx] at hplace
  simp only [List.getElem_mapIdx]
  exact h _ (List.getElem_mem hplace) _

/-- What is related to every child in its place, child by child. -/
lemma forall₂_mapIdx {R : Node → α → Prop} {f : Node → Bool → α} (inHead : Bool)
    (h : ∀ c ∈ n.children, ∀ inHead, R c (f c inHead)) :
    List.Forall₂ R n.children (n.children.mapIdx fun place c => f c (n.headSlot inHead place)) := by
  refine List.forall₂_iff_get.2 ⟨by simp, fun place hplace _ => ?_⟩
  simp only [List.get_eq_getElem, List.getElem_mapIdx]
  exact h _ (List.getElem_mem hplace) _

end Places

/-! ### Declarators outside loop heads -/

/-- The declarators of a tree, those of loop heads left out. -/
def freeDeclarators : Node → Bool → List Node :=
  foldHeads fun n inHead below => (if n.isDeclarator && !inHead then [n] else []) ++ below.flatten

/-- A property of the declarators outside loop heads. -/
def DeclaratorsFit (P : Node → Prop) (n : Node) (inHead : Bool) : Prop :=
  ∀ d ∈ n.freeDeclarators inHead, P d

/-- A property of declarators is looked up at the root and in the children. -/
lemma declaratorsFit_iff {P : Node → Prop} {n : Node} {inHead : Bool} :
    DeclaratorsFit P n inHead ↔
      (n.isDeclarator = true → inHead = false → P n) ∧
        ∀ place (h : place < n.children.length),
          DeclaratorsFit P n.children[place] (n.headSlot inHead place) := by
  unfold DeclaratorsFit
  rw [freeDeclarators, foldHeads_eq]
  simp only [List.forall_mem_append, List.mem_flatten, List.mem_mapIdx]
  constructor
  · rintro ⟨hown, hbelow⟩
    refine ⟨fun hd hfree => hown n (by simp [hd, hfree]), fun place h d hd => ?_⟩
    exact hbelow d ⟨_, ⟨place, h, rfl⟩, hd⟩
  · rintro ⟨hown, hbelow⟩
    constructor
    · intro d hd
      split at hd
      · next hfree =>
        rw [Bool.and_eq_true, Bool.not_eq_true'] at hfree
        rw [List.mem_singleton.1 hd]
        exact hown hfree.1 hfree.2
      · cases hd
    · rintro d ⟨_, ⟨place, h, rfl⟩, hd⟩
      exact hbelow place h d hd

/-- Where no child stands in a loop head, all children count. -/
lemma declaratorsFit_iff_of_no_slot {P : Node → Prop} {n : Node} {inHead : Bool}
    (h : ∀ place, n.headSlot inHead place = false) :
    DeclaratorsFit P n inHead ↔
      (n.isDeclarator = true → inHead = false → P n) ∧
        ∀ c ∈ n.children, DeclaratorsFit P c false := by
  rw [declaratorsFit_iff]
  simp only [h]
  refine and_congr_right fun _ => ⟨fun hbelow c hc => ?_, fun hbelow place hplace => ?_⟩
  · obtain ⟨place, hplace, rfl⟩ := List.mem_iff_getElem.1 hc
    exact hbelow place hplace
  · exact hbelow _ (List.getElem_mem hplace)

/-- The places in a loop head stay if the left side of a loop stays a declaration or none. -/
lemma headSlot_withChildren {n : Node} {cs : List Node}
    (h : List.Forall₂ (fun c d => n.kind.isStatementList = false → d.isDeclaration = c.isDeclaration)
      n.children cs) (inHead : Bool) (place : Nat) :
    (n.withChildren cs).headSlot inHead place = n.headSlot inHead place := by
  cases n with
  | forEach iteration left right body =>
    obtain ⟨left', rest, hleft, hrest, rfl⟩ := List.forall₂_cons_left_iff.1 h
    have hkeep : left'.isDeclaration = left.isDeclaration :=
      hleft (by cases iteration <;> rfl)
    rw [headSlot, ← hkeep]
    rfl
  | _ => rfl

end Node

end BindingProxy
