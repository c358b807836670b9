import BindingProxy.Tree.Walk
import Mathlib.Data.List.MinMax
import Mathlib.Order.Nat

/-!
# Turns and chains

A way down from the root of a tree is made of runs.  `base?` is the part of a node that comes first
and that the node goes on from: the left operand, what is called, the owner of a property, the tag
of a template, the class that is extended.  A run follows bases; `chain` is the length of the run
from a node.  To leave a node for another part is a turn; `turns` is the largest number of runs on
a way down.

The height of a tree is at most the product of the two numbers (`height_le`), so a bound for one of
them says what a tree that is too high looks like.
-/

namespace BindingProxy

namespace Node

variable {n c : Node} {k : Nat}

/-- A child is lower than the node that it belongs to. -/
lemma height_lt_of_mem_children (h : c ∈ n.children) : c.height < n.height := by
  rw [n.height_eq]
  exact Nat.lt_succ_of_le (List.le_max_of_le' 0 (List.mem_map_of_mem h) (Nat.le_refl _))

/-- A maximum is at most `k` if all its terms are. -/
lemma foldr_max_le_iff {xs : List Nat} : xs.foldr max 0 ≤ k ↔ ∀ x ∈ xs, x ≤ k := by
  constructor
  · intro h x hx
    exact (List.le_max_of_le' 0 hx (Nat.le_refl x)).trans h
  · exact List.max_le_of_forall_le xs k

lemma height_le_succ_iff : n.height ≤ k + 1 ↔ ∀ c ∈ n.children, c.height ≤ k := by
  rw [n.height_eq, Nat.add_le_add_iff_right, foldr_max_le_iff, List.forall_mem_map]

/-! ### Bases -/

/-- The part that a node goes on from. -/
def base? : Node → Option Node
  | binary _ left _ | logical _ left _ => some left
  | call callee _ _ => some callee
  | member owner _ _ _ => some owner
  | taggedTemplate tag _ => some tag
  | classDefinition _ _ superClass _ => superClass
  | _ => none

/-- The number of bases of a node, which is 0 or 1. -/
def bases (n : Node) : Nat := n.base?.toList.length

/-- The children of a node other than its base. -/
def others (n : Node) : List Node := n.children.drop n.bases

/-- The base of a node is the first of its children. -/
lemma take_children (n : Node) : n.children.take n.bases = n.base?.toList := by
  cases n with
  | classDefinition role id superClass body => exact List.take_left
  | _ => rfl

lemma children_eq_base_append (n : Node) : n.children = n.base?.toList ++ n.others := by
  rw [← n.take_children, others, List.take_append_drop]

lemma mem_children_iff_base : c ∈ n.children ↔ c ∈ n.base? ∨ c ∈ n.others := by
  rw [n.children_eq_base_append, List.mem_append, Option.mem_toList, Option.mem_def]

/-! ### Turns and chains -/

/-- The largest number of runs on a way down from the root. -/
def turns : Node → Nat :=
  fold fun n below => max ((below.take n.bases).foldr max 0) ((below.drop n.bases).foldr max 0 + 1)

/-- The number of nodes that one comes to by going from base to base. -/
def chain : Node → Nat := fold fun n below => (below.take n.bases).foldr max 0 + 1

/-- The number of nodes of the longest run in a tree. -/
def longestChain (n : Node) : Nat := (n.walk.map chain).foldr max 0

lemma turns_eq (n : Node) :
    n.turns =
      max ((n.base?.toList.map turns).foldr max 0) ((n.others.map turns).foldr max 0 + 1) := by
  rw [turns, fold_eq, ← List.map_take, ← List.map_drop, take_children, others]

lemma turns_le_iff :
    n.turns ≤ k + 1 ↔ (∀ b ∈ n.base?, b.turns ≤ k + 1) ∧ ∀ c ∈ n.others, c.turns ≤ k := by
  rw [turns_eq, max_le_iff, Nat.add_le_add_iff_right, foldr_max_le_iff, foldr_max_le_iff]
  simp only [List.forall_mem_map, Option.mem_toList, Option.mem_def]

lemma chain_eq (n : Node) : n.chain = (n.base?.toList.map chain).foldr max 0 + 1 := by
  rw [chain, fold_eq, ← List.map_take, take_children]

lemma turns_pos (n : Node) : 0 < n.turns := by
  rw [turns_eq]
  exact Nat.lt_of_lt_of_le (Nat.succ_pos _) (Nat.le_max_right _ _)

lemma exists_turns_eq (n : Node) : ∃ k, n.turns = k + 1 :=
  ⟨n.turns - 1, (Nat.sub_add_cancel n.turns_pos).symm⟩

/-- A node takes at most one turn more than its children. -/
lemma turns_le (h : ∀ c ∈ n.children, c.turns ≤ k) : n.turns ≤ k + 1 :=
  turns_le_iff.2
    ⟨fun b hb => (h b (mem_children_iff_base.2 (.inl hb))).trans (Nat.le_succ k),
      fun c hc => h c (mem_children_iff_base.2 (.inr hc))⟩

/-- A node without a base takes a turn to each of its children. -/
lemma turns_lt_of_mem_children (hbase : n.base? = none) (hc : c ∈ n.children) :
    c.turns < n.turns := by
  obtain ⟨k, hk⟩ := n.exists_turns_eq
  have hothers : c ∈ n.others := (mem_children_iff_base.1 hc).resolve_left (by simp [hbase])
  rw [hk]
  exact Nat.lt_succ_of_le ((turns_le_iff.1 hk.le).2 c hothers)

/-! ### Height -/

lemma mem_walk_of_mem_children {m : Node} (hc : c ∈ n.children) (hm : m ∈ c.walk) : m ∈ n.walk := by
  rw [walk_eq]
  exact List.mem_cons_of_mem _ (List.mem_flatMap_of_mem hc hm)

/-- Where no run is longer than `k`, a way down is made of a run from the root and of at most `t`
runs after it. -/
lemma height_le_add {t : Nat} (ht : n.turns ≤ t + 1) (hk : ∀ m ∈ n.walk, m.chain ≤ k) :
    n.height ≤ t * k + n.chain := by
  induction n using induction_on_children generalizing t with
  | step n ih =>
    obtain ⟨hbase, hothers⟩ := turns_le_iff.1 ht
    have hchildren : ∀ c ∈ n.children,
        c.height ≤ t * k + (n.base?.toList.map chain).foldr max 0 := by
      intro c hc
      have hwalk : ∀ m ∈ c.walk, m.chain ≤ k := fun m hm => hk m (mem_walk_of_mem_children hc hm)
      rcases mem_children_iff_base.1 hc with hb | ho
      · -- The run from the root goes on.
        have hlow := ih c hc (hbase c hb) hwalk
        rw [Option.mem_def.1 hb]
        simpa using hlow
      · -- A new run begins, and it takes one of the turns.
        obtain ⟨s, hs⟩ := c.exists_turns_eq
        have hturns := hothers c ho
        have hlow := ih c hc hs.le hwalk
        have hrun : c.chain ≤ k := hwalk c (by rw [walk_eq]; exact List.mem_cons_self)
        have hmul : (s + 1) * k ≤ t * k := Nat.mul_le_mul_right k (hs ▸ hturns)
        rw [Nat.succ_mul] at hmul
        omega
    rw [chain_eq, ← Nat.add_assoc]
    exact height_le_succ_iff.2 hchildren

/-- A tree is at most as high as its runs can be put one after the other. -/
lemma height_le {t : Nat} (ht : n.turns ≤ t) : n.height ≤ t * n.longestChain := by
  have hk : ∀ m ∈ n.walk, m.chain ≤ n.longestChain :=
    fun m hm => foldr_max_le_iff.1 (Nat.le_refl _) _ (List.mem_map_of_mem hm)
  have hroot : n.chain ≤ n.longestChain := hk n (by rw [walk_eq]; exact List.mem_cons_self)
  obtain ⟨s, hs⟩ := n.exists_turns_eq
  have hmul : (s + 1) * n.longestChain ≤ t * n.longestChain :=
    Nat.mul_le_mul_right _ (hs ▸ ht)
  calc n.height
      ≤ s * n.longestChain + n.chain := height_le_add hs.le hk
    _ ≤ s * n.longestChain + n.longestChain := Nat.add_le_add_left hroot _
    _ = (s + 1) * n.longestChain := (Nat.succ_mul _ _).symm
    _ ≤ t * n.longestChain := hmul

lemma chain_le_height (n : Node) : n.chain ≤ n.height := by
  induction n using induction_on_children with
  | step n ih =>
    rw [chain_eq, height_eq]
    refine Nat.succ_le_succ (foldr_max_le_iff.2 (List.forall_mem_map.2 fun b hb => ?_))
    have hchild : b ∈ n.children := mem_children_iff_base.2 (.inl (Option.mem_toList.1 hb))
    exact List.le_max_of_le' 0 (List.mem_map_of_mem hchild) (ih b hchild)

lemma height_le_of_mem_walk {m : Node} (h : m ∈ n.walk) : m.height ≤ n.height := by
  induction n using induction_on_children with
  | step n ih =>
    rw [walk_eq] at h
    rcases List.mem_cons.1 h with rfl | h
    · exact Nat.le_refl _
    · obtain ⟨c, hc, hm⟩ := List.mem_flatMap.1 h
      exact (ih c hc hm).trans (height_lt_of_mem_children hc).le

/-- Every run is part of a way down. -/
lemma longestChain_le_height (n : Node) : n.longestChain ≤ n.height := by
  refine foldr_max_le_iff.2 (List.forall_mem_map.2 fun m hm => ?_)
  exact m.chain_le_height.trans (height_le_of_mem_walk hm)

end Node

end BindingProxy
