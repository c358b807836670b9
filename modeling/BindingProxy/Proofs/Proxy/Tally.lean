import BindingProxy.Proofs.Proxy.VariableNames
import BindingProxy.Proofs.Tree.Congruent
import Mathlib.Algebra.Ring.Nat

/-!
# What wrapping counts

Wrapping keeps count of the declarators, function literals and arguments that it changes.  The counts
are part of a state that goes through the whole tree, and what is added at a node depends on the
state, since a declarator may belong to a loop head.

`tally` says what the counts are, by the nodes of the tree as it was before anything was wrapped: the
declarators of plain names outside loop heads, the functions that calls are made of, and the
arguments of calls that are to be read.  It is the sum of what each node adds, and so is the count in
the state, which `tallies_of_singleHead` shows by induction on the tree.
-/

namespace BindingProxy

/-- The first element of a list adds to a count what it counts for itself. -/
lemma countP_cons_toNat {α : Type} (p : α → Bool) (a : α) (as : List α) :
    (a :: as).countP p = (p a).toNat + as.countP p := by
  rw [List.countP_cons, Nat.add_comm]
  cases p a <;> rfl

/-- A count is the sum of what the elements count for. -/
lemma sum_map_toNat {α : Type} (p : α → Bool) (as : List α) :
    (as.map fun a => (p a).toNat).sum = as.countP p := by
  induction as with
  | nil => rfl
  | cons a as ih => rw [List.map_cons, List.sum_cons, ih, countP_cons_toNat]

lemma countP_of_forall₂ {α : Type} {p : α → Bool} {as bs : List α}
    (h : List.Forall₂ (fun a b => p b = p a) as bs) : bs.countP p = as.countP p := by
  rw [← sum_map_toNat, ← sum_map_toNat]
  exact congrArg List.sum (map_of_forall₂ (h.imp fun _ _ hab => congrArg Bool.toNat hab))

namespace WrapCounts

instance : Add WrapCounts where
  add a b := ⟨a.declarators + b.declarators, a.functionLiterals + b.functionLiterals,
    a.callArguments + b.callArguments⟩

instance : Zero WrapCounts where
  zero := {}

lemma add_def (a b : WrapCounts) : a + b = ⟨a.declarators + b.declarators,
    a.functionLiterals + b.functionLiterals, a.callArguments + b.callArguments⟩ := rfl

lemma zero_def : (0 : WrapCounts) = ⟨0, 0, 0⟩ := rfl

instance : AddCommMonoid WrapCounts where
  add_assoc a b c := by simp only [add_def, Nat.add_assoc]
  zero_add a := by simp only [add_def, zero_def, Nat.zero_add]
  add_zero a := by simp only [add_def, zero_def, Nat.add_zero]
  add_comm a b := by simp only [add_def, Nat.add_comm]
  nsmul := nsmulRec

/-- The counts of a list of parts, added up. -/
lemma sum_eq (ks : List WrapCounts) :
    ks.sum = ⟨(ks.map declarators).sum, (ks.map functionLiterals).sum,
      (ks.map callArguments).sum⟩ := by
  induction ks with
  | nil => rfl
  | cons k ks ih => rw [List.sum_cons, ih, add_def]; rfl

end WrapCounts

namespace Node

/-! ### The nodes that are counted -/

/-- The arguments of a call. -/
def callArguments : Node → List Node
  | call _ arguments _ => arguments
  | _ => []

/-- The children of all nodes of the given kinds in a tree. -/
def childrenUnder (kinds : List NodeKind) (n : Node) : List Node :=
  (n.walk.filter fun m => kinds.contains m.kind).flatMap children

/-- The declarators of a tree, each with whether it stands in the head of a loop over a value. -/
def placedDeclarators : Node → Bool → List (Node × Bool) :=
  foldHeads fun n inHead below => (if n.isDeclarator then [(n, inHead)] else []) ++ below.flatten

/-- Whether the value of a declarator is put into a proxy: it declares a plain name and stands in no
loop head. -/
def isWrapped : Node × Bool → Bool
  | (declarator id _, inHead) => id.name?.isSome && !inHead
  | _ => false

lemma childrenUnder_eq (kinds : List NodeKind) (n : Node) :
    n.childrenUnder kinds =
      (if kinds.contains n.kind then n.children else []) ++
        n.children.flatMap (childrenUnder kinds) := by
  have hbelow : (n.children.flatMap fun c => c.walk.filter fun m => kinds.contains m.kind).flatMap
      children = n.children.flatMap (childrenUnder kinds) := List.flatMap_assoc
  rw [childrenUnder, walk_eq, List.filter_cons, List.filter_flatMap]
  split
  · rw [List.flatMap_cons, hbelow]
  · rw [hbelow, List.nil_append]

lemma placedDeclarators_eq (n : Node) (inHead : Bool) :
    n.placedDeclarators inHead =
      (if n.isDeclarator then [(n, inHead)] else []) ++
        (n.children.mapIdx fun place c => c.placedDeclarators (n.headSlot inHead place)).flatten :=
  foldHeads_eq _ n inHead

/-! ### Counts by place -/

variable (read : List String)

/-- What wrapping counts in a tree, where `inHead` says whether it stands in the head of a loop and
`read` are the names whose proxies are read. -/
def tally (n : Node) (inHead : Bool) : WrapCounts where
  declarators := (n.placedDeclarators inHead).countP isWrapped
  functionLiterals := (n.childrenUnder [.call]).countP isFunctionValue
  callArguments := (n.walk.flatMap callArguments).countP fun a => a.name?.any read.contains

/-- What wrapping counts at a single node. -/
def ownCounts (inHead : Bool) (n : Node) : WrapCounts where
  declarators := (isWrapped (n, inHead)).toNat
  functionLiterals := if n.kind = .call then n.children.countP isFunctionValue else 0
  callArguments := n.callArguments.countP fun a => a.name?.any read.contains

/-- What is counted in a tree is what is counted at its root and in its children. -/
lemma tally_eq (n : Node) (inHead : Bool) :
    n.tally read inHead = n.ownCounts read inHead +
      (n.children.mapIdx fun place c => c.tally read (n.headSlot inHead place)).sum := by
  have hdeclarator : (if n.isDeclarator then [(n, inHead)] else []).countP isWrapped =
      (isWrapped (n, inHead)).toNat := by
    cases n with
    | declarator id init => cases h : isWrapped (declarator id init, inHead) <;> simp [isDeclarator, h]
    | _ => rfl
  have hfunctions : (if [NodeKind.call].contains n.kind then n.children else []).countP
      isFunctionValue = if n.kind = .call then n.children.countP isFunctionValue else 0 := by
    by_cases h : n.kind = .call <;> simp [h]
  rw [WrapCounts.sum_eq, WrapCounts.add_def, tally, placedDeclarators_eq, childrenUnder_eq, walk_eq,
    List.flatMap_cons, List.flatMap_assoc]
  simp only [List.countP_append, List.countP_flatten, List.countP_flatMap, hdeclarator, hfunctions]
  simp only [ownCounts, WrapCounts.mk.injEq, Nat.add_left_cancel_iff]
  simp only [map_mapIdx, tally, mapIdx_eq_map, true_and]
  exact ⟨rfl, rfl⟩

/-- What is counted at a node depends on the children only through their names and on whether they
are functions. -/
lemma ownCounts_withChildren {n : Node} {cs : List Node}
    (h : List.Forall₂ (fun c d => d.name? = c.name? ∧ d.isFunctionValue = c.isFunctionValue)
      n.children cs) (inHead : Bool) :
    (n.withChildren cs).ownCounts read inHead = n.ownCounts read inHead := by
  have hdeclarator : isWrapped (n.withChildren cs, inHead) = isWrapped (n, inHead) := by
    cases n with
    | declarator id init =>
      obtain ⟨id', rest, hid, -, rfl⟩ := List.forall₂_cons_left_iff.1 h
      exact congrArg (·.isSome && !inHead) hid.1
    | _ => rfl
  have harguments : List.Forall₂ (fun a b => b.name? = a.name?) n.callArguments
      (n.withChildren cs).callArguments := by
    cases congruent_withChildren h with
    | call hcallee harguments => exact harguments.imp fun _ _ hab => hab.1
    | _ => exact .nil
  have hfunctions : cs.countP isFunctionValue = n.children.countP isFunctionValue :=
    countP_of_forall₂ (h.imp fun _ _ hcd => hcd.2)
  rw [ownCounts, ownCounts, hdeclarator, kind_withChildren, children_withChildren n h.length_eq.symm,
    hfunctions, countP_of_forall₂ (harguments.imp fun a b hab => by rw [hab])]

end Node

namespace ProxyNames

open Node

variable {names : ProxyNames} {read : List String}

/-! ### Counts by the state -/

lemma counts_wrapFunction (n : Node) (s : WrapState) :
    ((names.wrapFunction n).run s).2.counts = s.counts + ⟨0, n.isFunctionValue.toNat, 0⟩ := by
  unfold wrapFunction
  cases n.isFunctionValue <;> rfl

lemma counts_wrapArgument (n : Node) (s : WrapState) :
    ((names.wrapArgument read n).run s).2.counts =
      s.counts + ⟨0, n.isFunctionValue.toNat, (n.name?.any read.contains).toNat⟩ := by
  cases n with
  | identifier name =>
    simp only [wrapArgument, name?, Option.any_some]
    cases read.contains name <;> rfl
  | _ => exact names.counts_wrapFunction _ s

lemma counts_wrapArguments (arguments : List Node) (s : WrapState) :
    ((arguments.mapM (names.wrapArgument read)).run s).2.counts =
      s.counts + ⟨0, arguments.countP isFunctionValue,
        arguments.countP fun a => a.name?.any read.contains⟩ := by
  induction arguments generalizing s with
  | nil => rfl
  | cons a arguments ih =>
    rw [List.mapM_cons, countP_cons_toNat, countP_cons_toNat]
    refine (ih ((names.wrapArgument read a).run s).2).trans ?_
    rw [counts_wrapArgument, add_assoc]
    rfl

/-- What a node adds to the counts. -/
lemma counts_wrapNode (read : List String) (inHead : Bool) (n : Node) (s : WrapState) :
    ((names.wrapNode read inHead n).run s).2.counts = s.counts + n.ownCounts read inHead := by
  cases n with
  | declarator id init =>
    cases id with
    | identifier name => cases inHead <;> rfl
    | _ => rfl
  | call callee arguments optional =>
    refine (counts_wrapArguments arguments ((names.wrapFunction callee).run s).2).trans ?_
    rw [counts_wrapFunction, add_assoc]
    simp [ownCounts, WrapCounts.add_def, isWrapped, callArguments, children, Node.kind,
      countP_cons_toNat]
  | function role => cases role <;> rfl
  | forEach iteration => cases iteration <;> rfl
  | jump jump => cases jump <;> rfl
  | classDefinition role => cases role <;> rfl
  | _ => rfl

/-! ### Counts of whole trees -/

/-- Wrapping a tree, begun with the count of declarators that belongs to its place, adds what is
counted in the tree. -/
def Tallies (names : ProxyNames) (read : List String) (n : Node) (inHead : Bool) : Prop :=
  ∀ s : WrapState, s.headDeclarators = inHead.toNat →
    ((names.wrapTree read n).run s).2.headDeclarators = 0 ∧
      ((names.wrapTree read n).run s).2.counts = s.counts + n.tally read inHead

/-- The counts of a list of trees of which only the first may stand in a loop head. -/
lemma mapM_tallies_cons {c : Node} {cs : List Node} {inHead : Bool}
    (hc : names.Tallies read c inHead) (hcs : ∀ d ∈ cs, names.Tallies read d false) (s : WrapState)
    (hs : s.headDeclarators = inHead.toNat) :
    (((c :: cs).mapM (names.wrapTree read)).run s).2.headDeclarators = 0 ∧
      (((c :: cs).mapM (names.wrapTree read)).run s).2.counts =
        s.counts + (c.tally read inHead :: cs.map (·.tally read false)).sum := by
  induction cs generalizing c inHead s with
  | nil =>
    obtain ⟨hstate, hcounts⟩ := hc s hs
    rw [List.mapM_cons, List.map_nil, List.sum_cons, List.sum_nil, add_zero, ← hcounts]
    exact ⟨hstate, rfl⟩
  | cons d cs ih =>
    obtain ⟨hstate, hcounts⟩ := hc s hs
    obtain ⟨hd, hcs⟩ := List.forall_mem_cons.1 hcs
    obtain ⟨hstates, hsum⟩ := ih hd hcs ((names.wrapTree read c).run s).2 hstate
    rw [List.mapM_cons, List.map_cons, List.sum_cons, ← add_assoc, ← hcounts, ← hsum]
    exact ⟨hstates, rfl⟩

/-- What can be counted at a node is the same before and after its children are wrapped. -/
lemma ownCounts_mapM_wrapTree (n : Node) (inHead : Bool) (s : WrapState) :
    (n.withChildren ((n.children.mapM (names.wrapTree read)).run s).1).ownCounts read inHead =
      n.ownCounts read inHead := by
  refine ownCounts_withChildren read (names.forall₂_mapM_wrapTree read (fun c _ => ?_) s) inHead
  refine names.wrap_induction (P := fun n m => m.name? = n.name? ∧
    m.isFunctionValue = n.isFunctionValue) read (fun n cs inHead _ => ⟨?_, ?_⟩) c
  · rw [name?_wrappedNode, name?_withChildren]
  · exact isFunctionValue_wrappedNode read n cs inHead

/-- Only of a declarator does it matter to the counts whether it stands in a loop head. -/
lemma ownCounts_and (n : Node) (inHead : Bool) :
    n.ownCounts read (inHead && n.isDeclarator) = n.ownCounts read inHead := by
  cases n with
  | declarator id init => rw [isDeclarator, Bool.and_true]
  | _ => rfl

/-- The counts of a tree are those of its children and what is counted at the root. -/
lemma tallies_node {n : Node} (hsingle : n.SingleHead) {inHead : Bool}
    (hhead : inHead = true → n.IsHead)
    (hchildren : ∀ s : WrapState, s.headDeclarators = (n.headSlot inHead 0).toNat →
      ((n.children.mapM (names.wrapTree read)).run s).2.headDeclarators = 0 ∧
        ((n.children.mapM (names.wrapTree read)).run s).2.counts = s.counts +
          (n.children.mapIdx fun place c => c.tally read (n.headSlot inHead place)).sum) :
    names.Tallies read n inHead := by
  intro s hs
  have hmeet := run_meetNode hsingle hhead hs
  obtain ⟨hstate, hcounts⟩ := hchildren ((meetNode n).run s).2 (by rw [hmeet])
  have hnode := names.counts_wrapNode read ((meetNode n).run s).1 (n.withChildren
    ((n.children.mapM (names.wrapTree read)).run ((meetNode n).run s).2).1)
    ((n.children.mapM (names.wrapTree read)).run ((meetNode n).run s).2).2
  refine ⟨(names.gives_wrapTree read n s).2.trans hstate, ?_⟩
  rw [wrapTree_eq]
  refine hnode.trans ?_
  rw [hcounts, ownCounts_mapM_wrapTree, hmeet, ownCounts_and, tally_eq, add_assoc,
    add_comm (n.ownCounts read inHead)]

/-- The counts in the state are what the tree has to be counted. -/
theorem tallies_of_singleHead {n : Node} (h : n.Everywhere SingleHead) {inHead : Bool}
    (hhead : inHead = true → n.IsHead) : names.Tallies read n inHead := by
  refine head_induction ?_ ?_ h hhead
  · intro n inHead hsingle hhead hchildren hslot
    refine tallies_node hsingle hhead fun s hs => ?_
    rw [hslot] at hs
    rw [hchildren]
    exact ⟨hs, (add_zero s.counts).symm⟩
  · intro n inHead c cs hsingle hhead hchildren hc hcs
    refine tallies_node hsingle hhead fun s hs => ?_
    rw [mapIdx_headSlot hhead (tally read) hchildren, hchildren]
    exact mapM_tallies_cons hc hcs s hs

/-- What wrapping counts in a tree. -/
lemma snd_wrapAll {n : Node} (h : n.Everywhere SingleHead) (readArguments : Bool) :
    (names.wrapAll readArguments n).2 =
      n.tally (if readArguments then n.variableNames else []) false :=
  ((tallies_of_singleHead h (by simp) {} rfl).2).trans (zero_add _)

end ProxyNames

end BindingProxy
