import BindingProxy.Proofs.Tree.LoopHead
import BindingProxy.Proxy.Wrapping

/-!
# Wrapping without a state

Wrapping carries a state along: the counts of what was wrapped and the declarators of the current
loop head that are still to be met.  What happens to a single node depends on the state only through
one question, whether the node is a declarator of a loop head.  `wrappedNode` is the answer to what
a node becomes once this is known, and `wrap_induction` passes a relation between a tree and its
wrapped form from the children to their parent.
-/

namespace BindingProxy

namespace ProxyNames

variable (names : ProxyNames) (read : List String)

/-! ### One node -/

/-- A function in its proxy; other nodes stay as they are. -/
def wrappedFunction (n : Node) : Node :=
  if n.isFunctionValue then names.wrap .function (some n) else n

/-- What an argument of a call becomes. -/
def wrappedArgument : Node → Node
  | .identifier name => if read.contains name then .readProxy name else .identifier name
  | n => names.wrappedFunction n

/-- What a node becomes whose children are wrapped. -/
def wrappedNode (inHead : Bool) : Node → Node
  | .declarator (.identifier name) init =>
    .declarator (.identifier name)
      (if inHead then init else some (names.wrap (.ofValue init) init))
  | .call callee arguments optional =>
    .call (names.wrappedFunction callee) (arguments.map (names.wrappedArgument read)) optional
  | n => n

lemma kind_wrappedNode (inHead : Bool) (n : Node) :
    (names.wrappedNode read inHead n).kind = n.kind := by
  unfold wrappedNode
  split <;> rfl

lemma name?_wrappedNode (inHead : Bool) (n : Node) :
    (names.wrappedNode read inHead n).name? = n.name? := by
  unfold wrappedNode
  split <;> rfl

/-- A step of wrapping whose value is known and that meets no declarator. -/
def Gives {α : Type} (p : StateM WrapState α) (a : α) : Prop :=
  ∀ s, (p.run s).1 = a ∧ (p.run s).2.headDeclarators = s.headDeclarators

lemma gives_wrapFunction (n : Node) :
    Gives (names.wrapFunction n) (names.wrappedFunction n) := by
  intro s
  unfold wrapFunction wrappedFunction
  by_cases h : n.isFunctionValue = true
  · simp only [h, if_true]
    exact ⟨rfl, rfl⟩
  · simp only [h]
    exact ⟨rfl, rfl⟩

lemma gives_wrapArgument (n : Node) :
    Gives (names.wrapArgument read n) (names.wrappedArgument read n) := by
  cases n with
  | identifier name =>
    intro s
    simp only [wrapArgument, wrappedArgument]
    by_cases h : read.contains name = true
    · simp only [h, if_true]
      exact ⟨rfl, rfl⟩
    · simp only [h]
      exact ⟨rfl, rfl⟩
  | _ => exact names.gives_wrapFunction _

/-- Steps over a list give the values of the single steps. -/
lemma Gives.mapM {α β : Type} {f : α → StateM WrapState β} {g : α → β}
    (h : ∀ a, Gives (f a) (g a)) (as : List α) : Gives (as.mapM f) (as.map g) := by
  induction as with
  | nil => exact fun s => ⟨rfl, rfl⟩
  | cons a as ih =>
    intro s
    obtain ⟨hvalue, hstate⟩ := h a s
    obtain ⟨hvalues, hstates⟩ := ih ((f a).run s).2
    rw [List.mapM_cons, List.map_cons, ← hvalue, ← hvalues, ← hstate, ← hstates]
    exact ⟨rfl, rfl⟩

lemma gives_wrapNode (inHead : Bool) (n : Node) :
    Gives (names.wrapNode read inHead n) (names.wrappedNode read inHead n) := by
  intro s
  cases n with
  | declarator id init =>
    cases id with
    | identifier name => cases inHead <;> exact ⟨rfl, rfl⟩
    | _ => exact ⟨rfl, rfl⟩
  | call callee arguments optional =>
    obtain ⟨hcallee, hstate⟩ := names.gives_wrapFunction callee s
    obtain ⟨harguments, hstates⟩ :=
      Gives.mapM (names.gives_wrapArgument read) arguments ((names.wrapFunction callee).run s).2
    rw [wrappedNode, ← hcallee, ← harguments, ← hstate, ← hstates]
    exact ⟨rfl, rfl⟩
  | _ => exact ⟨rfl, rfl⟩

/-! ### Whole trees -/

/-- A tree is wrapped by meeting its root, wrapping the children and then the root itself. -/
lemma wrapTree_eq (n : Node) :
    names.wrapTree read n = (do
      let inHead ← meetNode n
      let children ← n.children.mapM (names.wrapTree read)
      names.wrapNode read inHead (n.withChildren children)) := by
  rw [wrapTree, Node.fold_eq]
  simp only [List.mapM_map]
  rfl

/-- What comes of wrapping a node after its children. -/
lemma gives_wrapTree (n : Node) (s : WrapState) :
    let below := (n.children.mapM (names.wrapTree read)).run ((meetNode n).run s).2
    ((names.wrapTree read n).run s).1 =
        names.wrappedNode read ((meetNode n).run s).1 (n.withChildren below.1) ∧
      ((names.wrapTree read n).run s).2.headDeclarators = below.2.headDeclarators := by
  rw [wrapTree_eq]
  exact names.gives_wrapNode read _ _ _

section Induction

variable {P : Node → Node → Prop}

/-- What holds of every wrapped tree holds of the trees of a list, one by one. -/
lemma forall₂_mapM_wrapTree {ns : List Node}
    (h : ∀ n ∈ ns, ∀ s, P n ((names.wrapTree read n).run s).1) (s : WrapState) :
    List.Forall₂ P ns ((ns.mapM (names.wrapTree read)).run s).1 := by
  induction ns generalizing s with
  | nil => exact .nil
  | cons c ns ih =>
    rw [List.mapM_cons]
    exact .cons (h c List.mem_cons_self s) (ih (fun d hd => h d (List.mem_cons_of_mem c hd)) _)

/-- What wrapping hands on from the children to their parent holds of the whole wrapped tree, in
whatever state it is begun. -/
lemma wrap_induction
    (step : ∀ n cs inHead, List.Forall₂ P n.children cs →
      P n (names.wrappedNode read inHead (n.withChildren cs)))
    (n : Node) (s : WrapState) : P n ((names.wrapTree read n).run s).1 := by
  induction n using Node.induction_on_children generalizing s with
  | step n ih =>
    rw [(names.gives_wrapTree read n s).1]
    exact step n _ _ (names.forall₂_mapM_wrapTree read ih _)

end Induction

/-! ### Loop heads by their place

Where every loop head declares exactly one target, the count of the declarators that are still to be
met agrees with their places: it is one on the way from the loop to the declarator, and zero
elsewhere. -/

/-- What a tree becomes, where `inHead` says whether it stands in the head of a loop. -/
def wrapped : Node → Bool → Node :=
  Node.foldHeads fun n inHead children => names.wrappedNode read inHead (n.withChildren children)

lemma wrapped_eq (n : Node) (inHead : Bool) :
    names.wrapped read n inHead = names.wrappedNode read inHead (n.withChildren
      (n.children.mapIdx fun place c => names.wrapped read c (n.headSlot inHead place))) :=
  Node.foldHeads_eq _ n inHead

/-- Wrapping a tree, begun with the count that belongs to its place, gives the wrapped tree and
leaves nothing to be met. -/
def Wraps (n : Node) (inHead : Bool) : Prop :=
  ∀ s : WrapState, s.headDeclarators = inHead.toNat →
    ((names.wrapTree read n).run s).1 = names.wrapped read n inHead ∧
      ((names.wrapTree read n).run s).2.headDeclarators = 0

variable {names read}

/-- Trees after the first one stand in no loop head. -/
lemma mapM_wraps_cons {c : Node} {cs : List Node} {inHead : Bool} (hc : names.Wraps read c inHead)
    (hcs : ∀ d ∈ cs, names.Wraps read d false) (s : WrapState)
    (hs : s.headDeclarators = inHead.toNat) :
    (((c :: cs).mapM (names.wrapTree read)).run s).1 =
        names.wrapped read c inHead :: cs.map (names.wrapped read · false) ∧
      (((c :: cs).mapM (names.wrapTree read)).run s).2.headDeclarators = 0 := by
  induction cs generalizing c inHead s with
  | nil =>
    obtain ⟨hvalue, hstate⟩ := hc s hs
    rw [List.mapM_cons, ← hvalue, ← hstate]
    exact ⟨rfl, rfl⟩
  | cons d cs ih =>
    obtain ⟨hvalue, hstate⟩ := hc s hs
    obtain ⟨hd, hcs⟩ := List.forall_mem_cons.1 hcs
    obtain ⟨hvalues, hstates⟩ := ih hd hcs ((names.wrapTree read c).run s).2 hstate
    rw [List.mapM_cons, List.map_cons, ← hvalue, ← hvalues, ← hstates]
    exact ⟨rfl, rfl⟩

/-- Only of a declarator does it matter whether it stands in a loop head. -/
lemma wrappedNode_and (inHead : Bool) (n : Node) (cs : List Node) :
    names.wrappedNode read (inHead && n.isDeclarator) (n.withChildren cs) =
      names.wrappedNode read inHead (n.withChildren cs) := by
  cases n with
  | declarator id init => rw [Node.isDeclarator, Bool.and_true]
  | _ => rfl

/-- A node is wrapped if it is met in the right way and its children are wrapped in their places. -/
lemma wraps_node {n : Node} {inHead : Bool} {k : Nat}
    (hmeet : ∀ s : WrapState, s.headDeclarators = inHead.toNat →
      ((meetNode n).run s).1 = (inHead && n.isDeclarator) ∧
        ((meetNode n).run s).2.headDeclarators = k)
    (hchildren : ∀ s : WrapState, s.headDeclarators = k →
      ((n.children.mapM (names.wrapTree read)).run s).1 =
          n.children.mapIdx (fun place c => names.wrapped read c (n.headSlot inHead place)) ∧
        ((n.children.mapM (names.wrapTree read)).run s).2.headDeclarators = 0) :
    names.Wraps read n inHead := by
  intro s hs
  obtain ⟨hmet, hstate⟩ := hmeet s hs
  obtain ⟨hvalues, hstates⟩ := hchildren _ hstate
  obtain ⟨hvalue, hfinal⟩ := names.gives_wrapTree read n s
  rw [wrapped_eq]
  constructor
  · refine hvalue.trans ?_
    rw [hmet, hvalues, wrappedNode_and]
  · exact hfinal.trans hstates

end ProxyNames

namespace Node

/-- The declaration in the head of a loop over a value declares exactly one target. -/
def SingleHead (n : Node) : Prop :=
  ∀ iteration kind declarators right body,
    n = forEach iteration (declaration kind declarators) right body →
      ∃ id init, declarators = [declarator id init]

/-- What stands in the head of a loop: a declaration of one target, or its declarator. -/
inductive IsHead : Node → Prop where
  | declaration (kind : VariableKind) (id : Node) (init : Option Node) :
    IsHead (declaration kind [declarator id init])
  | declarator (id : Node) (init : Option Node) : IsHead (declarator id init)

section Heads

variable {n : Node} {inHead : Bool} (hhead : inHead = true → n.IsHead)

include hhead

/-- Only the first child of a node can stand in a loop head. -/
lemma headSlot_succ {place : Nat} (hplace : place + 1 < n.children.length) :
    n.headSlot inHead (place + 1) = false := by
  cases n with
  | forEach iteration left right body => simp [headSlot]
  | declaration kind declarators =>
    cases inHead with
    | false => rfl
    | true =>
      obtain ⟨_, id, init⟩ := hhead rfl
      simp [children] at hplace
  | _ => rfl

/-- What is done to every child in its place, one by one. -/
lemma mapIdx_headSlot {α : Type} (f : Node → Bool → α) {c : Node} {cs : List Node}
    (hchildren : n.children = c :: cs) :
    (n.children.mapIdx fun place d => f d (n.headSlot inHead place)) =
      f c (n.headSlot inHead 0) :: cs.map (f · false) := by
  rw [hchildren, List.mapIdx_cons]
  refine congrArg _ (List.ext_getElem (by simp) fun place hplace _ => ?_)
  rw [List.length_mapIdx] at hplace
  rw [List.getElem_mapIdx, List.getElem_map,
    headSlot_succ hhead (by rw [hchildren]; exact Nat.succ_lt_succ hplace)]

/-- What stands in a loop head below a node is its first child. -/
lemma exists_isHead_of_headSlot (h : n.SingleHead) (hslot : n.headSlot inHead 0 = true) :
    ∃ c cs, n.children = c :: cs ∧ c.IsHead := by
  cases n with
  | forEach iteration left right body =>
    cases left with
    | declaration kind declarators =>
      obtain ⟨id, init, rfl⟩ := h iteration kind declarators right body rfl
      exact ⟨_, _, rfl, .declaration kind id init⟩
    | _ => cases hslot
  | declaration kind declarators =>
    obtain ⟨_, id, init⟩ := hhead hslot
    exact ⟨_, _, rfl, .declarator id init⟩
  | _ => cases hslot

end Heads

/-- Induction on a tree along its loop heads: of the children of a node only the first one may stand
in a loop head, and a node without children leads to none. -/
theorem head_induction {P : Node → Bool → Prop}
    (leaf : ∀ n inHead, n.SingleHead → (inHead = true → n.IsHead) → n.children = [] →
      n.headSlot inHead 0 = false → P n inHead)
    (node : ∀ n inHead c cs, n.SingleHead → (inHead = true → n.IsHead) → n.children = c :: cs →
      P c (n.headSlot inHead 0) → (∀ d ∈ cs, P d false) → P n inHead)
    {n : Node} (h : n.Everywhere SingleHead) {inHead : Bool} (hhead : inHead = true → n.IsHead) :
    P n inHead := by
  induction n using induction_on_children generalizing inHead with
  | step n ih =>
    have hslot : n.headSlot inHead 0 = true → ∃ c cs, n.children = c :: cs ∧ c.IsHead :=
      exists_isHead_of_headSlot hhead h.root
    cases hchildren : n.children with
    | nil =>
      refine leaf n inHead h.root hhead hchildren (Bool.eq_false_iff.2 fun htrue => ?_)
      obtain ⟨c, cs, hcons, -⟩ := hslot htrue
      cases hcons.symm.trans hchildren
    | cons c cs =>
      have hbelow : ∀ d ∈ c :: cs, ∀ inHead, (inHead = true → d.IsHead) → P d inHead := by
        rw [← hchildren]
        exact fun d hd _ hhead => ih d hd (h.child hd) hhead
      refine node n inHead c cs h.root hhead hchildren (hbelow c List.mem_cons_self _ fun htrue => ?_)
        fun d hd => hbelow d (List.mem_cons_of_mem c hd) false (by simp)
      obtain ⟨_, _, hcons, hc⟩ := hslot htrue
      rw [hchildren] at hcons
      cases hcons
      exact hc

end Node

namespace ProxyNames

variable {names : ProxyNames} {read : List String}

/-- A declarator is met in a loop head exactly if one is still to be met. -/
lemma run_meetNode_declarator {id : Node} {init : Option Node} {inHead : Bool} (s : WrapState)
    (hs : s.headDeclarators = inHead.toNat) :
    (meetNode (.declarator id init)).run s = (inHead, { s with headDeclarators := 0 }) := by
  have hrun : (meetNode (.declarator id init)).run s =
      if 0 < s.headDeclarators then
        (true, { s with headDeclarators := s.headDeclarators - 1 })
      else (false, s) := by
    change (if 0 < s.headDeclarators then _ else _ : StateM WrapState Bool).run s = _
    by_cases h : 0 < s.headDeclarators
    · rw [if_pos h, if_pos h]
      rfl
    · rw [if_neg h, if_neg h]
      rfl
  rw [hrun, hs]
  cases inHead with
  | true => rfl
  | false => exact congrArg (fun k => (false, { s with headDeclarators := k })) hs

/-- A node is met in its place: only a declarator can be met in a loop head, and one is still to be
met afterwards if and only if the first child stands in a loop head. -/
lemma run_meetNode {n : Node} (h : n.SingleHead) {inHead : Bool} (hhead : inHead = true → n.IsHead)
    {s : WrapState} (hs : s.headDeclarators = inHead.toNat) :
    (meetNode n).run s =
      (inHead && n.isDeclarator, { s with headDeclarators := (n.headSlot inHead 0).toNat }) := by
  have hkeep : ∀ inHead : Bool, s.headDeclarators = inHead.toNat →
      (false, s) = (false, { s with headDeclarators := inHead.toNat }) :=
    fun _ hs => congrArg (fun k => (false, { s with headDeclarators := k })) hs
  cases n with
  | declarator id init =>
    rw [run_meetNode_declarator s hs, Node.isDeclarator, Bool.and_true]
    rfl
  | declaration kind declarators =>
    have hnot : (Node.declaration kind declarators).isDeclarator = false := rfl
    rw [hnot, Bool.and_false]
    exact hkeep inHead hs
  | forEach iteration left right body =>
    have hfree : inHead = false := by
      cases inHead with
      | false => rfl
      | true => cases hhead rfl
    subst hfree
    cases left with
    | declaration kind declarators =>
      obtain ⟨id, init, rfl⟩ := h iteration kind declarators right body rfl
      rfl
    | _ => exact hkeep false hs
  | _ =>
    have hfree : inHead = false := by
      cases inHead with
      | false => rfl
      | true => cases hhead rfl
    subst hfree
    exact hkeep false hs

/-- Wrapping with a count of declarators is wrapping by their places. -/
theorem wraps_of_singleHead {n : Node} (h : n.Everywhere Node.SingleHead) {inHead : Bool}
    (hhead : inHead = true → n.IsHead) : names.Wraps read n inHead := by
  refine Node.head_induction ?_ ?_ h hhead
  · intro n inHead hsingle hhead hchildren hslot
    refine wraps_node (k := 0) (fun s hs => ?_) fun s hs => ?_
    · rw [run_meetNode hsingle hhead hs, hslot]
      exact ⟨rfl, rfl⟩
    · rw [hchildren]
      exact ⟨rfl, hs⟩
  · intro n inHead c cs hsingle hhead hchildren hc hcs
    refine wraps_node (k := (n.headSlot inHead 0).toNat) (fun s hs => ?_) fun s hs => ?_
    · rw [run_meetNode hsingle hhead hs]
      exact ⟨rfl, rfl⟩
    · rw [Node.mapIdx_headSlot hhead (names.wrapped read) hchildren, hchildren]
      exact mapM_wraps_cons hc hcs s hs

/-- What wrapping makes of a tree. -/
lemma wrapAll_eq_wrapped {n : Node} (h : n.Everywhere Node.SingleHead) (readArguments : Bool) :
    (names.wrapAll readArguments n).1 =
      names.wrapped (if readArguments then n.variableNames else []) n false :=
  (wraps_of_singleHead h (by simp) {} rfl).1

end ProxyNames

end BindingProxy
