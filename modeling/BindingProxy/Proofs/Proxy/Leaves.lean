import BindingProxy.Proofs.Proxy.Gathered

/-!
# The leaves of an instrumented script

Instrumenting moves pieces of a script into new places.  What must not happen on the way is that a
piece is lost, used twice or put in another order.  The leaves of a tree tell: its literals, the
texts of its templates, and every `this` and `super`, from the first one to the last.

All changes leave the sequence of leaves as it is, except that an update of a plain name, which has
no leaf, becomes the addition or subtraction of a literal `1`.  The sequence is therefore read with
a parameter for what such an update stands for: `leaves` reads nothing there and `leavesOfUpdates`
the literal that is to come.
-/

namespace BindingProxy

/-- A piece of a script that no change takes apart. -/
inductive Leaf where
  | literal (raw : String)
  /-- A text of a template. -/
  | quasi (text : String)
  | thisValue
  | superValue
deriving Repr, DecidableEq, Inhabited

namespace Node

/-- The leaves that a node has itself; an update of a plain name stands for the leaves `step`. -/
def ownLeaves (step : List Leaf) : Node → List Leaf
  | literal _ raw => [.literal raw]
  | template quasis _ => quasis.map .quasi
  | thisValue => [.thisValue]
  | superValue => [.superValue]
  | update _ _ (identifier _) => step
  | _ => []

/-- The leaves of a tree, each node's own before those of its children. -/
def leavesWith (step : List Leaf) : Node → List Leaf :=
  fold fun n below => n.ownLeaves step ++ below.flatten

/-- The leaves of a tree. -/
def leaves : Node → List Leaf := leavesWith []

/-- The leaves of a tree in which every update of a plain name counts as the literal `1`. -/
def leavesOfUpdates : Node → List Leaf := leavesWith [.literal "1"]

variable (step : List Leaf)

lemma leavesWith_eq (n : Node) :
    n.leavesWith step = n.ownLeaves step ++ n.children.flatMap (leavesWith step) := by
  rw [leavesWith, fold_eq, List.flatMap_def]

/-- The nodes in the fragments of the changes have no leaves of their own. -/
lemma gathered_leavesWith : Gathered (leavesWith step) := by
  intro n hn
  rw [leavesWith_eq]
  cases n <;> cases hn <;> rfl

/-- Only an update of a plain name has other leaves afterwards: the literal `1` that it counts
as. -/
lemma leaves_stepNode (n : Node) :
    n.stepNode.value.leaves =
      n.ownLeaves [.literal "1"] ++ n.children.flatMap leaves := by
  cases n with
  | update operator leading argument =>
    cases argument with
    | identifier name => rfl
    | _ => exact leavesWith_eq [] _
  | _ => exact leavesWith_eq [] _

/-! ### Plain names stay plain names

Whether an update has a leaf depends on its operand being a plain name, so the changes must keep
what a plain name is. -/

/-- What an update has of its own depends on its operand being a plain name. -/
lemma ownLeaves_update (operator : UpdateOperator) (leading : Bool) (argument : Node) :
    (update operator leading argument).ownLeaves step =
      if argument.name?.isSome then step else [] := by
  cases argument <;> rfl

/-- A node keeps its own leaves when its children stay the plain names they are. -/
lemma ownLeaves_withChildren {n : Node} {cs : List Node}
    (h : List.Forall₂ (fun c d => d.name? = c.name?) n.children cs) :
    (n.withChildren cs).ownLeaves step = n.ownLeaves step := by
  cases n with
  | update operator leading argument =>
    obtain ⟨argument', rest, hargument, hrest, rfl⟩ := List.forall₂_cons_left_iff.1 h
    rw [ownLeaves_update, ← hargument, ← ownLeaves_update step operator leading]
    rfl
  | _ => rfl

/-! ### Whole trees -/

/-- A tree and what it has become: a plain name has stayed one, and the leaves, those of updates
counted before as `step` and now as `step'`, are the same. -/
def KeepsLeaves (step step' : List Leaf) (n m : Node) : Prop :=
  m.name? = n.name? ∧ m.leavesWith step' = n.leavesWith step

/-- The leaves of a node whose children have kept theirs. -/
lemma leavesWith_of_children {step step' : List Leaf} {n : Node} {cs : List Node}
    (h : List.Forall₂ (KeepsLeaves step step') n.children cs) :
    (n.withChildren cs).ownLeaves step ++ (n.withChildren cs).children.flatMap (leavesWith step') =
      n.leavesWith step := by
  have hown := ownLeaves_withChildren step (h.imp fun c d hcd => hcd.1)
  have hbelow : n.children.map (leavesWith step) = cs.map (leavesWith step') := by
    rw [← List.forall₂_eq_eq_eq, List.forall₂_map_left_iff, List.forall₂_map_right_iff]
    exact h.imp fun c d hcd => hcd.2.symm
  rw [hown, children_withChildren n h.length_eq.symm, leavesWith_eq, List.flatMap_def,
    List.flatMap_def, hbelow]

/-- A pass that keeps the leaves of every node keeps those of every tree. -/
lemma keepsLeaves_rebuild {names : ProxyNames} {f : Option NodeKind → Node → Counted Node}
    (hf : names.Changes f)
    (hleaves : ∀ parent n, (f parent n).value.leavesWith step = n.leavesWith step) (n : Node) :
    (rebuildM f none n).value.leavesWith step = n.leavesWith step := by
  have h := rebuild_induction (f := f) (P := fun _ => KeepsLeaves step step) ?_ none n
  · exact h.2
  · intro parent n cs hcs
    refine ⟨?_, ?_⟩
    · rw [(hf parent _).alike.name, name?_withChildren]
    · rw [hleaves, leavesWith_eq, leavesWith_of_children hcs]

/-- Every pass keeps the leaves if updates of plain names count as the literal `1`. -/
lemma leavesOfUpdates_rebuild {names : ProxyNames} {f : Option NodeKind → Node → Counted Node}
    (hf : names.Changes f) (n : Node) :
    (rebuildM f none n).value.leavesOfUpdates = n.leavesOfUpdates :=
  keepsLeaves_rebuild _ hf (fun parent n =>
    (gathered_leavesWith _).of_change (fun _ _ _ => rfl) (hf parent n)) n

/-- Wrapping keeps the leaves of a tree. -/
lemma leavesWith_wrapAll (names : ProxyNames) (readArguments : Bool) (n : Node) :
    (names.wrapAll readArguments n).1.leavesWith step = n.leavesWith step := by
  refine (names.wrap_induction (P := KeepsLeaves step step) _ ?_ n {}).2
  intro n cs inHead hcs
  constructor
  · rw [names.name?_wrappedNode, name?_withChildren]
  · rw [(gathered_leavesWith step).wrappedNode, leavesWith_eq, leavesWith_of_children hcs]

/-- Writing updates through proxies turns every update of a plain name into the literal that it
counts as. -/
lemma leaves_writeUpdates (n : Node) : n.writeUpdates.value.leaves = n.leavesOfUpdates := by
  refine (rebuild_induction (P := fun _ => KeepsLeaves [.literal "1"] []) ?_ none n).2
  intro _ n cs hcs
  constructor
  · rw [(ProxyNames.change_stepNode {} none _).alike.name, name?_withChildren]
  · exact (leaves_stepNode _).trans (leavesWith_of_children hcs)

end Node

/-- Instrumenting a tree loses, duplicates and reorders nothing: its leaves are those of the tree,
with a literal `1` for every update of a plain name. -/
theorem leaves_instrumentTree (o : Options) (h : o.importClient = false) (n : Node) :
    (o.instrumentTree n).1.leaves = n.leavesOfUpdates := by
  have himport : (o.instrumentTree n).1 = o.proxied n := by
    rw [o.fst_instrumentTree, h]
    rfl
  rw [himport, Options.proxied]
  have hread := Node.keepsLeaves_rebuild [] o.names.change_readNode fun _ =>
    (Node.gathered_leavesWith []).readNode
  calc _ = Node.leaves _ := hread _
    _ = Node.leavesOfUpdates _ := Node.leaves_writeUpdates _
    _ = Node.leavesOfUpdates _ := Node.leavesOfUpdates_rebuild o.names.change_writeNode _
    _ = Node.leavesOfUpdates _ := Node.leavesOfUpdates_rebuild o.names.change_hoistNode _
    _ = n.leavesOfUpdates := Node.leavesWith_wrapAll _ _ _ n

/-- The script `x = 2; for (let y of this) y++; function f() { return super.x; }`, where an
assignment, an update and a function change places. -/
theorem leaves_instrumentTree_moved :
    ({} : Options).importClient = false ∧
      (({} : Options).instrumentTree (.program
        [.expressionStatement (.assignment .assign (.identifier "x") (.literal .number "2")),
          .forEach .values (.declare .blockScoped "y" none) .thisValue
            (.expressionStatement (.update .increment false (.identifier "y"))),
          .function .declaration (some "f") []
            (.block [.returning (some (.dot .superValue "x"))]) false false])).1.leaves =
        [.literal "2", .thisValue, .literal "1", .superValue] :=
  ⟨rfl, leaves_instrumentTree {} rfl _⟩

end BindingProxy
