import BindingProxy.Tree.Children

/-!
# Folding a tree

`fold f` works out a value for every node from the node and the values of its children.  It is a
recursion on the shape of the tree; `fold_eq` says it in terms of `children`.
-/

namespace BindingProxy

namespace Node

variable {α : Type}

mutual

/-- The value of a node, worked out by `f` from the node and the values of its children. -/
def fold (f : Node → List α → α) : Node → α
  | program body => f (program body) (foldList f body)
  | expressionStatement e => f (expressionStatement e) [fold f e]
  | block body => f (block body) (foldList f body)
  | empty => f empty []
  | debugger => f debugger []
  | returning argument => f (returning argument) (foldOption f argument)
  | conditionalStatement test consequent alternate =>
    f (conditionalStatement test consequent alternate)
      (fold f test :: fold f consequent :: foldOption f alternate)
  | whileLoop test body => f (whileLoop test body) [fold f test, fold f body]
  | doWhileLoop body test => f (doWhileLoop body test) [fold f body, fold f test]
  | forLoop init test step body =>
    f (forLoop init test step body)
      (foldOption f init ++ foldOption f test ++ foldOption f step ++ [fold f body])
  | forEach iteration left right body =>
    f (forEach iteration left right body) [fold f left, fold f right, fold f body]
  | jump kind label => f (jump kind label) []
  | throwing argument => f (throwing argument) [fold f argument]
  | guarded body recovery finalizer =>
    f (guarded body recovery finalizer)
      (fold f body :: (foldOption f recovery ++ foldOption f finalizer))
  | handler param body => f (handler param body) (foldOption f param ++ [fold f body])
  | switch discriminant cases =>
    f (switch discriminant cases) (fold f discriminant :: foldList f cases)
  | switchCase test consequent =>
    f (switchCase test consequent) (foldOption f test ++ foldList f consequent)
  | labeled label body => f (labeled label body) [fold f body]
  | declaration kind declarators => f (declaration kind declarators) (foldList f declarators)
  | declarator id init => f (declarator id init) (fold f id :: foldOption f init)
  | function role id params body isAsync isGenerator =>
    f (function role id params body isAsync isGenerator) (foldList f params ++ [fold f body])
  | classDefinition role id superClass body =>
    f (classDefinition role id superClass body) (foldOption f superClass ++ foldList f body)
  | identifier name => f (identifier name) []
  | literal kind raw => f (literal kind raw) []
  | template quasis expressions => f (template quasis expressions) (foldList f expressions)
  | taggedTemplate tag quasi => f (taggedTemplate tag quasi) [fold f tag, fold f quasi]
  | thisValue => f thisValue []
  | superValue => f superValue []
  | array elements => f (array elements) (foldHoles f elements)
  | object properties => f (object properties) (foldList f properties)
  | property key value kind computed shorthand isMethod =>
    f (property key value kind computed shorthand isMethod) [fold f key, fold f value]
  | arrow params body concise isAsync =>
    f (arrow params body concise isAsync) (foldList f params ++ [fold f body])
  | method key value kind computed isStatic =>
    f (method key value kind computed isStatic) [fold f key, fold f value]
  | unary operator argument => f (unary operator argument) [fold f argument]
  | update operator leading argument => f (update operator leading argument) [fold f argument]
  | binary operator left right => f (binary operator left right) [fold f left, fold f right]
  | logical operator left right => f (logical operator left right) [fold f left, fold f right]
  | assignment operator left right =>
    f (assignment operator left right) [fold f left, fold f right]
  | conditional test consequent alternate =>
    f (conditional test consequent alternate) [fold f test, fold f consequent, fold f alternate]
  | call callee arguments optional =>
    f (call callee arguments optional) (fold f callee :: foldList f arguments)
  | construction callee arguments =>
    f (construction callee arguments) (fold f callee :: foldList f arguments)
  | member owner key computed optional =>
    f (member owner key computed optional) [fold f owner, fold f key]
  | sequence expressions => f (sequence expressions) (foldList f expressions)
  | spread argument => f (spread argument) [fold f argument]
  | yielding argument delegate => f (yielding argument delegate) (foldOption f argument)
  | awaiting argument => f (awaiting argument) [fold f argument]
  | objectPattern properties => f (objectPattern properties) (foldList f properties)
  | arrayPattern elements => f (arrayPattern elements) (foldHoles f elements)
  | defaulted left right => f (defaulted left right) [fold f left, fold f right]
  | rest argument => f (rest argument) [fold f argument]

/-- The values of nodes. -/
def foldList (f : Node → List α → α) : List Node → List α
  | [] => []
  | n :: ns => fold f n :: foldList f ns

/-- The value of a node that may be missing. -/
def foldOption (f : Node → List α → α) : Option Node → List α
  | none => []
  | some n => [fold f n]

/-- The values of the elements that are no holes. -/
def foldHoles (f : Node → List α → α) : List (Option Node) → List α
  | [] => []
  | none :: ns => foldHoles f ns
  | some n :: ns => fold f n :: foldHoles f ns

end

theorem foldList_eq (f : Node → List α → α) (ns : List Node) :
    foldList f ns = ns.map (fold f) := by
  induction ns with
  | nil => rfl
  | cons n ns ih => simp [foldList, ih]

theorem foldOption_eq (f : Node → List α → α) (o : Option Node) :
    foldOption f o = o.toList.map (fold f) := by
  cases o <;> rfl

theorem foldHoles_eq (f : Node → List α → α) (ns : List (Option Node)) :
    foldHoles f ns = (ns.filterMap id).map (fold f) := by
  induction ns with
  | nil => rfl
  | cons n ns ih => cases n <;> simp [foldHoles, ih]

/-- The value of a node comes from the values of its children in their order. -/
theorem fold_eq (f : Node → List α → α) (n : Node) :
    n.fold f = f n (n.children.map (fold f)) := by
  cases n <;> simp [fold, children, foldList_eq, foldOption_eq, foldHoles_eq]

/-! ### Rebuilding -/

/-- Rebuilds a node from the ways to rebuild its children, from the first one to the last. -/
def rebuildNodeM {m : Type → Type} [Monad m] (f : Option NodeKind → Node → m Node) (n : Node)
    (below : List (Option NodeKind → m Node)) (parent : Option NodeKind) : m Node := do
  let children ← below.mapM fun rebuild => rebuild (some n.kind)
  f parent (n.withChildren children)

/-- Rebuilds a tree from its leaves upwards: `f` is given the kind of a node's parent and the node
with its children rebuilt. -/
def rebuildM {m : Type → Type} [Monad m] (f : Option NodeKind → Node → m Node)
    (parent : Option NodeKind) (n : Node) : m Node :=
  n.fold (rebuildNodeM f) parent

/-- A node is rebuilt from its rebuilt children. -/
theorem rebuildM_eq {m : Type → Type} [Monad m] [LawfulMonad m]
    (f : Option NodeKind → Node → m Node) (parent : Option NodeKind) (n : Node) :
    rebuildM f parent n = (do
      let children ← n.children.mapM (rebuildM f (some n.kind))
      f parent (n.withChildren children)) := by
  rw [rebuildM, fold_eq, rebuildNodeM, List.mapM_map]
  rfl

end Node

end BindingProxy
