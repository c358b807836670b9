import BindingProxy.Tree.Fold

/-!
# Walking a tree

The nodes of a tree from the root downwards, each before its children and the children in their
order.
-/

namespace BindingProxy

namespace Node

/-- The nodes of a tree, each before its children. -/
def walk : Node → List Node := fold fun n below => n :: below.flatten

/-- The number of nodes on the longest way from the root to a leaf. -/
def height : Node → Nat := fold fun _ below => below.foldr max 0 + 1

theorem walk_eq (n : Node) : n.walk = n :: n.children.flatMap walk := by
  rw [walk, fold_eq, List.flatMap_def]

theorem height_eq (n : Node) : n.height = (n.children.map height).foldr max 0 + 1 :=
  fold_eq _ n

end Node

end BindingProxy
