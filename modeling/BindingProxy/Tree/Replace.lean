import BindingProxy.Tree.Walk

/-!
# Replacing nodes on the way down

A visitor is shown every node together with the kind of its parent and answers with the node that
takes its place.  The traversal goes on into the children of the answer, so that what a visitor puts
in is shown to it as well.  A visitor may answer with ever larger nodes, so the traversal is given
the depth at which it stops.
-/

namespace BindingProxy

/-- Shown a node and the kind of its parent, answers with the node that takes its place. -/
abbrev Visitor (σ : Type) := Option NodeKind → Node → StateM σ Node

namespace Node

/-- Shows every node down to a depth to the visitor, each before its children. -/
def replaceWithin {σ : Type} (visit : Visitor σ) : Nat → Option NodeKind → Node → StateM σ Node
  | 0, _, n => pure n
  | depth + 1, parent, n => do
    let n ← visit parent n
    let children ← n.children.mapM (replaceWithin visit depth (some n.kind))
    return n.withChildren children

end Node

/-! ### Substitution by rules -/

/-- Puts a replacement in the place of the nodes of a kind; of one name or below one kind of parent
only, where these are given.  Below no parent is written `some none`. -/
structure SubstitutionRule where
  kind : NodeKind
  name : Option String
  parent : Option (Option NodeKind)
  replacement : Node

/-- What a substitution has seen and done so far. -/
structure SubstitutionLog where
  /-- The kinds of the nodes seen and of their parents, the last one first. -/
  visits : List (NodeKind × Option NodeKind) := []
  replaced : Nat := 0
deriving Repr, Inhabited

namespace SubstitutionRule

/-- Whether a rule speaks of a node below a parent. -/
def applies (r : SubstitutionRule) (parent : Option NodeKind) (n : Node) : Bool :=
  n.kind == r.kind &&
    (match r.name with
      | none => true
      | some name => n.name? == some name) &&
    (match r.parent with
      | none => true
      | some required => parent == required)

/-- The visitor that uses the first rule that applies, as long as fewer than `limit` nodes have been
replaced. -/
def visitor (rules : List SubstitutionRule) (limit : Nat) : Visitor SubstitutionLog :=
  fun parent n log =>
    let log := { log with visits := (n.kind, parent) :: log.visits }
    if limit ≤ log.replaced then (n, log)
    else
      match rules.find? (·.applies parent n) with
      | none => (n, log)
      | some r => (r.replacement, { log with replaced := log.replaced + 1 })

/-- A depth that no substitution goes beyond: on a way downwards each replacement adds at most its
own height. -/
def depthBound (rules : List SubstitutionRule) (limit : Nat) (n : Node) : Nat :=
  n.height + limit * (rules.map (·.replacement.height)).foldr max 0

/-- The tree after a substitution and the log of it. -/
def substitute (rules : List SubstitutionRule) (limit : Nat) (n : Node) : Node × SubstitutionLog :=
  (n.replaceWithin (visitor rules limit) (depthBound rules limit n) none).run {}

end SubstitutionRule

end BindingProxy
