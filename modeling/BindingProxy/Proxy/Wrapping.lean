import BindingProxy.Proxy.Fragment
import BindingProxy.Tree.Fold

/-!
# Wrapping declared values

The value of every declared name is put into a proxy, and so is every function that a call is made
of: its callee or one of its arguments.  If asked for, arguments that are names of variables are
read through their proxies.

A declaration in the head of a loop over a value declares names that the loop itself gives values
to.  Its declarators are the next ones that a walk meets after the loop, so they are counted when
the loop is met, and left alone as long as the count lasts.
-/

namespace BindingProxy

/-- How much has been wrapped and read. -/
structure WrapCounts where
  declarators : Nat := 0
  functionLiterals : Nat := 0
  callArguments : Nat := 0
deriving Repr, DecidableEq, Inhabited

/-- The state of wrapping. -/
structure WrapState where
  /-- The declarators of the current loop head that have not been met. -/
  headDeclarators : Nat := 0
  counts : WrapCounts := {}
deriving Repr, DecidableEq, Inhabited

namespace Node

/-- The names that are bound to proxies of plain values.  The head of a loop over a value binds
none. -/
def variableNames : Node → List String :=
  fold fun n below =>
    match n with
    | .forEach _ _ _ _ => (below.drop 1).flatten
    | .declarator (.identifier name) init =>
      match ProxyType.ofValue init with
      | .value => name :: below.flatten
      | .function => below.flatten
    | _ => below.flatten

end Node

namespace ProxyNames

/-- What is done when a node is met, before its children: whether it is a declarator of a loop
head. -/
def meetNode : Node → StateM WrapState Bool
  | .forEach _ (.declaration _ declarators) _ _ => do
    modify fun s => { s with headDeclarators := declarators.length }
    return false
  | .declarator _ _ => do
    let s ← get
    if 0 < s.headDeclarators then
      set { s with headDeclarators := s.headDeclarators - 1 }
      return true
    return false
  | _ => return false

/-- Puts a function into a proxy; other nodes stay as they are. -/
def wrapFunction (names : ProxyNames) (n : Node) : StateM WrapState Node := do
  if n.isFunctionValue then
    modify fun s =>
      { s with counts := { s.counts with functionLiterals := s.counts.functionLiterals + 1 } }
    return names.wrap .function (some n)
  return n

/-- An argument of a call: a function is put into a proxy, and one of the names `read` is read. -/
def wrapArgument (names : ProxyNames) (read : List String) : Node → StateM WrapState Node
  | .identifier name => do
    if read.contains name then
      modify fun s =>
        { s with counts := { s.counts with callArguments := s.counts.callArguments + 1 } }
      return .readProxy name
    return .identifier name
  | n => names.wrapFunction n

/-- A node with its declared value, its callee and its arguments wrapped. -/
def wrapNode (names : ProxyNames) (read : List String) (inHead : Bool) :
    Node → StateM WrapState Node
  | .declarator (.identifier name) init => do
    if inHead then return .declarator (.identifier name) init
    modify fun s => { s with counts := { s.counts with declarators := s.counts.declarators + 1 } }
    return .declarator (.identifier name) (some (names.wrap (.ofValue init) init))
  | .call callee arguments optional => do
    let callee ← names.wrapFunction callee
    let arguments ← arguments.mapM (names.wrapArgument read)
    return .call callee arguments optional
  | n => return n

/-- Wraps a tree: a node is met, then its children are wrapped, then the node itself. -/
def wrapTree (names : ProxyNames) (read : List String) : Node → StateM WrapState Node :=
  Node.fold fun n below => do
    let inHead ← meetNode n
    let children ← below.mapM id
    names.wrapNode read inHead (n.withChildren children)

/-- Wraps all that a tree declares and calls.  Arguments are read through their proxies if
`readArguments` is set. -/
def wrapAll (names : ProxyNames) (readArguments : Bool) (n : Node) : Node × WrapCounts :=
  let read := if readArguments then n.variableNames else []
  let (n, s) := (names.wrapTree read n).run {}
  (n, s.counts)

end ProxyNames

end BindingProxy
