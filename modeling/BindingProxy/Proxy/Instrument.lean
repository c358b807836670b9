import BindingProxy.Code.Printer
import BindingProxy.Grammar.Program
import BindingProxy.Proxy.Access
import BindingProxy.Proxy.Wrapping

/-!
# Instrumented scripts

A script is instrumented by putting its bindings behind proxies: values are wrapped, functions bound
to proxies, and assignments, updates and constructor arguments go through `set` and `get`, in this
order.  If asked for, the import of the proxy types comes first.
-/

namespace BindingProxy

/-- How a script is instrumented. -/
structure Options where
  importClient : Bool := false
  names : ProxyNames := {}
  /-- Whether arguments of calls that are names of variables are read. -/
  readArguments : Bool := false
  layout : Layout := {}
deriving Repr, DecidableEq, Inhabited

/-- The number of places where each change was made. -/
structure Changes where
  wrapped : WrapCounts := {}
  functions : Nat := 0
  assignments : Nat := 0
  updates : Nat := 0
  constructorArguments : Nat := 0
  clientImported : Bool := false
deriving Repr, DecidableEq, Inhabited

/-- The number of all changes; the import is not counted. -/
def Changes.total (c : Changes) : Nat :=
  c.wrapped.declarators + c.wrapped.functionLiterals + c.wrapped.callArguments + c.functions +
    c.assignments + c.updates + c.constructorArguments

/-- A program with the import of the proxy types before it; other nodes have no place for it. -/
def ProxyNames.importInto? (names : ProxyNames) : Node → Option Node
  | .program body => some (.program (names.clientImport :: body))
  | _ => none

namespace Options

/-- A tree with its bindings behind proxies. -/
def instrumentTree (o : Options) (n : Node) : Node × Changes :=
  let (tree, wrapped) := o.names.wrapAll o.readArguments n
  let functions := o.names.hoistFunctions tree
  let assignments := functions.value.writeAssignments
  let updates := assignments.value.writeUpdates
  let arguments := o.names.readConstructorArguments updates.value
  let imported := if o.importClient then o.names.importInto? arguments.value else none
  (imported.getD arguments.value,
    { wrapped
      functions := functions.count
      assignments := assignments.count
      updates := updates.count
      constructorArguments := arguments.count
      clientImported := imported.isSome })

/-- The code of an instrumented script. -/
def instrument (o : Options) (text : String) : Except ParseFailure (String × Changes) :=
  (parse text).map fun program =>
    let (tree, changes) := o.instrumentTree program
    (tree.code o.layout, changes)

end Options

end BindingProxy
