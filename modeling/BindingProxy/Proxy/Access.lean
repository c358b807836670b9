import BindingProxy.Proxy.Counted
import BindingProxy.Proxy.Fragment
import BindingProxy.Tree.Fold

/-!
# Declared functions, writes and reads

Four changes to a tree, each with the number of places where it was made.  Function declarations in
a list of statements become constants that hold proxies, assignments and updates of plain names
become writes through the proxy, and names given to the constructor of a proxy are read.
-/

namespace BindingProxy

/-- The kinds of nodes that hold statements in a list, where a declaration may stand. -/
def NodeKind.isStatementList : NodeKind → Bool
  | program | block | switchCase => true
  | _ => false

namespace ProxyNames

/-! ### Functions -/

/-- Binds the name of a declared function to a proxy around the function, if the declaration stands
in a list of statements. -/
def hoistNode (names : ProxyNames) : Option NodeKind → Node → Counted Node
  | some parent, .function .declaration (some name) params body isAsync isGenerator =>
    let function := fun role => Node.function role (some name) params body isAsync isGenerator
    if parent.isStatementList then .changed (names.bind name .function (function .expression))
    else pure (function .declaration)
  | _, n => pure n

/-- Binds the names of declared functions to proxies. -/
def hoistFunctions (names : ProxyNames) (n : Node) : Counted Node :=
  n.rebuildM names.hoistNode none

/-! ### Constructor arguments -/

/-- A name is read through its proxy; other nodes stay as they are. -/
def readName : Node → Counted Node
  | .identifier name => .changed (.readProxy name)
  | n => pure n

/-- Reads the names given to the constructor of a proxy, if it makes the value of a declarator. -/
def readNode (names : ProxyNames) : Node → Counted Node
  | .declarator id (some (.construction callee arguments)) => do
    if names.isProxyCallee callee then
      return .declarator id (some (.construction callee (← arguments.mapM readName)))
    return .declarator id (some (.construction callee arguments))
  | n => pure n

/-- Reads the names given to the constructors of proxies. -/
def readConstructorArguments (names : ProxyNames) (n : Node) : Counted Node :=
  n.rebuildM (fun _ => names.readNode) none

end ProxyNames

namespace Node

/-! ### Assignments -/

/-- An assignment to a plain name as a write.  Of the compound ones only those are taken apart that
do arithmetic with a literal. -/
def writeNode : Node → Counted Node
  | .assignment .assign (.identifier name) value => .changed (writeProxy name value)
  | .assignment operator (.identifier name) (.literal kind raw) =>
    match operator.arithmetic? with
    | some arithmetic => .changed (updateProxy name arithmetic (.literal kind raw))
    | none => pure (.assignment operator (.identifier name) (.literal kind raw))
  | n => pure n

/-- Turns assignments to plain names into writes. -/
def writeAssignments (n : Node) : Counted Node := n.rebuildM (fun _ => writeNode) none

/-! ### Updates -/

/-- An update of a plain name as a write; it makes no difference on which side the operator
stands. -/
def stepNode : Node → Counted Node
  | .update operator _ (.identifier name) =>
    .changed (updateProxy name operator.delta (.literal .number "1"))
  | n => pure n

/-- Turns updates of plain names into writes. -/
def writeUpdates (n : Node) : Counted Node := n.rebuildM (fun _ => stepNode) none

end Node

end BindingProxy
