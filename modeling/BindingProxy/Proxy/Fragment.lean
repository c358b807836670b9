import BindingProxy.Tree.Node

/-!
# Proxy fragments

The pieces of code that put a binding behind a proxy.  A proxy holds either a plain value or a
function; it is read through `get` and changed through `set`.  The proxy types live in one
namespace, which a script imports from a module.
-/

namespace BindingProxy

/-- What a proxy holds. -/
inductive ProxyType where
  | value | function
deriving Repr, DecidableEq, Inhabited

namespace ProxyType

/-- The name of a proxy type in its namespace. -/
def name : ProxyType → String
  | value => "Variable" | function => "Function"

/-- The proxy type for a value: a function as a value is held as a function, all else, and a missing
value, as a plain value. -/
def ofValue : Option Node → ProxyType
  | some n => if n.isFunctionValue then function else value
  | none => value

end ProxyType

/-- The names that generated code uses. -/
structure ProxyNames where
  /-- The name that holds the proxy types. -/
  namespaceName : String := "Proxy"
  /-- The module from which that name is imported. -/
  clientModule : String := "jspector"
deriving Repr, DecidableEq, Inhabited

/-- A text as a string literal in single quotes; quotes, backslashes and line breaks are
escaped. -/
def quoted (text : String) : String :=
  "'" ++ String.ofList (text.toList.flatMap fun c =>
    match c with
    | '\x27' => ['\\', '\x27']
    | '\\' => ['\\', '\\']
    | '\n' => ['\\', 'n']
    | '\r' => ['\\', 'r']
    | c => [c]) ++ "'"

namespace ProxyNames

/-- Whether `owner.key` is a proxy type. -/
def isProxyType (names : ProxyNames) (owner key : String) : Bool :=
  owner == names.namespaceName && (key == ProxyType.value.name || key == ProxyType.function.name)

/-- The construction `new namespace.key(arguments)`. -/
def construct (names : ProxyNames) (key : String) (arguments : List Node) : Node :=
  .construction (.dot (.identifier names.namespaceName) key) arguments

/-- A new proxy around a value, or around none. -/
def wrap (names : ProxyNames) (type : ProxyType) (value : Option Node) : Node :=
  names.construct type.name value.toList

/-- The constant `name`, bound to a new proxy around a value. -/
def bind (names : ProxyNames) (name : String) (type : ProxyType) (value : Node) : Node :=
  .declare .constant name (some (names.wrap type (some value)))

/-- The statement that imports the namespace from its module. -/
def clientImport (names : ProxyNames) : Node :=
  .declare .constant names.namespaceName
    (some (.call (.identifier "require") [.literal .string (quoted names.clientModule)] false))

/-- Whether a node is a construction of a proxy, written without brackets. -/
def isProxyCallee (names : ProxyNames) : Node → Bool
  | .member (.identifier owner) (.identifier key) false _ => names.isProxyType owner key
  | _ => false

end ProxyNames

namespace Node

/-- The call `owner.method(arguments)`. -/
def callMethod (owner : Node) (method : String) (arguments : List Node) : Node :=
  .call (.dot owner method) arguments false

/-- Reads the value behind a name. -/
def readProxy (name : String) : Node := callMethod (.identifier name) "get" []

/-- Changes the value behind a name. -/
def writeProxy (name : String) (value : Node) : Node :=
  callMethod (.identifier name) "set" [value]

/-- Changes the value behind a name to what an operator makes of it. -/
def updateProxy (name : String) (operator : BinaryOperator) (value : Node) : Node :=
  writeProxy name (.binary operator (readProxy name) value)

end Node

end BindingProxy
