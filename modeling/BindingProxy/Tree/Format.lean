import BindingProxy.Json.Basic
import BindingProxy.Tree.Node

/-!
# Trees as JSON

A node is an object with its kind under `type`, followed by its fields.  A missing child and a hole
are null, and operators are written as in a script.
-/

namespace BindingProxy

/-- The name of a literal's type. -/
def LiteralKind.name : LiteralKind → String
  | null => "Null" | boolean => "Boolean" | number => "Number" | bigInt => "BigInt"
  | string => "String" | regExp => "RegExp"

def PropertyKind.name : PropertyKind → String
  | init => "init" | get => "get" | set => "set"

def MethodKind.name : MethodKind → String
  | constructor => "constructor" | method => "method" | get => "get" | set => "set"

namespace Node

/-- An object for a node of a kind with the given fields. -/
def jsonObject (kind : NodeKind) (fields : List (String × Json)) : Json :=
  .object (("type", .string kind.name) :: fields)

mutual

/-- The JSON value of a node. -/
def toJson : Node → Json
  | program body => jsonObject .program [("body", .array (jsonList body))]
  | expressionStatement e => jsonObject .expressionStatement [("expression", toJson e)]
  | block body => jsonObject .block [("body", .array (jsonList body))]
  | empty => jsonObject .empty []
  | debugger => jsonObject .debugger []
  | returning argument => jsonObject .returning [("argument", jsonOption argument)]
  | conditionalStatement test consequent alternate =>
    jsonObject .conditionalStatement
      [("test", toJson test), ("consequent", toJson consequent),
        ("alternate", jsonOption alternate)]
  | whileLoop test body =>
    jsonObject .whileLoop [("test", toJson test), ("body", toJson body)]
  | doWhileLoop body test =>
    jsonObject .doWhileLoop [("body", toJson body), ("test", toJson test)]
  | forLoop init test step body =>
    jsonObject .forLoop
      [("init", jsonOption init), ("test", jsonOption test), ("update", jsonOption step),
        ("body", toJson body)]
  | forEach iteration left right body =>
    jsonObject (match iteration with | .keys => .forIn | .values => .forOf)
      [("left", toJson left), ("right", toJson right), ("body", toJson body)]
  | jump kind label =>
    jsonObject (match kind with | .leave => .breaking | .repeat => .continuing)
      [("label", .ofOption label)]
  | throwing argument => jsonObject .throwing [("argument", toJson argument)]
  | guarded body recovery finalizer =>
    jsonObject .guarded
      [("block", toJson body), ("handler", jsonOption recovery),
        ("finalizer", jsonOption finalizer)]
  | handler param body =>
    jsonObject .handler [("param", jsonOption param), ("body", toJson body)]
  | switch discriminant cases =>
    jsonObject .switch
      [("discriminant", toJson discriminant), ("cases", .array (jsonList cases))]
  | switchCase test consequent =>
    jsonObject .switchCase
      [("test", jsonOption test), ("consequent", .array (jsonList consequent))]
  | labeled label body =>
    jsonObject .labeled [("label", .string label), ("body", toJson body)]
  | declaration kind declarators =>
    jsonObject .declaration
      [("kind", .string kind.word), ("declarations", .array (jsonList declarators))]
  | declarator id init =>
    jsonObject .declarator [("id", toJson id), ("init", jsonOption init)]
  | function role id params body isAsync isGenerator =>
    jsonObject
      (match role with | .declaration => .functionDeclaration | .expression => .functionExpression)
      [("id", .ofOption id), ("params", .array (jsonList params)), ("body", toJson body),
        ("is_async", .bool isAsync), ("is_generator", .bool isGenerator)]
  | classDefinition role id superClass body =>
    jsonObject
      (match role with | .declaration => .classDeclaration | .expression => .classExpression)
      [("id", .ofOption id), ("super_class", jsonOption superClass),
        ("body", .array (jsonList body))]
  | identifier name => jsonObject .identifier [("name", .string name)]
  | literal kind raw =>
    jsonObject .literal [("kind", .string kind.name), ("raw", .string raw)]
  | template quasis expressions =>
    jsonObject .template
      [("quasis", .array (quasis.map .string)), ("expressions", .array (jsonList expressions))]
  | taggedTemplate tag quasi =>
    jsonObject .taggedTemplate [("tag", toJson tag), ("quasi", toJson quasi)]
  | thisValue => jsonObject .thisValue []
  | superValue => jsonObject .superValue []
  | array elements => jsonObject .array [("elements", .array (jsonHoles elements))]
  | object properties => jsonObject .object [("properties", .array (jsonList properties))]
  | property key value kind computed shorthand isMethod =>
    jsonObject .property
      [("key", toJson key), ("value", toJson value), ("kind", .string kind.name),
        ("computed", .bool computed), ("shorthand", .bool shorthand),
        ("method", .bool isMethod)]
  | arrow params body concise isAsync =>
    jsonObject .arrow
      [("params", .array (jsonList params)), ("body", toJson body),
        ("expression", .bool concise), ("is_async", .bool isAsync)]
  | method key value kind computed isStatic =>
    jsonObject .method
      [("key", toJson key), ("value", toJson value), ("kind", .string kind.name),
        ("computed", .bool computed), ("is_static", .bool isStatic)]
  | unary operator argument =>
    jsonObject .unary [("operator", .string operator.text), ("argument", toJson argument)]
  | update operator leading argument =>
    jsonObject .update
      [("operator", .string operator.text), ("prefix", .bool leading),
        ("argument", toJson argument)]
  | binary operator left right =>
    jsonObject .binary
      [("operator", .string operator.text), ("left", toJson left), ("right", toJson right)]
  | logical operator left right =>
    jsonObject .logical
      [("operator", .string operator.text), ("left", toJson left), ("right", toJson right)]
  | assignment operator left right =>
    jsonObject .assignment
      [("operator", .string operator.text), ("left", toJson left), ("right", toJson right)]
  | conditional test consequent alternate =>
    jsonObject .conditional
      [("test", toJson test), ("consequent", toJson consequent),
        ("alternate", toJson alternate)]
  | call callee arguments optional =>
    jsonObject .call
      [("callee", toJson callee), ("arguments", .array (jsonList arguments)),
        ("optional", .bool optional)]
  | construction callee arguments =>
    jsonObject .construction
      [("callee", toJson callee), ("arguments", .array (jsonList arguments))]
  | member owner key computed optional =>
    jsonObject .member
      [("object", toJson owner), ("property", toJson key), ("computed", .bool computed),
        ("optional", .bool optional)]
  | sequence expressions =>
    jsonObject .sequence [("expressions", .array (jsonList expressions))]
  | spread argument => jsonObject .spread [("argument", toJson argument)]
  | yielding argument delegate =>
    jsonObject .yielding [("argument", jsonOption argument), ("delegate", .bool delegate)]
  | awaiting argument => jsonObject .awaiting [("argument", toJson argument)]
  | objectPattern properties =>
    jsonObject .objectPattern [("properties", .array (jsonList properties))]
  | arrayPattern elements =>
    jsonObject .arrayPattern [("elements", .array (jsonHoles elements))]
  | defaulted left right =>
    jsonObject .defaulted [("left", toJson left), ("right", toJson right)]
  | rest argument => jsonObject .rest [("argument", toJson argument)]

/-- The JSON values of nodes. -/
def jsonList : List Node → List Json
  | [] => []
  | n :: ns => toJson n :: jsonList ns

/-- The JSON value of a child that may be missing. -/
def jsonOption : Option Node → Json
  | none => .null
  | some n => toJson n

/-- The JSON values of elements and holes. -/
def jsonHoles : List (Option Node) → List Json
  | [] => []
  | element :: elements => jsonOption element :: jsonHoles elements

end

end Node

end BindingProxy
