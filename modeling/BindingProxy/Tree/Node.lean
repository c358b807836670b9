import BindingProxy.Tree.Operator

/-!
# Syntax trees

One type holds all nodes of a script, statements and expressions alike, so that a tree may be
assembled in ways that no script has; which trees are well formed is a matter of its own.  The kinds
are those of the ESTree format.
-/

namespace BindingProxy

/-- How far a declared variable reaches and whether it can change. -/
inductive VariableKind where
  | functionScoped | blockScoped | constant
deriving Repr, DecidableEq, Inhabited

/-- The word that declares a variable of the kind. -/
def VariableKind.word : VariableKind → String
  | functionScoped => "var" | blockScoped => "let" | constant => "const"

/-- The type of a literal. -/
inductive LiteralKind where
  | null | boolean | number | bigInt | string | regExp
deriving Repr, DecidableEq, Inhabited

/-- Whether a member of an object literal is a value or an accessor. -/
inductive PropertyKind where
  | init | get | set
deriving Repr, DecidableEq, Inhabited

/-- The part that a method plays in its class. -/
inductive MethodKind where
  | constructor | method | get | set
deriving Repr, DecidableEq, Inhabited

/-- Whether a function or a class stands as a statement or as a value. -/
inductive Role where
  | declaration | expression
deriving Repr, DecidableEq, Inhabited

/-- What a loop over a value runs through. -/
inductive Iteration where
  | keys | values
deriving Repr, DecidableEq, Inhabited

/-- The word between the two sides of the head of such a loop. -/
def Iteration.word : Iteration → String
  | keys => "in" | values => "of"

/-- A statement that leaves a loop or goes to its next turn. -/
inductive Jump where
  | leave | repeat
deriving Repr, DecidableEq, Inhabited

/-- The word of a jump. -/
def Jump.word : Jump → String
  | leave => "break" | .repeat => "continue"

/-- A node of a syntax tree. -/
inductive Node where
  | program (body : List Node)
  | expressionStatement (expression : Node)
  | block (body : List Node)
  | empty
  | debugger
  | returning (argument : Option Node)
  | conditionalStatement (test consequent : Node) (alternate : Option Node)
  | whileLoop (test body : Node)
  | doWhileLoop (body test : Node)
  | forLoop (init test step : Option Node) (body : Node)
  | forEach (iteration : Iteration) (left right body : Node)
  | jump (kind : Jump) (label : Option String)
  | throwing (argument : Node)
  | guarded (body : Node) (recovery finalizer : Option Node)
  | handler (param : Option Node) (body : Node)
  | switch (discriminant : Node) (cases : List Node)
  /-- A branch of a switch; the default one has no test. -/
  | switchCase (test : Option Node) (consequent : List Node)
  | labeled (label : String) (body : Node)
  | declaration (kind : VariableKind) (declarators : List Node)
  | declarator (id : Node) (init : Option Node)
  | function (role : Role) (id : Option String) (params : List Node) (body : Node)
      (isAsync isGenerator : Bool)
  | classDefinition (role : Role) (id : Option String) (superClass : Option Node)
      (body : List Node)
  | identifier (name : String)
  /-- A literal with its exact spelling, quotes included. -/
  | literal (kind : LiteralKind) (raw : String)
  /-- A template: the texts around its substitutions, without delimiters. -/
  | template (quasis : List String) (expressions : List Node)
  | taggedTemplate (tag quasi : Node)
  | thisValue
  | superValue
  /-- An array literal; a missing element is a hole. -/
  | array (elements : List (Option Node))
  | object (properties : List Node)
  | property (key value : Node) (kind : PropertyKind) (computed shorthand isMethod : Bool)
  /-- An arrow function; its body is an expression when it is concise. -/
  | arrow (params : List Node) (body : Node) (concise isAsync : Bool)
  | method (key value : Node) (kind : MethodKind) (computed isStatic : Bool)
  | unary (operator : UnaryOperator) (argument : Node)
  /-- An update, before (`leading`) or after its operand. -/
  | update (operator : UpdateOperator) (leading : Bool) (argument : Node)
  | binary (operator : BinaryOperator) (left right : Node)
  | logical (operator : LogicalOperator) (left right : Node)
  | assignment (operator : AssignmentOperator) (left right : Node)
  | conditional (test consequent alternate : Node)
  | call (callee : Node) (arguments : List Node) (optional : Bool)
  | construction (callee : Node) (arguments : List Node)
  | member (owner key : Node) (computed optional : Bool)
  | sequence (expressions : List Node)
  | spread (argument : Node)
  | yielding (argument : Option Node) (delegate : Bool)
  | awaiting (argument : Node)
  | objectPattern (properties : List Node)
  | arrayPattern (elements : List (Option Node))
  /-- A target with the value that it takes when none is given. -/
  | defaulted (left right : Node)
  | rest (argument : Node)
deriving Inhabited

/-- The kind of a node. -/
inductive NodeKind where
  | program | expressionStatement | block | empty | debugger | returning | conditionalStatement
  | whileLoop | doWhileLoop | forLoop | forIn | forOf | breaking | continuing | throwing | guarded
  | handler | switch | switchCase | labeled | declaration | declarator
  | functionDeclaration | classDeclaration
  | identifier | literal | template | taggedTemplate | thisValue | superValue | array | object
  | property | functionExpression | arrow | classExpression | method
  | unary | update | binary | logical | assignment | conditional | call | construction | member
  | sequence | spread | yielding | awaiting
  | objectPattern | arrayPattern | defaulted | rest
deriving Repr, DecidableEq, Inhabited

namespace NodeKind

/-- The name of a kind in the ESTree format. -/
def name : NodeKind → String
  | program => "Program"
  | expressionStatement => "ExpressionStatement"
  | block => "BlockStatement"
  | empty => "EmptyStatement"
  | debugger => "DebuggerStatement"
  | returning => "ReturnStatement"
  | conditionalStatement => "IfStatement"
  | whileLoop => "WhileStatement"
  | doWhileLoop => "DoWhileStatement"
  | forLoop => "ForStatement"
  | forIn => "ForInStatement"
  | forOf => "ForOfStatement"
  | breaking => "BreakStatement"
  | continuing => "ContinueStatement"
  | throwing => "ThrowStatement"
  | guarded => "TryStatement"
  | handler => "CatchClause"
  | switch => "SwitchStatement"
  | switchCase => "SwitchCase"
  | labeled => "LabeledStatement"
  | declaration => "VariableDeclaration"
  | declarator => "VariableDeclarator"
  | functionDeclaration => "FunctionDeclaration"
  | classDeclaration => "ClassDeclaration"
  | identifier => "Identifier"
  | literal => "Literal"
  | template => "TemplateLiteral"
  | taggedTemplate => "TaggedTemplateExpression"
  | thisValue => "ThisExpression"
  | superValue => "Super"
  | array => "ArrayExpression"
  | object => "ObjectExpression"
  | property => "Property"
  | functionExpression => "FunctionExpression"
  | arrow => "ArrowFunctionExpression"
  | classExpression => "ClassExpression"
  | method => "MethodDefinition"
  | unary => "UnaryExpression"
  | update => "UpdateExpression"
  | binary => "BinaryExpression"
  | logical => "LogicalExpression"
  | assignment => "AssignmentExpression"
  | conditional => "ConditionalExpression"
  | call => "CallExpression"
  | construction => "NewExpression"
  | member => "MemberExpression"
  | sequence => "SequenceExpression"
  | spread => "SpreadElement"
  | yielding => "YieldExpression"
  | awaiting => "AwaitExpression"
  | objectPattern => "ObjectPattern"
  | arrayPattern => "ArrayPattern"
  | defaulted => "AssignmentPattern"
  | rest => "RestElement"

/-- All kinds. -/
def all : List NodeKind :=
  [program, expressionStatement, block, empty, debugger, returning, conditionalStatement, whileLoop,
    doWhileLoop, forLoop, forIn, forOf, breaking, continuing, throwing, guarded, handler, switch,
    switchCase, labeled, declaration, declarator, functionDeclaration, classDeclaration, identifier,
    literal, template, taggedTemplate, thisValue, superValue, array, object, property,
    functionExpression, arrow, classExpression, method, unary, update, binary, logical, assignment,
    conditional, call, construction, member, sequence, spread, yielding, awaiting, objectPattern,
    arrayPattern, defaulted, rest]

/-- The kind of a name. -/
def ofName? (name : String) : Option NodeKind := all.find? (·.name == name)

theorem mem_all (k : NodeKind) : k ∈ all := by cases k <;> decide

end NodeKind

namespace Node

/-- The kind of a node. -/
def kind : Node → NodeKind
  | program _ => .program
  | expressionStatement _ => .expressionStatement
  | block _ => .block
  | empty => .empty
  | debugger => .debugger
  | returning _ => .returning
  | conditionalStatement _ _ _ => .conditionalStatement
  | whileLoop _ _ => .whileLoop
  | doWhileLoop _ _ => .doWhileLoop
  | forLoop _ _ _ _ => .forLoop
  | forEach .keys _ _ _ => .forIn
  | forEach .values _ _ _ => .forOf
  | jump .leave _ => .breaking
  | jump .repeat _ => .continuing
  | throwing _ => .throwing
  | guarded _ _ _ => .guarded
  | handler _ _ => .handler
  | switch _ _ => .switch
  | switchCase _ _ => .switchCase
  | labeled _ _ => .labeled
  | declaration _ _ => .declaration
  | declarator _ _ => .declarator
  | function .declaration _ _ _ _ _ => .functionDeclaration
  | function .expression _ _ _ _ _ => .functionExpression
  | classDefinition .declaration _ _ _ => .classDeclaration
  | classDefinition .expression _ _ _ => .classExpression
  | identifier _ => .identifier
  | literal _ _ => .literal
  | template _ _ => .template
  | taggedTemplate _ _ => .taggedTemplate
  | thisValue => .thisValue
  | superValue => .superValue
  | array _ => .array
  | object _ => .object
  | property _ _ _ _ _ _ => .property
  | arrow _ _ _ _ => .arrow
  | method _ _ _ _ _ => .method
  | unary _ _ => .unary
  | update _ _ _ => .update
  | binary _ _ _ => .binary
  | logical _ _ _ => .logical
  | assignment _ _ _ => .assignment
  | conditional _ _ _ => .conditional
  | call _ _ _ => .call
  | construction _ _ => .construction
  | member _ _ _ _ => .member
  | sequence _ => .sequence
  | spread _ => .spread
  | yielding _ _ => .yielding
  | awaiting _ => .awaiting
  | objectPattern _ => .objectPattern
  | arrayPattern _ => .arrayPattern
  | defaulted _ _ => .defaulted
  | rest _ => .rest

/-- The name of a plain identifier. -/
def name? : Node → Option String
  | identifier name => some name
  | _ => none

/-- A function or an arrow function that stands as a value. -/
def isFunctionValue : Node → Bool
  | function .expression _ _ _ _ _ => true
  | arrow _ _ _ _ => true
  | _ => false

/-- A node that an update or a compound assignment can change: a plain name or a property that is
not reached through an optional link. -/
def isPlace : Node → Bool
  | identifier _ => true
  | member _ _ _ optional => !optional
  | _ => false

/-- The access `owner.key`. -/
def dot (owner : Node) (key : String) : Node :=
  member owner (identifier key) false false

/-- The declaration of one name. -/
def declare (kind : VariableKind) (name : String) (init : Option Node) : Node :=
  declaration kind [declarator (identifier name) init]

end Node

end BindingProxy
