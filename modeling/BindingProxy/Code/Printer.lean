import BindingProxy.Code.Binding
import BindingProxy.Code.Buffer

/-!
# Code of a tree

The steps that write a node.  Every statement has a line of its own, blocks, class bodies and object
literals that are not empty span several lines, and the body of a branch or loop follows its head on
the same line.  Any tree has code, also one that no script has: a node is written by its own rule
wherever it stands.
-/

namespace BindingProxy

/-! ### Pieces of layout -/

/-- The steps in parentheses. -/
def inParens (steps : List CodeStep) : List CodeStep :=
  .text "(" :: steps ++ [.text ")"]

/-- The steps, in parentheses if a condition holds. -/
def inParensIf (condition : Bool) (steps : List CodeStep) : List CodeStep :=
  if condition then inParens steps else steps

/-- Items with commas between them. -/
def commaSeparated : List (List CodeStep) → List CodeStep
  | [] => []
  | [item] => item
  | item :: items => item ++ .text ", " :: commaSeparated items

/-- Items with commas between them, in parentheses. -/
def listInParens (items : List (List CodeStep)) : List CodeStep :=
  inParens (commaSeparated items)

/-- A line of its own for every item. -/
def indentedLines (items : List (List CodeStep)) : List CodeStep :=
  items.flatMap fun item => .indent :: item ++ [.newLine]

/-- Items on lines of their own in braces, which touch when there are none. -/
def inBraces (items : List (List CodeStep)) : List CodeStep :=
  if items.isEmpty then [.text "\x7b", .text "\x7d"]
  else
    [CodeStep.text "\x7b", .newLine, .deeper] ++ indentedLines items ++
      [CodeStep.shallower, .indent, .text "\x7d"]

/-- Lines with commas between them. -/
def commaLines : List (List CodeStep) → List CodeStep
  | [] => []
  | [item] => .indent :: item
  | item :: items => .indent :: item ++ [.text ",", .newLine] ++ commaLines items

/-- The members of an object literal in braces. -/
def objectBody (members : List (List CodeStep)) : List CodeStep :=
  if members.isEmpty then [.text "\x7b\x7d"]
  else
    [CodeStep.text "\x7b", .newLine, .deeper] ++ commaLines members ++
      [CodeStep.newLine, .shallower, .indent, .text "\x7d"]

/-- The elements of an array in brackets.  A hole in the last place needs a comma of its own. -/
def arrayBody (elements : List (Option Node)) (items : List (List CodeStep)) : List CodeStep :=
  let trailing :=
    match elements.getLast? with
    | some none => [CodeStep.text ", "]
    | _ => []
  CodeStep.text "[" :: commaSeparated items ++ trailing ++ [CodeStep.text "]"]

/-- A template without its backticks: each text with the substitution after it, and the text after
the last substitution. -/
def templateBody : List String → List (List CodeStep) → List CodeStep
  | quasi :: quasis, expression :: expressions =>
    .text quasi :: .text "$\x7b" :: expression ++ .text "\x7d" :: templateBody quasis expressions
  | quasi :: _, [] => [.text quasi]
  | [], _ => []

/-- A key, in brackets if it is computed. -/
def keySteps (computed : Bool) (key : List CodeStep) : List CodeStep :=
  if computed then .text "[" :: key ++ [.text "]"] else key

/-- A declaration without its semicolon. -/
def declarationSteps (kind : VariableKind) (declarators : List (List CodeStep)) : List CodeStep :=
  .text kind.word :: .text " " :: commaSeparated declarators

/-- A function after the word `async`. -/
def functionSteps (id : Option String) (isAsync isGenerator : Bool) (params : List (List CodeStep))
    (body : List CodeStep) : List CodeStep :=
  (if isAsync then [CodeStep.text "async "] else []) ++
    CodeStep.text (if isGenerator then "function* " else "function ") ::
      (match id with
        | some name => [CodeStep.text name]
        | none => []) ++
    listInParens params ++ CodeStep.text " " :: body

/-- A class; `superClass` is what follows `extends`. -/
def classSteps (id : Option String) (superClass : Option (List CodeStep))
    (body : List (List CodeStep)) : List CodeStep :=
  CodeStep.text "class " ::
    (match id with
      | some name => [CodeStep.text name, .text " "]
      | none => []) ++
    (match superClass with
      | some steps => CodeStep.text "extends " :: steps ++ [CodeStep.text " "]
      | none => []) ++
    inBraces body

/-- A method from its key on, with the marks of async functions and generators before it. -/
def methodSteps (isAsync isGenerator : Bool) (key : List CodeStep) (params : List (List CodeStep))
    (body : List CodeStep) : List CodeStep :=
  (if isAsync then [CodeStep.text "async "] else []) ++
    (if isGenerator then [CodeStep.text "*"] else []) ++ key ++
    listInParens params ++ CodeStep.text " " :: body

/-- The words before a method. -/
def methodWords (kind : MethodKind) (isStatic : Bool) : List CodeStep :=
  (if isStatic then [CodeStep.text "static "] else []) ++
    (match kind with
      | .get => [CodeStep.text "get "]
      | .set => [CodeStep.text "set "]
      | .constructor | .method => [])

/-- The kind of method that a member of an object literal is written as. -/
def PropertyKind.methodKind : PropertyKind → MethodKind
  | init => .method | get => .get | set => .set

/-- An expression that may be missing, after a space. -/
def afterSpace : Option (List CodeStep) → List CodeStep
  | none => []
  | some steps => .text " " :: steps

/-- A label that may be missing, after a space. -/
def labelSteps : Option String → List CodeStep
  | none => []
  | some label => [.text " ", .text label]

/-- A unary operator before its operand.  A word is followed by a space, and so is a sign before the
same sign. -/
def unarySteps (operator : UnaryOperator) (operand : Node) (parens : Bool) (steps : List CodeStep) :
    List CodeStep :=
  CodeStep.text operator.text ::
    (if operator.isWord || (!parens && repeatsSign operator operand) then [CodeStep.text " "]
      else []) ++
      inParensIf parens steps

/-- An infix operator between its operands. -/
def infixSteps (left : List CodeStep) (operator : String) (right : List CodeStep) : List CodeStep :=
  left ++ .text " " :: .text operator :: .text " " :: right

/-! ### Nodes -/

namespace Node

mutual

/-- The steps that write a node. -/
def steps : Node → List CodeStep
  | .program body => indentedLines (stepsEach body)
  | .expressionStatement e => inParensIf e.needsParensAsStatement (steps e) ++ [.text ";"]
  | .block body => inBraces (stepsEach body)
  | .empty => [.text ";"]
  | .debugger => [.text "debugger;"]
  | .returning argument => .text "return" :: afterSpace (stepsOption argument) ++ [.text ";"]
  | .conditionalStatement test consequent alternate =>
    .text "if (" :: steps test ++ .text ") " :: steps consequent ++
      (match stepsOption alternate with
        | some alternate => .text " else " :: alternate
        | none => [])
  | .whileLoop test body => .text "while (" :: steps test ++ .text ") " :: steps body
  | .doWhileLoop body test =>
    .text "do " :: steps body ++ .text " while (" :: steps test ++ [.text ");"]
  | .forLoop init test step body =>
    .text "for (" ::
      (match init with
        | some (.declaration kind declarators) => declarationSteps kind (stepsEach declarators)
        | some init => steps init
        | none => []) ++
      .text "; " :: (stepsOption test).getD [] ++ .text "; " :: (stepsOption step).getD [] ++
      .text ") " :: steps body
  | .forEach iteration left right body =>
    .text "for (" ::
      (match left with
        | .declaration kind declarators => declarationSteps kind (stepsEach declarators)
        | left => steps left) ++
      .text " " :: .text iteration.word :: .text " " :: steps right ++ .text ") " :: steps body
  | .jump kind label => .text kind.word :: labelSteps label ++ [.text ";"]
  | .throwing argument => .text "throw " :: steps argument ++ [.text ";"]
  | .guarded body recovery finalizer =>
    .text "try " :: steps body ++ (stepsOption recovery).getD [] ++
      (match stepsOption finalizer with
        | some finalizer => .text " finally " :: finalizer
        | none => [])
  | .handler param body =>
    (match stepsOption param with
      | some param => .text " catch (" :: param ++ [.text ") "]
      | none => [.text " catch "]) ++
      steps body
  | .switch discriminant cases =>
    .text "switch (" :: steps discriminant ++ [.text ") \x7b", .newLine, .deeper] ++
      (stepsEach cases).flatMap (.indent :: ·) ++ [.shallower, .indent, .text "\x7d"]
  | .switchCase test consequent =>
    (match stepsOption test with
      | some test => .text "case " :: test ++ [.text ":"]
      | none => [.text "default:"]) ++
      [.newLine, .deeper] ++ indentedLines (stepsEach consequent) ++ [.shallower]
  | .labeled label body => .text label :: .text ": " :: steps body
  | .declaration kind declarators => declarationSteps kind (stepsEach declarators) ++ [.text ";"]
  | .declarator id init =>
    steps id ++
      (match stepsOption init with
        | some init => .text " = " :: init
        | none => [])
  | .function _ id params body isAsync isGenerator =>
    functionSteps id isAsync isGenerator (stepsEach params) (steps body)
  | .classDefinition _ id superClass body =>
    classSteps id
      (match superClass with
        | some parent => some (inParensIf parent.needsParensAsSuperclass (steps parent))
        | none => none)
      (stepsEach body)
  | .identifier name => [.text name]
  | .literal _ raw => [.text raw]
  | .template quasis expressions =>
    .text "`" :: templateBody quasis (stepsEach expressions) ++ [.text "`"]
  | .taggedTemplate tag quasi => inParensIf tag.needsParensAsOwner (steps tag) ++ steps quasi
  | .thisValue => [.text "this"]
  | .superValue => [.text "super"]
  | .array elements => arrayBody elements (stepsHoles elements)
  | .object properties => objectBody (stepsEach properties)
  | .property key value kind computed shorthand isMethod =>
    if isMethod || kind != .init then
      methodWords kind.methodKind false ++
        (match value with
          | .function .expression _ params body isAsync isGenerator =>
            methodSteps isAsync isGenerator (keySteps computed (steps key)) (stepsEach params)
              (steps body)
          | value => keySteps computed (steps key) ++ .text ": " :: steps value)
    else if shorthand then steps value
    else keySteps computed (steps key) ++ .text ": " :: steps value
  | .arrow params body _ isAsync =>
    (if isAsync then [.text "async "] else []) ++
      (match params with
        | [.identifier name] => [.text name]
        | params => listInParens (stepsEach params)) ++
      .text " => " ::
        (match body with
          | .object properties => inParens (objectBody (stepsEach properties))
          | body => steps body)
  | .method key value kind computed isStatic =>
    methodWords kind isStatic ++
      (match value with
        | .function .expression _ params body isAsync isGenerator =>
          methodSteps isAsync isGenerator (keySteps computed (steps key)) (stepsEach params)
            (steps body)
        | value => keySteps computed (steps key) ++ .text ": " :: steps value)
  | .unary operator argument =>
    unarySteps operator argument (argument.needsParens (.unary operator argument) .left)
      (steps argument)
  | .update operator leading argument =>
    if leading then .text operator.text :: steps argument
    else steps argument ++ [.text operator.text]
  | .binary operator left right =>
    let parent := Node.binary operator left right
    -- An `in` always has parentheses, so that it cannot be taken for that of a loop.
    inParensIf (operator == .isIn)
      (infixSteps (inParensIf (left.needsParens parent .left) (steps left)) operator.text
        (inParensIf (right.needsParens parent .right) (steps right)))
  | .logical operator left right =>
    let parent := Node.logical operator left right
    infixSteps (inParensIf (left.needsParens parent .left) (steps left)) operator.text
      (inParensIf (right.needsParens parent .right) (steps right))
  | .assignment operator left right => infixSteps (steps left) operator.text (steps right)
  | .defaulted left right => infixSteps (steps left) "=" (steps right)
  | .conditional test consequent alternate =>
    inParensIf test.needsParensAsTest (steps test) ++ .text " ? " :: steps consequent ++
      .text " : " :: steps alternate
  | .call callee arguments optional =>
    inParensIf callee.needsParensAsOwner (steps callee) ++
      (if optional then [.text "?."] else []) ++ listInParens (stepsEach arguments)
  | .construction callee arguments =>
    .text "new " ::
      inParensIf (callee.needsParensAsOwner || callee.hasCallOnSpine) (steps callee) ++
      listInParens (stepsEach arguments)
  | .member owner key computed optional =>
    inParensIf owner.needsParensAsOwner (steps owner) ++
      (if computed then
        (if optional then [.text "?."] else []) ++ .text "[" :: steps key ++ [.text "]"]
      else
        .text (if optional then "?." else ".") :: steps key)
  | .sequence expressions => listInParens (stepsEach expressions)
  | .spread argument | .rest argument => .text "..." :: steps argument
  | .yielding argument delegate =>
    .text (if delegate then "yield*" else "yield") :: afterSpace (stepsOption argument)
  | .awaiting argument =>
    .text "await " ::
      inParensIf (argument.needsParens (.awaiting argument) .left) (steps argument)
  | .objectPattern properties =>
    .text "\x7b" :: commaSeparated (stepsEach properties) ++ [.text "\x7d"]
  | .arrayPattern elements => arrayBody elements (stepsHoles elements)

/-- The steps of each node. -/
def stepsEach : List Node → List (List CodeStep)
  | [] => []
  | n :: ns => steps n :: stepsEach ns

/-- The steps of a node that may be missing. -/
def stepsOption : Option Node → Option (List CodeStep)
  | none => none
  | some n => some (steps n)

/-- The steps of each element; a hole has none. -/
def stepsHoles : List (Option Node) → List (List CodeStep)
  | [] => []
  | none :: elements => [] :: stepsHoles elements
  | some n :: elements => steps n :: stepsHoles elements

end

/-- The code of a node. -/
def code (layout : Layout) (n : Node) : String := layout.render n.steps

end Node

end BindingProxy
