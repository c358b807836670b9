import BindingProxy.Grammar.Callable
import BindingProxy.Grammar.Target

/-!
# Expressions

Infix operators are read by their strength.  An arrow function is told from a parenthesised
expression by reading ahead for parameters and an arrow.
-/

namespace BindingProxy

namespace Grammar

open Parse

/-- One or more expressions with commas between them. -/
def expression (g : Grammar) (ctx : Context) : Parse Node := do
  let first ← g.assignment ctx
  unless ← isAt (.punctuator .comma) do return first
  let expressions ← repeatFrom [first] fun found => do
    if ← accept .comma then return .again ((← g.assignment ctx) :: found)
    else return .done found.reverse
  return .sequence expressions

/-- An expression, or `...` and an expression whose values take its place. -/
def spreadOrAssignment (g : Grammar) (ctx : Context) : Parse Node := do
  if ← accept .ellipsis then return .spread (← g.assignment ctx)
  else g.assignment ctx

/-- The arguments of a call in their parentheses. -/
def arguments (g : Grammar) (ctx : Context) : Parse (List Node) := do
  expect .openParen
  let ctx := ctx.allowIn
  let found ← repeatFrom [] fun found => do
    if ← isAt (.punctuator .closeParen) then return .done found.reverse
    let found := (← spreadOrAssignment g ctx) :: found
    if ← accept .comma then return .again found else return .done found.reverse
  expect .closeParen
  return found

/-! ### Literals -/

/-- A number or a big integer, told apart by its last character. -/
def numberLiteral : Parse Node := do
  let t ← token
  advance
  return .literal (if t.value.toList.getLast? = some 'n' then .bigInt else .number) t.value

/-- A template from its first part on. -/
def templateLiteral (g : Grammar) (ctx : Context) : Parse Node := do
  let head ← token
  if head.kind = .templateHead then
    let (quasis, expressions) ← repeatFrom ([head.value], []) fun (quasis, expressions) => do
      advance
      let expressions := (← expression g ctx.allowIn) :: expressions
      unless ← isAt (.punctuator .closeBrace) do reject (.expected "\x7d")
      rereadBrace
      let part ← token
      let quasis := part.value :: quasis
      if part.kind = .templateTail then return .done (quasis.reverse, expressions.reverse)
      else return .again (quasis, expressions)
    advance
    return .template quasis expressions
  else
    advance
    return .template [head.value] []

/-- An array literal. -/
def arrayLiteral (g : Grammar) (ctx : Context) : Parse Node := do
  expect .openBracket
  let ctx := ctx.allowIn
  let elements ← repeatFrom [] fun found => do
    if ← isAt (.punctuator .closeBracket) then return .done found.reverse
    if ← accept .comma then return .again (none :: found)
    let found := some (← spreadOrAssignment g ctx) :: found
    if ← accept .comma then return .again found else return .done found.reverse
  expect .closeBracket
  return .array elements

/-- A member whose key is also its value, with the default that it may have as part of a pattern. -/
def shorthandMember (g : Grammar) (ctx : Context) (name : String) : Parse Node := do
  let key := Node.identifier name
  if ← accept .assign then
    return .property key (.defaulted key (← g.assignment ctx)) .init false true false
  else
    return .property key key .init false true false

/-- A member of an object literal. -/
def objectMember (g : Grammar) (ctx : Context) : Parse Node := do
  if ← accept .ellipsis then return .spread (← g.assignment ctx)
  let m ← modifiers
  if let some w := m.accessor then
    let (key, computed) ← propertyKey g ctx
    let kind := if w = .kwGet then .get else .set
    return .property key (← methodFunction g false false) kind computed false false
  let keyIsName := (← kind).isName
  let (key, computed) ← propertyKey g ctx
  if m.isAsync || m.isGenerator || (← isAt (.punctuator .openParen)) then
    return .property key (← methodFunction g m.isAsync m.isGenerator) .init computed false true
  if ← accept .colon then
    return .property key (← g.assignment ctx) .init computed false false
  match key, keyIsName && !computed with
  | .identifier name, true => shorthandMember g ctx name
  | _, _ => reject (.expected ":")

/-- An object literal. -/
def objectLiteral (g : Grammar) (ctx : Context) : Parse Node := do
  expect .openBrace
  let ctx := ctx.allowIn
  let members ← repeatFrom [] fun found => do
    if ← isAt (.punctuator .closeBrace) then return .done found.reverse
    let found := (← objectMember g ctx) :: found
    if ← accept .comma then return .again found else return .done found.reverse
  expect .closeBrace
  return .object members

/-! ### Operands -/

/-- Whether `function` follows the current word on the same line. -/
def isFunctionAhead : Parse Bool := do
  let next ← peek
  return next.kind == .reserved .kwFunction && !next.afterLineBreak

/-- An expression in parentheses. -/
def parenthesized (g : Grammar) (ctx : Context) : Parse Node := do
  expect .openParen
  let inner ← expression g ctx.allowIn
  expect .closeParen
  return inner

/-- An expression that begins with its own token; `heritage` reads what a class extends. -/
def primaryWith (g : Grammar) (ctx : Context) (heritage : Parse Node) : Parse Node := do
  let t ← token
  match t.kind with
  | .contextual .kwAsync =>
    if ← isFunctionAhead then
      advance
      functionDefinition g .expression true
    else
      return .identifier (← name)
  | .identifier | .contextual _ => return .identifier (← name)
  | .number => numberLiteral
  | .string => literalToken .string
  | .reserved .kwNull => literalToken .null
  | .reserved .kwTrue | .reserved .kwFalse => literalToken .boolean
  | .punctuator .slash | .punctuator .slashAssign =>
    rereadSlash
    literalToken .regExp
  | .templateWhole | .templateHead => templateLiteral g ctx
  | .reserved .kwThis =>
    advance
    return .thisValue
  | .reserved .kwSuper =>
    advance
    return .superValue
  | .punctuator .openParen => parenthesized g ctx
  | .punctuator .openBracket => arrayLiteral g ctx
  | .punctuator .openBrace => objectLiteral g ctx
  | .reserved .kwFunction => functionDefinition g .expression false
  | .reserved .kwClass => classDefinition g ctx heritage .expression
  | _ => unexpected

/-- An index in its brackets, from the opening one on. -/
def index (g : Grammar) (ctx : Context) : Parse Node := do
  advance
  let key ← expression g ctx.allowIn
  expect .closeBracket
  return key

/-- The link after `?.`: a call, an index or a name. -/
def optionalLink (g : Grammar) (ctx : Context) (owner : Node) : Parse Node := do
  match ← kind with
  | .punctuator .openParen => return .call owner (← arguments g ctx) true
  | .punctuator .openBracket => return .member owner (← index g ctx) true true
  | _ => return .member owner (.identifier (← word)) false true

/-- The property, template or, where `calls` are allowed, call or optional link that may follow an
expression. -/
def link (g : Grammar) (ctx : Context) (calls : Bool) (owner : Node) :
    Parse (Turn Node Node) := do
  match ← kind, calls with
  | .punctuator .dot, _ =>
    advance
    return .again (.dot owner (← word))
  | .punctuator .openBracket, _ => return .again (.member owner (← index g ctx) true false)
  | .punctuator .questionDot, true =>
    advance
    return .again (← optionalLink g ctx owner)
  | .punctuator .openParen, true => return .again (.call owner (← arguments g ctx) false)
  | .templateWhole, _ | .templateHead, _ =>
    return .again (.taggedTemplate owner (← templateLiteral g ctx))
  | _, _ => return .done owner

/-- All the links that follow an expression. -/
def links (g : Grammar) (ctx : Context) (calls : Bool) (first : Node) : Parse Node :=
  repeatFrom first (link g ctx calls)

/-- An operand with all its links.  What a class extends is such an operand on the same level, so
the number of classes nested in this way is bounded by the text. -/
def leftHandSideWithin (g : Grammar) (ctx : Context) : List Char → Parse Node
  | [] => fun _ => .fail .stalled
  | _ :: bound => do
    let first ←
      if ← isAt (.reserved .kwNew) then g.construction ctx
      else primaryWith g ctx (leftHandSideWithin g ctx bound)
    links g ctx true first

/-- An operand with all its links. -/
def leftHandSide (g : Grammar) (ctx : Context) : Parse Node := fun c =>
  leftHandSideWithin g ctx (tokenBound c) c

theorem leftHandSide_apply (g : Grammar) (ctx : Context) (c : Cursor) :
    leftHandSide g ctx c = leftHandSideWithin g ctx (tokenBound c) c := rfl

/-- An expression that begins with its own token. -/
def primary (g : Grammar) (ctx : Context) : Parse Node :=
  primaryWith g ctx (leftHandSide g ctx)

/-- The property that follows `new.`. -/
def newTarget : Parse Node := do
  let property ← word
  unless property = "target" do reject (.expected "target")
  return .dot (.identifier "new") property

/-- A construction from the word `new` on.  Its callee takes no calls and no optional links. -/
def newExpression (g : Grammar) (ctx : Context) : Parse Node := do
  expectWord .kwNew
  if ← accept .dot then
    newTarget
  else
    let first ← if ← isAt (.reserved .kwNew) then g.construction ctx else primary g ctx
    let callee ← links g ctx false first
    let found ← if ← isAt (.punctuator .openParen) then arguments g ctx else pure []
    return .construction callee found

/-! ### Operators -/

/-- Refuses an operand that cannot be updated. -/
def checkPlace (operand : Node) : Parse Unit := do
  unless operand.isPlace do reject .invalidUpdateTarget

/-- An operand with the update that may follow it on the same line. -/
def operandWithUpdate (g : Grammar) (ctx : Context) : Parse Node := do
  let operand ← leftHandSide g ctx
  let t ← token
  match UpdateOperator.ofToken? t.kind, t.afterLineBreak with
  | some operator, false =>
    checkPlace operand
    advance
    return .update operator false operand
  | _, _ => return operand

/-- An operand with the operators before it. -/
def unaryExpression (g : Grammar) (ctx : Context) : Parse Node := do
  let k ← kind
  if let some operator := UnaryOperator.ofToken? k then
    advance
    return .unary operator (← g.unary ctx)
  if let some operator := UpdateOperator.ofToken? k then
    advance
    let operand ← g.unary ctx
    checkPlace operand
    return .update operator true operand
  if k = .contextual .kwAwait ∧ ctx.inAsync then
    advance
    return .awaiting (← g.unary ctx)
  operandWithUpdate g ctx

/-- The infix operator that a token stands for in a context. -/
def operatorAt? (ctx : Context) (k : TokenKind) : Option InfixOperator :=
  if k = .reserved .kwIn ∧ ctx.withoutIn then none else InfixOperator.ofToken? k

/-- An operator between its two operands. -/
def joinOperands (operator : InfixOperator) (left right : Node) : Node :=
  match operator with
  | .binary operator => .binary operator left right
  | .logical operator => .logical operator left right

/-- The strength up to which operators end the right operand of an operator. -/
def rightLimit (operator : InfixOperator) : Nat :=
  if operator.isRightGrouping then operator.strength - 1 else operator.strength

/-- The infix operator that may follow a left operand, if it is stronger than `limit`, with its
right operand. -/
def joinNext (g : Grammar) (limit : Nat) (ctx : Context) (left : Node) :
    Parse (Turn Node Node) := do
  match operatorAt? ctx (← kind) with
  | none => return .done left
  | some operator =>
    if operator.strength ≤ limit then return .done left
    advance
    return .again (joinOperands operator left (← g.operand (rightLimit operator) ctx))

/-- Operands with infix operators between them that are stronger than `limit`. -/
def binaryExpression (g : Grammar) (limit : Nat) (ctx : Context) : Parse Node := do
  let first ← g.unary ctx
  repeatFrom first (joinNext g limit ctx)

/-- Infix operators with the conditional that may follow them. -/
def conditionalExpression (g : Grammar) (ctx : Context) : Parse Node := do
  let test ← binaryExpression g 0 ctx
  if ← accept .question then
    let consequent ← g.assignment ctx.allowIn
    expect .colon
    return .conditional test consequent (← g.assignment ctx)
  else
    return test

/-! ### Arrow functions -/

/-- Whether parameters and an arrow on the same line begin here. -/
def isArrowAhead (g : Grammar) (ctx : Context) : Parse Bool := do
  let k ← kind
  if k.isName then
    let next ← peek
    return next.kind == .punctuator .arrow && !next.afterLineBreak
  else if k = .punctuator .openParen then
    lookAhead do
      let _ ← parameters g ctx
      let t ← token
      return t.kind == .punctuator .arrow && !t.afterLineBreak
  else
    return false

/-- Whether `async` stands here and an arrow function follows it on the same line. -/
def isAsyncArrowAhead (g : Grammar) (ctx : Context) : Parse Bool := do
  if ← isAt (.contextual .kwAsync) then
    lookAhead do
      advance
      if ← afterLineBreak then return false
      isArrowAhead g ctx
  else
    return false

/-- The parameters of an arrow function: one name, or a list in parentheses. -/
def arrowParameters (g : Grammar) (ctx : Context) : Parse (List Node) := do
  if (← kind).isName then return [.identifier (← name)]
  else parameters g ctx

/-- An arrow function from its parameters on. -/
def arrowFunction (g : Grammar) (ctx : Context) (isAsync : Bool) : Parse Node := do
  let params ← arrowParameters g ctx
  if ← afterLineBreak then reject .lineBreakBeforeArrow
  expect .arrow
  let inner := ctx.ofArrow isAsync
  if ← isAt (.punctuator .openBrace) then
    return .arrow params (← block g inner.allowIn) false isAsync
  else
    return .arrow params (← g.assignment inner) true isAsync

/-- The arrow function that begins here, if one does. -/
def arrowFunction? (g : Grammar) (ctx : Context) : Parse (Option Node) := do
  if ← isAsyncArrowAhead g ctx then
    advance
    return some (← arrowFunction g ctx true)
  else if ← isArrowAhead g ctx then
    return some (← arrowFunction g ctx false)
  else
    return none

/-! ### Assignments -/

/-- Whether the current token can begin the operand of `yield`. -/
def canYield : TokenKind → Bool
  | .punctuator .closeParen | .punctuator .closeBracket | .punctuator .closeBrace
  | .punctuator .comma | .punctuator .semicolon | .punctuator .colon | .endOfText => false
  | _ => true

/-- A `yield` with its operand, which it may lack. -/
def yielding (g : Grammar) (ctx : Context) : Parse Node := do
  advance
  let t ← token
  if t.afterLineBreak || !canYield t.kind then
    return .yielding none false
  else
    let delegate ← accept .star
    return .yielding (some (← g.assignment ctx)) delegate

/-- The left side of an assignment.  Only the plain `=` takes patterns. -/
def assignmentTarget (operator : AssignmentOperator) (left : Node) : Except SyntaxCause Node :=
  if operator = .assign then left.toTarget
  else if left.isPlace then .ok left
  else .error .invalidCompoundTarget

/-- A conditional with the assignment that may follow it. -/
def conditionalOrAssignment (g : Grammar) (ctx : Context) : Parse Node := do
  let left ← conditionalExpression g ctx
  match AssignmentOperator.ofToken? (← kind) with
  | none => return left
  | some operator =>
    match assignmentTarget operator left with
    | .error cause => reject cause
    | .ok target =>
      advance
      return .assignment operator target (← g.assignment ctx)

/-- An expression without commas. -/
def assignmentExpression (g : Grammar) (ctx : Context) : Parse Node := do
  if (← isAt (.contextual .kwYield)) && ctx.inGenerator then
    yielding g ctx
  else
    match ← arrowFunction? g ctx with
    | some arrow => return arrow
    | none => conditionalOrAssignment g ctx

end Grammar

end BindingProxy
