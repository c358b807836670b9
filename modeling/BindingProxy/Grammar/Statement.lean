import BindingProxy.Grammar.Expression

/-!
# Statements
-/

namespace BindingProxy

namespace Grammar

open Parse

/-! ### Declarations -/

/-- The kind of variables that the current word declares. -/
def variableKind? : TokenKind → Option VariableKind
  | .reserved .kwVar => some .functionScoped
  | .contextual .kwLet => some .blockScoped
  | .reserved .kwConst => some .constant
  | _ => none

/-- A declared target with the value that it may start with. -/
def declarator (g : Grammar) (ctx : Context) : Parse Node := do
  let id ← g.target ctx
  if ← accept .assign then return .declarator id (some (← g.assignment ctx))
  else return .declarator id none

/-- A declaration without its end, from the word that declares on. -/
def declaration (g : Grammar) (ctx : Context) : Parse Node := do
  match variableKind? (← kind) with
  | none => unexpected
  | some variableKind =>
    advance
    let declarators ← repeatFrom [] fun found => do
      let found := (← declarator g ctx) :: found
      if ← accept .comma then return .again found else return .done found.reverse
    return .declaration variableKind declarators

/-- Whether `let` declares here: a target follows it. -/
def isLetDeclaration : Parse Bool := do
  let next ← peek
  return next.kind.isName || next.kind == .punctuator .openBracket ||
    next.kind == .punctuator .openBrace

/-- Whether the current token begins a declaration of variables. -/
def isDeclaration : Parse Bool := do
  match ← kind with
  | .reserved .kwVar | .reserved .kwConst => return true
  | .contextual .kwLet => isLetDeclaration
  | _ => return false

/-- A declaration as a statement. -/
def variableStatement (g : Grammar) (ctx : Context) : Parse Node := do
  let declared ← declaration g ctx
  endStatement
  return declared

/-! ### Branches and loops -/

/-- A conditional statement from the word `if` on. -/
def ifStatement (g : Grammar) (ctx : Context) : Parse Node := do
  advance
  let test ← parenthesized g ctx
  let consequent ← g.statement ctx
  if ← acceptWord .kwElse then
    return .conditionalStatement test consequent (some (← g.statement ctx))
  else
    return .conditionalStatement test consequent none

/-- A loop from the word `while` on. -/
def whileStatement (g : Grammar) (ctx : Context) : Parse Node := do
  advance
  let test ← parenthesized g ctx
  return .whileLoop test (← g.statement ctx)

/-- A loop from the word `do` on.  The semicolon after it may always be left out. -/
def doStatement (g : Grammar) (ctx : Context) : Parse Node := do
  advance
  let body ← g.statement ctx
  expectWord .kwWhile
  let test ← parenthesized g ctx
  let _ ← accept .semicolon
  return .doWhileLoop body test

/-- The first part of a `for` head, which may be missing. -/
def forInit (g : Grammar) (ctx : Context) : Parse (Option Node) := do
  if ← isAt (.punctuator .semicolon) then return none
  else if ← isDeclaration then return some (← declaration g ctx.disallowIn)
  else return some (← expression g ctx.disallowIn)

/-- The left side of a loop over a value: one declared target without a value, or a target. -/
def loopTarget : Node → Except SyntaxCause Node
  | .declaration kind [.declarator id none] => .ok (.declaration kind [.declarator id none])
  | .declaration _ _ => .error .invalidLoopDeclaration
  | left => left.toTarget

/-- What the loop runs through, by the word that separates its sides. -/
def iteration? : TokenKind → Option Iteration
  | .reserved .kwIn => some .keys
  | .contextual .kwOf => some .values
  | _ => none

/-- The rest of a loop over a value, from the word that separates its sides on. -/
def forEachRest (g : Grammar) (ctx : Context) (iteration : Iteration) (left : Node) :
    Parse Node := do
  match loopTarget left with
  | .error cause => reject cause
  | .ok target =>
    advance
    let right ←
      match iteration with
      | .values => g.assignment ctx.allowIn
      | .keys => expression g ctx.allowIn
    expect .closeParen
    return .forEach iteration target right (← g.statement ctx)

/-- An expression that may be missing before the given punctuator. -/
def expressionBefore (g : Grammar) (ctx : Context) (p : Punctuator) : Parse (Option Node) := do
  if ← isAt (.punctuator p) then return none
  else return some (← expression g ctx.allowIn)

/-- The rest of a loop with a head in three parts, from the first semicolon on. -/
def forRest (g : Grammar) (ctx : Context) (init : Option Node) : Parse Node := do
  expect .semicolon
  let test ← expressionBefore g ctx .semicolon
  expect .semicolon
  let step ← expressionBefore g ctx .closeParen
  expect .closeParen
  return .forLoop init test step (← g.statement ctx)

/-- A loop from the word `for` on. -/
def forStatement (g : Grammar) (ctx : Context) : Parse Node := do
  advance
  expect .openParen
  let init ← forInit g ctx
  match init, iteration? (← kind) with
  | some left, some iteration => forEachRest g ctx iteration left
  | _, _ => forRest g ctx init

/-- The statements of a branch, up to the next branch or the end of the switch. -/
def branchBody (g : Grammar) (ctx : Context) : Parse (List Node) :=
  repeatFrom [] fun found => do
    match ← kind with
    | .reserved .kwCase | .reserved .kwDefault | .punctuator .closeBrace | .endOfText =>
      return .done found.reverse
    | _ => return .again ((← g.statement ctx) :: found)

/-- The test of a branch; the default branch has none. -/
def branchTest (g : Grammar) (ctx : Context) : Parse (Option Node) := do
  if ← acceptWord .kwCase then return some (← expression g ctx.allowIn)
  else if ← acceptWord .kwDefault then return none
  else reject .caseExpected

/-- A switch from its word on. -/
def switchStatement (g : Grammar) (ctx : Context) : Parse Node := do
  advance
  let discriminant ← parenthesized g ctx
  expect .openBrace
  let cases ← repeatFrom [] fun found => do
    if ← isAt (.punctuator .closeBrace) then return .done found.reverse
    let test ← branchTest g ctx
    expect .colon
    return .again (.switchCase test (← branchBody g ctx) :: found)
  advance
  return .switch discriminant cases

/-! ### Other statements -/

/-- An expression as a statement. -/
def expressionStatement (g : Grammar) (ctx : Context) : Parse Node := do
  let e ← expression g ctx.allowIn
  endStatement
  return .expressionStatement e

/-- A return from its word on. -/
def returnStatement (g : Grammar) (ctx : Context) : Parse Node := do
  advance
  let argument ← if ← canEnd then pure none else some <$> expression g ctx.allowIn
  endStatement
  return .returning argument

/-- A jump from its word on, with the label that may follow it on the same line. -/
def jumpStatement (jump : Jump) : Parse Node := do
  advance
  let t ← token
  let label ← if t.kind.isName && !t.afterLineBreak then some <$> name else pure none
  endStatement
  return .jump jump label

/-- A throw from its word on. -/
def throwStatement (g : Grammar) (ctx : Context) : Parse Node := do
  advance
  if ← afterLineBreak then reject .lineBreakAfterThrow
  let argument ← expression g ctx.allowIn
  endStatement
  return .throwing argument

/-- The target that a handler may bind, in its parentheses. -/
def handlerParameter (g : Grammar) (ctx : Context) : Parse (Option Node) := do
  if ← accept .openParen then
    let param ← g.target ctx
    expect .closeParen
    return some param
  else
    return none

/-- A guarded block from the word `try` on.  It needs a handler or a final block. -/
def tryStatement (g : Grammar) (ctx : Context) : Parse Node := do
  advance
  let body ← block g ctx
  let recovery ←
    if ← acceptWord .kwCatch then
      let param ← handlerParameter g ctx
      pure (some (Node.handler param (← block g ctx)))
    else
      pure none
  let finalizer ← if ← acceptWord .kwFinally then some <$> block g ctx else pure none
  if recovery.isNone && finalizer.isNone then reject .handlerExpected
  return .guarded body recovery finalizer

/-- A statement with a label. -/
def labeledStatement (g : Grammar) (ctx : Context) : Parse Node := do
  let label ← name
  expect .colon
  return .labeled label (← g.statement ctx)

/-- A statement that begins with a name: a labeled one if a colon follows. -/
def nameStatement (g : Grammar) (ctx : Context) : Parse Node := do
  if (← peek).kind = .punctuator .colon then labeledStatement g ctx
  else expressionStatement g ctx

/-- A statement, told by its first token. -/
def anyStatement (g : Grammar) (ctx : Context) : Parse Node := do
  let k ← kind
  match k with
  | .punctuator .openBrace => block g ctx
  | .reserved .kwVar | .reserved .kwConst => variableStatement g ctx
  | .contextual .kwLet =>
    if ← isLetDeclaration then variableStatement g ctx else nameStatement g ctx
  | .reserved .kwFunction => functionDefinition g .declaration false
  | .contextual .kwAsync =>
    if ← isFunctionAhead then
      advance
      functionDefinition g .declaration true
    else
      nameStatement g ctx
  | .reserved .kwClass => classDefinition g ctx (leftHandSide g ctx) .declaration
  | .reserved .kwIf => ifStatement g ctx
  | .reserved .kwFor => forStatement g ctx
  | .reserved .kwWhile => whileStatement g ctx
  | .reserved .kwDo => doStatement g ctx
  | .reserved .kwReturn => returnStatement g ctx
  | .reserved .kwBreak => jumpStatement .leave
  | .reserved .kwContinue => jumpStatement .repeat
  | .reserved .kwThrow => throwStatement g ctx
  | .reserved .kwTry => tryStatement g ctx
  | .reserved .kwSwitch => switchStatement g ctx
  | .punctuator .semicolon =>
    advance
    return .empty
  | .reserved .kwDebugger =>
    advance
    endStatement
    return .debugger
  | .reserved .kwWith => reject .withStatement
  | .identifier | .contextual _ => nameStatement g ctx
  | _ => expressionStatement g ctx

end Grammar

end BindingProxy
