import BindingProxy.Grammar.Basic

/-!
# Binding patterns

The targets of declarations and parameters: names, array patterns and object patterns, with defaults
and a rest element in the last place.
-/

namespace BindingProxy

namespace Grammar

open Parse

/-- A literal that is one token. -/
def literalToken (kind : LiteralKind) : Parse Node := do
  let t ← token
  advance
  return .literal kind t.text

/-- The key of a property and whether it is computed. -/
def propertyKey (g : Grammar) (ctx : Context) : Parse (Node × Bool) := do
  match ← kind with
  | .string => return (← literalToken .string, false)
  | .number => return (← literalToken .number, false)
  | .punctuator .openBracket =>
    advance
    let key ← g.assignment ctx.allowIn
    expect .closeBracket
    return (key, true)
  | k =>
    if k.isWord then return (.identifier (← word), false)
    else reject .propertyNameExpected

/-- A target with the default that may follow it. -/
def withDefault (g : Grammar) (ctx : Context) (target : Node) : Parse Node := do
  if ← accept .assign then return .defaulted target (← g.assignment ctx.allowIn)
  else return target

/-- A target and the default that may follow it. -/
def bindingElement (g : Grammar) (ctx : Context) : Parse Node := do
  withDefault g ctx (← g.target ctx)

/-- The parameters of a function in their parentheses. -/
def parameters (g : Grammar) (ctx : Context) : Parse (List Node) := do
  expect .openParen
  let ctx := ctx.allowIn
  let params ← repeatFrom [] fun found => do
    if ← isAt (.punctuator .closeParen) then return .done found.reverse
    if ← accept .ellipsis then return .done (.rest (← g.target ctx) :: found).reverse
    let found := (← bindingElement g ctx) :: found
    if ← accept .comma then return .again found else return .done found.reverse
  expect .closeParen
  return params

/-- An array pattern. -/
def arrayPattern (g : Grammar) (ctx : Context) : Parse Node := do
  expect .openBracket
  let elements ← repeatFrom [] fun found => do
    if ← isAt (.punctuator .closeBracket) then return .done found.reverse
    if ← accept .comma then return .again (none :: found)
    if ← accept .ellipsis then return .done (some (.rest (← g.target ctx)) :: found).reverse
    let found := some (← bindingElement g ctx) :: found
    if ← accept .comma then return .again found else return .done found.reverse
  expect .closeBracket
  return .arrayPattern elements

/-- A member of an object pattern other than a rest element. -/
def patternMember (g : Grammar) (ctx : Context) : Parse Node := do
  let keyIsName := (← kind).isName
  let (key, computed) ← propertyKey g ctx
  if ← accept .colon then
    return .property key (← bindingElement g ctx) .init computed false false
  match key, keyIsName && !computed with
  | .identifier name, true =>
    return .property key (← withDefault g ctx (.identifier name)) .init computed true false
  | _, _ => reject (.expected ":")

/-- An object pattern. -/
def objectPattern (g : Grammar) (ctx : Context) : Parse Node := do
  expect .openBrace
  let members ← repeatFrom [] fun found => do
    if ← isAt (.punctuator .closeBrace) then return .done found.reverse
    if ← accept .ellipsis then return .done (.rest (.identifier (← name)) :: found).reverse
    let found := (← patternMember g ctx) :: found
    if ← accept .comma then return .again found else return .done found.reverse
  expect .closeBrace
  return .objectPattern members

/-- A name, an array pattern or an object pattern. -/
def bindingTarget (g : Grammar) (ctx : Context) : Parse Node := do
  match ← kind with
  | .punctuator .openBracket => arrayPattern g ctx
  | .punctuator .openBrace => objectPattern g ctx
  | _ => return .identifier (← name)

end Grammar

end BindingProxy
