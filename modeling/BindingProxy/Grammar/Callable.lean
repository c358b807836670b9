import BindingProxy.Grammar.Pattern

/-!
# Functions and classes

Both stand as statements and as values, and a declaration needs a name.
-/

namespace BindingProxy

namespace Grammar

open Parse

/-- Statements in braces. -/
def block (g : Grammar) (ctx : Context) : Parse Node := do
  expect .openBrace
  let body ← repeatFrom [] fun found => do
    if ← isAt (.punctuator .closeBrace) then return .done found.reverse
    if ← isAt .endOfText then reject (.expected "\x7d")
    return .again ((← g.statement ctx) :: found)
  advance
  return .block body

/-- The parameters and the body of a function, read in its own context. -/
def functionRest (g : Grammar) (isAsync isGenerator : Bool) : Parse (List Node × Node) := do
  let ctx := Context.ofFunction isAsync isGenerator
  let params ← parameters g ctx
  let body ← block g ctx
  return (params, body)

/-- The name of a declaration, or of a value that may go without one. -/
def optionalName (role : Role) (missing : SyntaxCause) : Parse (Option String) := do
  if (← kind).isName then return some (← name)
  match role with
  | .declaration => reject missing
  | .expression => return none

/-- A function from the word `function` on. -/
def functionDefinition (g : Grammar) (role : Role) (isAsync : Bool) : Parse Node := do
  expectWord .kwFunction
  let isGenerator ← accept .star
  let id ← optionalName role .functionNameExpected
  let (params, body) ← functionRest g isAsync isGenerator
  return .function role id params body isAsync isGenerator

/-- The parameters and the body of a method as a function without a name. -/
def methodFunction (g : Grammar) (isAsync isGenerator : Bool) : Parse Node := do
  let (params, body) ← functionRest g isAsync isGenerator
  return .function .expression none params body isAsync isGenerator

/-- Whether the current word is a modifier: a property key follows it on the same line. -/
def isModifier : Parse Bool := do
  let next ← peek
  return !next.afterLineBreak &&
    (next.kind.isWord || next.kind == .string || next.kind == .number ||
      next.kind == .punctuator .openBracket || next.kind == .punctuator .star)

/-- Passes the contextual word if it is a modifier, and says whether it was. -/
def acceptModifier (w : ContextualWord) : Parse Bool := do
  if ← isAt (.contextual w) then
    if ← isModifier then
      advance
      return true
  return false

/-- Whether a key names the constructor of a class. -/
def isConstructorKey : Node → Bool
  | .identifier name => name == "constructor"
  | .literal .string raw => (raw.toList.drop 1).dropLast == "constructor".toList
  | _ => false

/-- The modifiers of a member: async, generator, and the word of an accessor. -/
structure Modifiers where
  isAsync : Bool
  isGenerator : Bool
  accessor : Option ContextualWord

/-- The modifiers before a key.  A member that is async or a generator is no accessor. -/
def modifiers : Parse Modifiers := do
  let isAsync ← acceptModifier .kwAsync
  let isGenerator ← accept .star
  if isAsync || isGenerator then return ⟨isAsync, isGenerator, none⟩
  if ← acceptModifier .kwGet then return ⟨false, false, some .kwGet⟩
  if ← acceptModifier .kwSet then return ⟨false, false, some .kwSet⟩
  return ⟨false, false, none⟩

/-- A method of a class. -/
def classMember (g : Grammar) (ctx : Context) : Parse Node := do
  let isStatic ← acceptModifier .kwStatic
  let m ← modifiers
  let (key, computed) ← propertyKey g ctx
  unless ← isAt (.punctuator .openParen) do reject .classField
  let kind :=
    match m.accessor with
    | some .kwGet => .get
    | some _ => .set
    | none =>
      if !isStatic && !computed && isConstructorKey key then .constructor else .method
  return .method key (← methodFunction g m.isAsync m.isGenerator) kind computed isStatic

/-- A class from the word `class` on; `heritage` reads what follows `extends`. -/
def classDefinition (g : Grammar) (ctx : Context) (heritage : Parse Node) (role : Role) :
    Parse Node := do
  expectWord .kwClass
  let id ← optionalName role .classNameExpected
  let superClass ← if ← acceptWord .kwExtends then some <$> heritage else pure none
  expect .openBrace
  let body ← repeatFrom [] fun found => do
    if ← isAt (.punctuator .closeBrace) then return .done found.reverse
    if ← accept .semicolon then return .again found
    if ← isAt .endOfText then reject (.expected "\x7d")
    return .again ((← classMember g ctx) :: found)
  advance
  return .classDefinition role id superClass body

end Grammar

end BindingProxy
