import BindingProxy.Text.Position
import BindingProxy.Token.Basic

/-!
# Why a script is refused

Every refusal has a cause and a place.  The wording of the causes is in one function, and the line
and column are worked out from the place once reading has stopped.
-/

namespace BindingProxy

/-- Why a script is refused. -/
inductive SyntaxCause where
  | flawed (cause : FlawCause)
  /-- A given spelling has to stand here. -/
  | expected (spelling : String)
  | nameExpected
  | functionNameExpected
  | classNameExpected
  | propertyNameExpected
  | caseExpected
  | handlerExpected
  | unexpectedEnd
  | unexpectedToken (text : String)
  | nestedTooDeeply
  | lineBreakBeforeArrow
  | lineBreakAfterThrow
  | invalidCompoundTarget
  | invalidUpdateTarget
  | invalidTarget
  | invalidPatternMember
  | restNotLast
  | invalidLoopDeclaration
  | classField
  | withStatement
deriving Repr, DecidableEq, Inhabited

/-- The wording of a cause. -/
def SyntaxCause.message : SyntaxCause → String
  | flawed cause => cause.message
  | expected spelling => "'" ++ spelling ++ "' expected."
  | nameExpected => "Identifier expected."
  | functionNameExpected => "Function name expected."
  | classNameExpected => "Class name expected."
  | propertyNameExpected => "Property name expected."
  | caseExpected => "'case' or 'default' expected."
  | handlerExpected => "'catch' or 'finally' expected."
  | unexpectedEnd => "Unexpected end of input."
  | unexpectedToken text => "Unexpected token '" ++ text ++ "'."
  | nestedTooDeeply => "Maximum nesting depth exceeded."
  | lineBreakBeforeArrow => "Line break not permitted before '=>'."
  | lineBreakAfterThrow => "Line break not permitted here."
  | invalidCompoundTarget => "Invalid left-hand side in assignment."
  | invalidUpdateTarget =>
    "The operand of an increment or decrement operator must be a variable or a property access."
  | invalidTarget => "Invalid assignment target."
  | invalidPatternMember => "Invalid destructuring assignment target."
  | restNotLast => "A rest element must be last in a pattern."
  | invalidLoopDeclaration =>
    "Only a single variable declaration without initializer is allowed here."
  | classField => "Class fields are not supported."
  | withStatement => "'with' statements are not supported."

/-- A cause and the bytes that it is about. -/
structure SyntaxError where
  cause : SyntaxCause
  span : Span
deriving Repr, DecidableEq, Inhabited

/-- A message about a place of a text, as it is shown to a reader. -/
structure Diagnostic where
  message : String
  span : Span
  position : Position
deriving Repr, DecidableEq, Inhabited

/-- The message followed by the position in parentheses. -/
def Diagnostic.text (d : Diagnostic) : String :=
  d.message ++ " (" ++ d.position.text ++ ")"

/-- The diagnostic of an error in a text. -/
def SyntaxError.diagnostic (e : SyntaxError) (text : String) : Diagnostic :=
  ⟨e.cause.message, e.span, (LineMap.ofText text).position e.span.start⟩

/-- How the reading of a script ends without a tree. -/
inductive ParseFailure where
  | refused (error : SyntaxError)
  /-- A token could not be read because an escape in it ends inside a character. -/
  | unreadable
  /-- A repetition went on longer than the text allows. -/
  | stalled
deriving Repr, DecidableEq, Inhabited

end BindingProxy
