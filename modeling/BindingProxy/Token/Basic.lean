import BindingProxy.Text.Bytes
import BindingProxy.Text.Span
import BindingProxy.Token.Kind

/-!
# Tokens and the flaws met while reading them

A token keeps its kind, its place, its full text and its value.  The value is the text itself except
for the parts of a template, whose value leaves out the delimiters.
-/

namespace BindingProxy

/-- A token of a script. -/
structure Token where
  kind : TokenKind
  /-- The byte offset of the first character. -/
  start : Nat
  text : String
  value : String
  /-- Whether a line break stands between this token and the one before it. -/
  afterLineBreak : Bool
deriving Repr, DecidableEq, Inhabited

/-- The byte offset just after a token. -/
def Token.stop (t : Token) : Nat := t.start + byteWidth t.text.toList

/-- The bytes of a token. -/
def Token.span (t : Token) : Span := ⟨t.start, t.stop⟩

/-- What can be wrong with a text on the level of tokens. -/
inductive FlawCause where
  | unclosedComment
  | invalidCharacter (c : Char)
  /-- A backslash in a name that begins no escape. -/
  | strayBackslash
  | missingExponent
  | nameAfterNumber
  | unclosedString
  | unclosedTemplate
  | unclosedRegExp
deriving Repr, DecidableEq, Inhabited

/-- The wording of a cause. -/
def FlawCause.message : FlawCause → String
  | unclosedComment => "'*/' expected."
  | invalidCharacter c => "Invalid character '" ++ c.toString ++ "'."
  | strayBackslash => "Invalid character."
  | missingExponent => "Digit expected."
  | nameAfterNumber => "An identifier or keyword cannot immediately follow a numeric literal."
  | unclosedString => "Unterminated string literal."
  | unclosedTemplate => "Unterminated template literal."
  | unclosedRegExp => "Unterminated regular expression literal."

/-- A cause at a byte offset. -/
structure Flaw where
  cause : FlawCause
  offset : Nat
deriving Repr, DecidableEq, Inhabited

end BindingProxy
