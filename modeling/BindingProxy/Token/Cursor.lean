import BindingProxy.Token.Gap
import BindingProxy.Token.Lexeme

/-!
# Cursors

A cursor holds the current token and the text that follows it.  `next?` moves to the next token.
Two tokens depend on what the grammar expects and can be read again: a slash as the beginning of a
regular expression, and a closing brace as the end of a template's substitution.
-/

namespace BindingProxy

/-- A place in a script: the current token and all that follows it. -/
structure Cursor where
  token : Token
  rest : List Char
deriving Repr, DecidableEq, Inhabited

namespace Cursor

/-- The cursor before the first token of a text. -/
def start (text : String) : Cursor :=
  ⟨⟨.unknown, 0, "", "", false⟩, text.toList⟩

/-- The byte offset at which the rest begins. -/
def offset (c : Cursor) : Nat := c.token.stop

/-- The cursor at a lexeme that starts at `offset`. -/
def ofLexeme (offset : Nat) (afterLineBreak : Bool) (l : Lexeme) : Cursor :=
  ⟨⟨l.kind, offset, String.ofList l.text, String.ofList l.value, afterLineBreak⟩, l.rest⟩

/-- The cursor at the next token, with the first flaw met on the way; `none` when the next token
cannot be read because an escape in it ends inside a character. -/
def next? (c : Cursor) : Option (Cursor × Option Flaw) :=
  let gap := Gap.read c.offset c.rest
  (Lexeme.read gap.offset gap.rest).map fun l =>
    (ofLexeme gap.offset gap.lineBreak l, gap.flaw.or l.flaw)

/-- The text from the second character of the current token on. -/
def tail (c : Cursor) : List Char := c.token.text.toList.drop 1 ++ c.rest

/-- Reads a slash again as the beginning of a regular expression; other tokens stay as they are. -/
def rereadSlash (c : Cursor) : Cursor × Option Flaw :=
  match c.token.kind with
  | .punctuator .slash | .punctuator .slashAssign =>
    let l := Lexeme.regExp c.token.start c.tail
    (ofLexeme c.token.start c.token.afterLineBreak l, l.flaw)
  | _ => (c, none)

/-- Reads a closing brace again as the end of a substitution; other tokens stay as they are. -/
def rereadBrace (c : Cursor) : Cursor × Option Flaw :=
  match c.token.kind with
  | .punctuator .closeBrace =>
    let l := Lexeme.chunk c.token.start false '\x7d' c.tail
    (ofLexeme c.token.start c.token.afterLineBreak l, l.flaw)
  | _ => (c, none)

/-- The tokens after a cursor up to and with the end of the text, each with the flaw met while
reading it.  At most `bound` tokens are read. -/
def tokensWithin : Nat → Cursor → Option (List (Token × Option Flaw))
  | 0, _ => some []
  | bound + 1, c =>
    match c.next? with
    | none => none
    | some (c, flaw) =>
      if c.token.kind = .endOfText then some [(c.token, flaw)]
      else (tokensWithin bound c).map ((c.token, flaw) :: ·)

end Cursor

/-- The tokens of a text.  Every token but the last one takes a character, so there are at most one
more of them than characters. -/
def tokens (text : String) : Option (List (Token × Option Flaw)) :=
  (Cursor.start text).tokensWithin (text.toList.length + 1)

end BindingProxy
