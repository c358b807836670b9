import BindingProxy.Text.Blank
import BindingProxy.Token.Basic

/-!
# Gaps between tokens

White space, line breaks and comments separate tokens.  A line comment runs up to a line feed or a
carriage return, a block comment up to the first `*/`, and a script may begin with one `#!` line.
The gap records whether it holds a line break: a line comment gives one through the line feed that
ends it, a block comment through a line feed or carriage return inside it.
-/

namespace BindingProxy

/-- The result of skipping a gap. -/
structure Gap where
  /-- The byte offset of the first character after the gap. -/
  offset : Nat
  lineBreak : Bool
  flaw : Option Flaw
  rest : List Char
deriving Repr, DecidableEq, Inhabited

namespace Gap

/-- The kind of text that a gap is inside of. -/
inductive Mode where
  | between
  | lineComment
  /-- A block comment that began at `start`, with whether it holds a line break so far. -/
  | blockComment (start : Nat) (lineBreak : Bool)
deriving Repr, DecidableEq, Inhabited

/-- Skips from `offset` to the next character that belongs to a token.  A block comment that is not
closed swallows the rest of the text, is reported where it began and counts as no line break. -/
def skip : Mode → Nat → Bool → List Char → Gap
  | .between, offset, lineBreak, [] => ⟨offset, lineBreak, none, []⟩
  | .between, offset, lineBreak, '/' :: '/' :: rest =>
    skip .lineComment (offset + 2) lineBreak rest
  | .between, offset, lineBreak, '/' :: '*' :: rest =>
    skip (.blockComment offset false) (offset + 2) lineBreak rest
  | .between, 0, lineBreak, '#' :: '!' :: rest => skip .lineComment 2 lineBreak rest
  | .between, offset, lineBreak, c :: rest =>
    if isLineTerminator c then skip .between (offset + c.utf8Size) true rest
    else if isBlank c then skip .between (offset + c.utf8Size) lineBreak rest
    else ⟨offset, lineBreak, none, c :: rest⟩
  | .lineComment, offset, lineBreak, [] => ⟨offset, lineBreak, none, []⟩
  | .lineComment, offset, lineBreak, c :: rest =>
    if isLineFeed c then skip .between (offset + c.utf8Size) true rest
    else skip .lineComment (offset + c.utf8Size) lineBreak rest
  | .blockComment start _, offset, lineBreak, [] =>
    ⟨offset, lineBreak, some ⟨.unclosedComment, start⟩, []⟩
  | .blockComment _ inner, offset, lineBreak, '*' :: '/' :: rest =>
    skip .between (offset + 2) (lineBreak || inner) rest
  | .blockComment start inner, offset, lineBreak, c :: rest =>
    skip (.blockComment start (inner || isLineFeed c)) (offset + c.utf8Size) lineBreak rest

/-- The gap that begins at `offset`. -/
def read (offset : Nat) (text : List Char) : Gap := skip .between offset false text

end Gap

end BindingProxy
