import BindingProxy.Text.Bytes

/-!
# Lines and columns

Lines and columns count from one, columns in bytes.  Only a line feed starts a new line here, and an
offset past the end of the text lies on its last line.
-/

namespace BindingProxy

/-- A line and a column, both counted from one. -/
structure Position where
  line : Nat
  column : Nat
deriving Repr, DecidableEq, Inhabited

/-- The form `line:column`. -/
def Position.text (p : Position) : String :=
  toString p.line ++ ":" ++ toString p.column

/-- The byte offsets at which the lines of a text start, in increasing order. -/
structure LineMap where
  starts : List Nat
deriving Repr, DecidableEq, Inhabited

namespace LineMap

/-- The starts of the lines after the first one, for characters that begin at `offset`. -/
def laterStarts (offset : Nat) : List Char → List Nat
  | [] => []
  | c :: cs =>
    let next := offset + c.utf8Size
    if c = '\n' then next :: laterStarts next cs else laterStarts next cs

/-- The line map of a text: a line starts at its beginning and after every line feed. -/
def ofText (text : String) : LineMap :=
  ⟨0 :: laterStarts 0 text.toList⟩

/-- The number of lines. -/
def lineCount (m : LineMap) : Nat := m.starts.length

/-- The line that holds an offset is the last one that starts at or before it. -/
def position (m : LineMap) (offset : Nat) : Position :=
  let begun := m.starts.takeWhile (· ≤ offset)
  ⟨begun.length, offset - begun.getLastD 0 + 1⟩

end LineMap

end BindingProxy
