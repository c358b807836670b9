import BindingProxy.Token.Cursor

/-!
# Reading sessions

A session drives a cursor by single steps.  It remembers the first flaw until it is taken, and a
stack of saved cursors; going back to a saved cursor leaves the remembered flaw as it is.
-/

namespace BindingProxy

/-- A step of a session. -/
inductive ReadStep where
  | next
  | rereadSlash
  | rereadBrace
  | save
  | restore
  | takeFlaw
deriving Repr, DecidableEq, Inhabited

/-- A cursor with the flaw not yet taken and the saved cursors. -/
structure ReadSession where
  cursor : Cursor
  flaw : Option Flaw
  saved : List Cursor
deriving Repr, DecidableEq, Inhabited

namespace ReadSession

/-- The session at the beginning of a text. -/
def start (text : String) : ReadSession := ⟨.start text, none, []⟩

/-- Moves to a cursor and remembers its flaw unless an earlier one is remembered. -/
def move (s : ReadSession) (reached : Cursor × Option Flaw) : ReadSession :=
  { s with cursor := reached.1, flaw := s.flaw.or reached.2 }

/-- One step, with the flaw that it takes; `none` when the next token cannot be read. -/
def step (s : ReadSession) : ReadStep → Option (ReadSession × Option Flaw)
  | .next => s.cursor.next?.map fun reached => (s.move reached, none)
  | .rereadSlash => some (s.move s.cursor.rereadSlash, none)
  | .rereadBrace => some (s.move s.cursor.rereadBrace, none)
  | .save => some ({ s with saved := s.cursor :: s.saved }, none)
  | .restore =>
    match s.saved with
    | [] => some (s, none)
    | c :: saved => some ({ s with cursor := c, saved := saved }, none)
  | .takeFlaw => some ({ s with flaw := none }, s.flaw)

/-- The sessions after each of the steps, each with the flaw taken by its step. -/
def run (s : ReadSession) : List ReadStep → Option (List (ReadSession × Option Flaw))
  | [] => some []
  | step :: steps => do
    let (s, flaw) ← s.step step
    let later ← s.run steps
    return (s, flaw) :: later

end ReadSession

end BindingProxy
