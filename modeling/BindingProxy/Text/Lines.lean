/-!
# Pieces and lines of a text

A line ends with a line feed, which may have a carriage return before it; neither belongs to the
line.  A text that ends with a line feed has no further, empty line.
-/

namespace BindingProxy

/-- The pieces of a text between the occurrences of a character. -/
def splitAtChar (mark : Char) : List Char → List (List Char)
  | [] => [[]]
  | c :: cs =>
    if c = mark then [] :: splitAtChar mark cs
    else
      match splitAtChar mark cs with
      | [] => [[c]]
      | piece :: pieces => (c :: piece) :: pieces

/-- A line that ended with a line feed, without the carriage return before it. -/
def dropReturn (line : List Char) : List Char :=
  if line.getLast? = some '\r' then line.dropLast else line

/-- The lines among the pieces between line feeds: the last piece ended with none. -/
def linesOfPieces : List (List Char) → List (List Char)
  | [] | [[]] => []
  | [last] => [last]
  | piece :: pieces => dropReturn piece :: linesOfPieces pieces

/-- The lines of a text. -/
def textLines (text : String) : List String :=
  (linesOfPieces (splitAtChar '\n' text.toList)).map String.ofList

end BindingProxy
