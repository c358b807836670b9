import BindingProxy.Grammar.Failure
import BindingProxy.Text.Lines

/-!
# Reports

How an error is shown: the file, the position and the message, and below them the line that the
error is on, with its number, and the place underlined.

    src/app.js:3:9 - error: Unexpected token ')'.

    3 let x = );
              ~

A report may be coloured for a terminal.
-/

namespace BindingProxy

/-- What a piece of a report is; each has a colour of its own. -/
inductive ReportPart where
  | file | number | fault | lineNumber | margin
deriving Repr, DecidableEq, Inhabited

/-- The terminal codes of a part: cyan, yellow, red, black on white, and white ground. -/
def ReportPart.codes : ReportPart → String
  | file => "36" | number => "33" | fault => "31" | lineNumber => "47;30" | margin => "47"

/-- A text that may itself hold the code that ends all colours: after each of them `start` begins
the colour again. -/
def resumeColor (start : List Char) : List Char → List Char
  | '\x1b' :: '[' :: '0' :: 'm' :: rest =>
    '\x1b' :: '[' :: '0' :: 'm' :: (start ++ resumeColor start rest)
  | c :: rest => c :: resumeColor start rest
  | [] => []

/-- A piece of a report, coloured if asked for. -/
def paint (color : Bool) (part : ReportPart) (text : String) : String :=
  if color then
    let start := "\x1b[" ++ part.codes ++ "m"
    start ++ String.ofList (resumeColor start.toList text.toList) ++ "\x1b[0m"
  else text

/-- Some equal characters. -/
def copies (count : Nat) (c : Char) : String := String.ofList (List.replicate count c)

namespace Diagnostic

/-- The line that a diagnostic is about, underlined; nothing if the text has no such line. -/
def snippet (d : Diagnostic) (color : Bool) (text : String) : String :=
  match d.position.line with
  | 0 => ""
  | index + 1 =>
    match (textLines text)[index]? with
    | none => ""
    | some line =>
      let number := toString (index + 1)
      "\n\n" ++ paint color .lineNumber number ++ " " ++ line ++ "\n" ++
        paint color .margin (copies number.length ' ') ++ " " ++
        copies (d.position.column - 1) ' ' ++
        paint color .fault (copies (max d.span.length 1) '~')

/-- The report of a diagnostic about a text that was read from a file. -/
def report (d : Diagnostic) (color : Bool) (file text : String) : String :=
  paint color .file file ++ ":" ++ paint color .number (toString d.position.line) ++ ":" ++
    paint color .number (toString d.position.column) ++ " - " ++ paint color .fault "error" ++
    ": " ++ d.message ++ d.snippet color text

end Diagnostic

/-- The report of a file that could not be used at all. -/
def fileReport (color : Bool) (file message : String) : String :=
  paint color .file file ++ " - " ++ paint color .fault "error" ++ ": " ++ message

end BindingProxy
