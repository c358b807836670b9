import BindingProxy.Json.Basic

/-!
# JSON text on several lines

Every element and member has a line of its own, two spaces further in than its parent.  Characters
beyond ASCII are written as they are, and control characters as escapes.
-/

namespace BindingProxy

namespace Json

/-- The digit of a number below sixteen. -/
def hexDigit (n : Nat) : Char :=
  if n < 10 then Char.ofNat ('0'.toNat + n) else Char.ofNat ('a'.toNat + n - 10)

/-- A character inside a quoted text. -/
def escape (c : Char) : List Char :=
  match c with
  | '"' => ['\\', '"']
  | '\\' => ['\\', '\\']
  | '\x08' => ['\\', 'b']
  | '\t' => ['\\', 't']
  | '\n' => ['\\', 'n']
  | '\x0c' => ['\\', 'f']
  | '\r' => ['\\', 'r']
  | c =>
    if c.toNat < 0x20 then
      ['\\', 'u', '0', '0', hexDigit (c.toNat / 16), hexDigit (c.toNat % 16)]
    else
      [c]

/-- A text in quotes. -/
def quote (s : String) : String :=
  String.ofList ('"' :: s.toList.flatMap escape ++ ['"'])

/-- A new line that begins with two spaces for each level. -/
def newLine (level : Nat) : String :=
  "\n" ++ String.ofList (List.replicate (2 * level) ' ')

/-- Items between two brackets, each on a line of its own; without items the brackets touch. -/
def enclose (opening closing : String) (level : Nat) (items : List String) : String :=
  if items.isEmpty then opening ++ closing
  else
    opening ++ newLine (level + 1) ++ String.intercalate ("," ++ newLine (level + 1)) items ++
      newLine level ++ closing

mutual

/-- The text of a value that stands at a level. -/
def prettyAt (level : Nat) : Json → String
  | null => "null"
  | bool true => "true"
  | bool false => "false"
  | number spelling => spelling
  | string s => quote s
  | array elements => enclose "[" "]" level (prettyElements (level + 1) elements)
  | object members => enclose "\x7b" "\x7d" level (prettyMembers (level + 1) members)

/-- The texts of elements at a level. -/
def prettyElements (level : Nat) : List Json → List String
  | [] => []
  | element :: elements => prettyAt level element :: prettyElements level elements

/-- The texts of members at a level. -/
def prettyMembers (level : Nat) : List (String × Json) → List String
  | [] => []
  | (key, value) :: members =>
    (quote key ++ ": " ++ prettyAt level value) :: prettyMembers level members

end

/-- The text of a value. -/
def pretty (j : Json) : String := prettyAt 0 j

end Json

end BindingProxy
