import BindingProxy.Json.Basic

/-!
# Reading JSON text

The strict form of the format: no comments, no trailing commas, no bare control characters in a
quoted text, no half of a surrogate pair, and nothing but blanks around the value.
-/

namespace BindingProxy

namespace Json

/-- The text after its blanks. -/
def skipBlanks (text : List Char) : List Char :=
  text.dropWhile fun c => c == ' ' || c == '\n' || c == '\t' || c == '\r'

/-- The text after a given beginning. -/
def passWord (word : String) (text : List Char) : Option (List Char) :=
  if word.toList.isPrefixOf text then some (text.drop word.length) else none

/-! ### Quoted texts -/

/-- The value of a digit in base sixteen. -/
def hexValue? (c : Char) : Option Nat :=
  if c.isDigit then some (c.toNat - '0'.toNat)
  else if 'a' ≤ c ∧ c ≤ 'f' then some (c.toNat - 'a'.toNat + 10)
  else if 'A' ≤ c ∧ c ≤ 'F' then some (c.toNat - 'A'.toNat + 10)
  else none

/-- The code unit of four digits in base sixteen. -/
def codeUnit? (a b c d : Char) : Option Nat := do
  return (((← hexValue? a) * 16 + (← hexValue? b)) * 16 + (← hexValue? c)) * 16 + (← hexValue? d)

/-- The first unit of a surrogate pair. -/
def isHighSurrogate (n : Nat) : Bool := 0xd800 ≤ n && n ≤ 0xdbff

/-- The second unit of a surrogate pair. -/
def isLowSurrogate (n : Nat) : Bool := 0xdc00 ≤ n && n ≤ 0xdfff

/-- The character of a surrogate pair. -/
def ofSurrogates (high low : Nat) : Char :=
  Char.ofNat (0x10000 + (high - 0xd800) * 0x400 + (low - 0xdc00))

/-- The character that a backslash and a letter stand for. -/
def escaped? : Char → Option Char
  | '"' => some '"'
  | '\\' => some '\\'
  | '/' => some '/'
  | 'b' => some '\x08'
  | 'f' => some '\x0c'
  | 'n' => some '\n'
  | 'r' => some '\r'
  | 't' => some '\t'
  | _ => none

/-- The characters of a quoted text after its opening quote, and the rest after the closing one. -/
def quoted? : List Char → Option (List Char × List Char)
  | [] => none
  | '"' :: rest => some ([], rest)
  | '\\' :: 'u' :: a :: b :: c :: d :: '\\' :: 'u' :: e :: f :: g :: h :: rest => do
    let first ← codeUnit? a b c d
    if isHighSurrogate first then
      let second ← codeUnit? e f g h
      if isLowSurrogate second then
        let (chars, rest) ← quoted? rest
        return (ofSurrogates first second :: chars, rest)
      else
        none
    else if isLowSurrogate first then
      none
    else
      let (chars, rest) ← quoted? ('\\' :: 'u' :: e :: f :: g :: h :: rest)
      return (Char.ofNat first :: chars, rest)
  | '\\' :: 'u' :: a :: b :: c :: d :: rest => do
    let unit ← codeUnit? a b c d
    if isHighSurrogate unit || isLowSurrogate unit then
      none
    else
      let (chars, rest) ← quoted? rest
      return (Char.ofNat unit :: chars, rest)
  | '\\' :: c :: rest => do
    let char ← escaped? c
    let (chars, rest) ← quoted? rest
    return (char :: chars, rest)
  | c :: rest =>
    if c = '\\' ∨ c.toNat < 0x20 then none
    else (quoted? rest).map fun (chars, rest) => (c :: chars, rest)

/-! ### Numbers -/

/-- One or more digits. -/
def someDigits? (text : List Char) : Option (List Char × List Char) :=
  match text.span Char.isDigit with
  | ([], _) => none
  | found => some found

/-- The digits before the point: a zero stands alone. -/
def wholePart? : List Char → Option (List Char × List Char)
  | '0' :: rest => some (['0'], rest)
  | text => someDigits? text

/-- The point and the digits after it, if there is a point. -/
def fractionPart? : List Char → Option (List Char × List Char)
  | '.' :: rest => (someDigits? rest).map fun (digits, rest) => ('.' :: digits, rest)
  | text => some ([], text)

/-- The sign of an exponent. -/
def exponentSign : List Char → List Char × List Char
  | '+' :: rest => (['+'], rest)
  | '-' :: rest => (['-'], rest)
  | text => ([], text)

/-- The exponent, if there is one. -/
def exponentPart? : List Char → Option (List Char × List Char)
  | c :: rest =>
    if c = 'e' ∨ c = 'E' then
      let (sign, rest) := exponentSign rest
      (someDigits? rest).map fun (digits, rest) => (c :: sign ++ digits, rest)
    else
      some ([], c :: rest)
  | [] => some ([], [])

/-- A number without its sign. -/
def magnitude? (text : List Char) : Option (List Char × List Char) := do
  let (whole, rest) ← wholePart? text
  let (fraction, rest) ← fractionPart? rest
  let (power, rest) ← exponentPart? rest
  return (whole ++ fraction ++ power, rest)

/-- A number. -/
def number? : List Char → Option (Json × List Char)
  | '-' :: rest =>
    (magnitude? rest).map fun (body, rest) => (number (String.ofList ('-' :: body)), rest)
  | text => (magnitude? text).map fun (body, rest) => (number (String.ofList body), rest)

/-! ### Values -/

mutual

/-- A value and the text after it.  The fuel bounds the steps, each of which passes a character or
enters a part of the value. -/
def value? : Nat → List Char → Option (Json × List Char)
  | 0, _ => none
  | fuel + 1, text =>
    match skipBlanks text with
    | '"' :: rest => (quoted? rest).map fun (chars, rest) => (string (String.ofList chars), rest)
    | '[' :: rest =>
      match skipBlanks rest with
      | ']' :: rest => some (array [], rest)
      | rest => (elements? fuel rest).map fun (found, rest) => (array found, rest)
    | '\x7b' :: rest =>
      match skipBlanks rest with
      | '\x7d' :: rest => some (object [], rest)
      | rest => (members? fuel rest).map fun (found, rest) => (object found, rest)
    | 'n' :: rest => (passWord "ull" rest).map fun rest => (null, rest)
    | 't' :: rest => (passWord "rue" rest).map fun rest => (bool true, rest)
    | 'f' :: rest => (passWord "alse" rest).map fun rest => (bool false, rest)
    | text => number? text

/-- One or more elements and the closing bracket. -/
def elements? : Nat → List Char → Option (List Json × List Char)
  | 0, _ => none
  | fuel + 1, text => do
    let (element, rest) ← value? fuel text
    match skipBlanks rest with
    | ',' :: rest =>
      let (found, rest) ← elements? fuel rest
      return (element :: found, rest)
    | ']' :: rest => return ([element], rest)
    | _ => none

/-- One or more members and the closing brace. -/
def members? : Nat → List Char → Option (List (String × Json) × List Char)
  | 0, _ => none
  | fuel + 1, text => do
    match skipBlanks text with
    | '"' :: rest =>
      let (key, rest) ← quoted? rest
      match skipBlanks rest with
      | ':' :: rest =>
        let (value, rest) ← value? fuel rest
        match skipBlanks rest with
        | ',' :: rest =>
          let (found, rest) ← members? fuel rest
          return ((String.ofList key, value) :: found, rest)
        | '\x7d' :: rest => return ([(String.ofList key, value)], rest)
        | _ => none
      | _ => none
    | _ => none

end

/-- The value that a text spells, if it spells one and nothing else. -/
def parse? (text : String) : Option Json :=
  match value? (2 * text.toList.length + 2) text.toList with
  | some (value, rest) => if (skipBlanks rest).isEmpty then some value else none
  | none => none

end Json

end BindingProxy
