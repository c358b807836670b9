import BindingProxy.Text.Alphabetic
import BindingProxy.Text.Blank
import BindingProxy.Text.Numeric
import BindingProxy.Token.Basic

/-!
# Lexemes

The text of one token, read from the characters at which it starts.  Every reader returns the
characters that it takes and those that it leaves, so that nothing is lost between two tokens.
-/

namespace BindingProxy

/-- A character that can begin a name. -/
def isNameStart (c : Char) : Bool :=
  c == '$' || c == '_' || isAlphabetic c

/-- A character that can stand in a name: also numbers and the two joiners. -/
def isNamePart (c : Char) : Bool :=
  isNameStart c || isNumeric c || c == '\u200c' || c == '\u200d'

/-- A token's text without its place. -/
structure Lexeme where
  kind : TokenKind
  text : List Char
  value : List Char
  flaw : Option Flaw
  rest : List Char
deriving Repr, DecidableEq, Inhabited

namespace Lexeme

/-- A lexeme whose value is its text. -/
def plain (kind : TokenKind) (text rest : List Char) (flaw : Option Flaw) : Lexeme :=
  ⟨kind, text, text, flaw, rest⟩

/-! ### Names

A name may hold escapes.  `\u` and a brace run to the closing brace, or to the end of the text; `\u`
and anything else covers the four bytes that follow, whatever they are, or what is left of the text.
When the fourth byte falls inside a character there is no way to go on. -/

/-- Where a name is being read. -/
inductive NameMode where
  | parts
  | bracedEscape
  /-- Inside a short escape that covers this many more bytes. -/
  | shortEscape (bytes : Nat)
deriving Repr, DecidableEq, Inhabited

/-- The characters of a name, the first stray backslash in it and the rest.  A backslash that begins
no escape is reported and kept. -/
def nameRun : NameMode → Nat → List Char → Option (List Char × Option Flaw × List Char)
  | _, _, [] => some ([], none, [])
  | .parts, offset, '\\' :: 'u' :: '\x7b' :: rest =>
    (nameRun .bracedEscape (offset + 3) rest).map fun (taken, flaw, rest) =>
      ('\\' :: 'u' :: '\x7b' :: taken, flaw, rest)
  | .parts, offset, '\\' :: 'u' :: rest =>
    (nameRun (.shortEscape 4) (offset + 2) rest).map fun (taken, flaw, rest) =>
      ('\\' :: 'u' :: taken, flaw, rest)
  | .parts, offset, '\\' :: rest =>
    (nameRun .parts (offset + 1) rest).map fun (taken, _, rest) =>
      ('\\' :: taken, some ⟨.strayBackslash, offset⟩, rest)
  | .parts, offset, c :: rest =>
    if isNamePart c then
      (nameRun .parts (offset + c.utf8Size) rest).map fun (taken, flaw, rest) =>
        (c :: taken, flaw, rest)
    else
      some ([], none, c :: rest)
  | .bracedEscape, offset, c :: rest =>
    (nameRun (if c = '\x7d' then .parts else .bracedEscape) (offset + c.utf8Size) rest).map
      fun (taken, flaw, rest) => (c :: taken, flaw, rest)
  | .shortEscape bytes, offset, c :: rest =>
    if c.utf8Size ≤ bytes then
      (nameRun (if c.utf8Size = bytes then .parts else .shortEscape (bytes - c.utf8Size))
        (offset + c.utf8Size) rest).map fun (taken, flaw, rest) => (c :: taken, flaw, rest)
    else
      none

/-- A name or a word; `none` when a short escape ends inside a character. -/
def name (start : Nat) (text : List Char) : Option Lexeme :=
  (nameRun .parts start text).map fun (taken, flaw, rest) =>
    plain ((TokenKind.ofWord? (String.ofList taken)).getD .identifier) taken rest flaw

/-! ### Numbers -/

/-- A digit in one of the radices of a number literal. -/
def isDigitIn (radix : Nat) (c : Char) : Bool :=
  if c.isDigit then c.toNat - '0'.toNat < radix
  else radix == 16 && (('a' ≤ c && c ≤ 'f') || ('A' ≤ c && c ≤ 'F'))

/-- Digits and underscores. -/
def digits (radix : Nat) (text : List Char) : List Char × List Char :=
  text.span fun c => c == '_' || isDigitIn radix c

/-- The radix that the two first characters announce. -/
def radix : List Char → Nat
  | '0' :: 'x' :: _ | '0' :: 'X' :: _ => 16
  | '0' :: 'o' :: _ | '0' :: 'O' :: _ => 8
  | '0' :: 'b' :: _ | '0' :: 'B' :: _ => 2
  | _ => 10

/-- Digits with an optional fraction. -/
def mantissa (text : List Char) : List Char × List Char :=
  let (whole, rest) := digits 10 text
  match rest with
  | '.' :: rest =>
    let (fraction, rest) := digits 10 rest
    (whole ++ '.' :: fraction, rest)
  | _ => (whole, rest)

/-- An optional sign. -/
def sign : List Char → List Char × List Char
  | '+' :: rest => (['+'], rest)
  | '-' :: rest => (['-'], rest)
  | rest => ([], rest)

/-- Whether a text begins with a decimal digit. -/
def startsWithDigit : List Char → Bool
  | c :: _ => c.isDigit
  | [] => false

/-- An optional exponent; one without a digit is left where it is, and the third part says so. -/
def exponent : List Char → List Char × List Char × Bool
  | c :: rest =>
    if c = 'e' ∨ c = 'E' then
      let (mark, after) := sign rest
      if startsWithDigit after then
        let (power, after) := digits 10 after
        (c :: mark ++ power, after, false)
      else
        ([], c :: rest, true)
    else
      ([], c :: rest, false)
  | [] => ([], [], false)

/-- The optional mark of a big integer. -/
def bigIntMark : List Char → List Char × List Char
  | 'n' :: rest => (['n'], rest)
  | rest => ([], rest)

/-- Whether a text begins with a character that can begin a name. -/
def startsWithName : List Char → Bool
  | c :: _ => isNameStart c
  | [] => false

/-- A number literal without its big integer mark, the rest, and whether an exponent lacks its
digits. -/
def magnitude (text : List Char) : List Char × List Char × Bool :=
  match radix text with
  | 10 =>
    let (base, rest) := mantissa text
    let (power, rest, missing) := exponent rest
    (base ++ power, rest, missing)
  | r =>
    let (body, rest) := digits r (text.drop 2)
    (text.take 2 ++ body, rest, false)

/-- A number literal.  An exponent without digits and a name right after the number are flaws, and
the first of the two is reported. -/
def number (start : Nat) (text : List Char) : Lexeme :=
  let (body, rest, missing) := magnitude text
  let (mark, rest) := bigIntMark rest
  let taken := body ++ mark
  let flaw :=
    if missing then some ⟨.missingExponent, start + byteWidth body⟩
    else if startsWithName rest then some ⟨.nameAfterNumber, start + byteWidth taken⟩
    else none
  plain .number taken rest flaw

/-! ### Strings, templates and regular expressions -/

/-- The characters of a string after its opening quote up to and with the closing one, whether it
is closed, and the rest.  A bare line feed or carriage return ends an unclosed string. -/
def stringRun (quote : Char) : List Char → List Char × Bool × List Char
  | [] => ([], false, [])
  | '\\' :: '\r' :: '\n' :: rest =>
    let (taken, closed, rest) := stringRun quote rest
    ('\\' :: '\r' :: '\n' :: taken, closed, rest)
  | '\\' :: c :: rest =>
    let (taken, closed, rest) := stringRun quote rest
    ('\\' :: c :: taken, closed, rest)
  | c :: rest =>
    if c = quote then ([c], true, rest)
    else if isLineFeed c then ([], false, c :: rest)
    else
      let (taken, closed, rest) := stringRun quote rest
      (c :: taken, closed, rest)

/-- A string literal with its quotes. -/
def string (start : Nat) (quote : Char) (text : List Char) : Lexeme :=
  let (taken, closed, rest) := stringRun quote text
  plain .string (quote :: taken) rest (if closed then none else some ⟨.unclosedString, start⟩)

/-- How a part of a template ends. -/
inductive ChunkEnd where
  | closed
  | substitution
  | unclosed
deriving Repr, DecidableEq, Inhabited

/-- The characters that end a part of a template. -/
def ChunkEnd.text : ChunkEnd → List Char
  | closed => ['\x60']
  | substitution => ['$', '\x7b']
  | unclosed => []

/-- The characters of a template up to its next delimiter, the delimiter and the rest. -/
def chunkRun : List Char → List Char × ChunkEnd × List Char
  | [] => ([], .unclosed, [])
  | '\x60' :: rest => ([], .closed, rest)
  | '$' :: '\x7b' :: rest => ([], .substitution, rest)
  | '\\' :: c :: rest =>
    let (taken, stop, rest) := chunkRun rest
    ('\\' :: c :: taken, stop, rest)
  | c :: rest =>
    let (taken, stop, rest) := chunkRun rest
    (c :: taken, stop, rest)

/-- The kind of a template part, by whether it is the first one and how it ends. -/
def chunkKind (first : Bool) : ChunkEnd → TokenKind
  | .substitution => if first then .templateHead else .templateMiddle
  | .closed | .unclosed => if first then .templateWhole else .templateTail

/-- A part of a template after its opening delimiter `opening`. -/
def chunk (start : Nat) (first : Bool) (opening : Char) (text : List Char) : Lexeme :=
  let (value, stop, rest) := chunkRun text
  ⟨chunkKind first stop, opening :: value ++ stop.text, value,
    if stop = .unclosed then some ⟨.unclosedTemplate, start⟩ else none, rest⟩

/-- The characters of a regular expression after its opening slash up to and with the closing one,
whether it is closed, and the rest.  A slash inside brackets does not close it. -/
def regExpRun : Bool → List Char → List Char × Bool × List Char
  | _, [] => ([], false, [])
  | inClass, '\\' :: c :: rest =>
    if isLineTerminator c then (['\\'], false, c :: rest)
    else
      let (taken, closed, rest) := regExpRun inClass rest
      ('\\' :: c :: taken, closed, rest)
  | inClass, c :: rest =>
    if isLineTerminator c then ([], false, c :: rest)
    else if c = '/' ∧ inClass = false then (['/'], true, rest)
    else
      let inClass := if c = '[' then true else if c = ']' then false else inClass
      let (taken, closed, rest) := regExpRun inClass rest
      (c :: taken, closed, rest)

/-- A regular expression literal with its flags, after its opening slash. -/
def regExp (start : Nat) (text : List Char) : Lexeme :=
  let (taken, closed, rest) := regExpRun false text
  if closed then
    let (flags, rest) := rest.span isNamePart
    plain .regExp ('/' :: taken ++ flags) rest none
  else
    plain .regExp ('/' :: taken) rest (some ⟨.unclosedRegExp, start⟩)

/-! ### Any lexeme -/

/-- Whether a punctuator stands at the beginning of a text.  `?.` before a digit is a question mark
and the beginning of a number. -/
def punctuatorFits (text : List Char) (p : Punctuator) : Bool :=
  p.text.toList.isPrefixOf text &&
    !(p == .questionDot && startsWithDigit (text.drop 2))

/-- The longest punctuator at the beginning of a text that starts with `c`. -/
def punctuator? (c : Char) (text : List Char) : Option Punctuator :=
  (Punctuator.startingWith c).find? (punctuatorFits text)

/-- The lexeme at the beginning of a text, which does not begin with a gap; `none` when a name
cannot be read. -/
def read (start : Nat) : List Char → Option Lexeme
  | [] => some (plain .endOfText [] [] none)
  | c :: rest =>
    if c = '"' ∨ c = '\'' then some (string start c rest)
    else if c = '\x60' then some (chunk start true c rest)
    else if c.isDigit ∨ (c = '.' ∧ startsWithDigit rest) then some (number start (c :: rest))
    else
      match punctuator? c (c :: rest) with
      | some p =>
        let taken := p.text.toList
        some (plain (.punctuator p) taken ((c :: rest).drop taken.length) none)
      | none =>
        if isNameStart c ∨ c = '\\' then name start (c :: rest)
        else some (plain .unknown [c] rest (some ⟨.invalidCharacter c, start⟩))

end Lexeme

end BindingProxy
