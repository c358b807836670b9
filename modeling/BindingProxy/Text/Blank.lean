/-!
# White space and line breaks

The characters that may stand between two tokens.  A line terminator ends a line for the rules on
automatic semicolons; the other blanks do not.
-/

namespace BindingProxy

/-- A character with the Unicode property `White_Space`. -/
def isWhiteSpace (c : Char) : Bool :=
  let n := c.toNat
  (0x9 ≤ n && n ≤ 0xd) || n == 0x20 || n == 0x85 || n == 0xa0 || n == 0x1680 ||
    (0x2000 ≤ n && n ≤ 0x200a) || n == 0x2028 || n == 0x2029 || n == 0x202f || n == 0x205f ||
    n == 0x3000

/-- A character that ends a line of a script. -/
def isLineTerminator (c : Char) : Bool :=
  c == '\n' || c == '\r' || c == '\u2028' || c == '\u2029'

/-- A line feed or a carriage return: only these two end a comment and break a string. -/
def isLineFeed (c : Char) : Bool :=
  c == '\n' || c == '\r'

/-- A character that is skipped between tokens; the byte order mark counts as one. -/
def isBlank (c : Char) : Bool :=
  isWhiteSpace c || c == '\ufeff'

end BindingProxy
