/-!
# Byte offsets into a text

Positions in a script count the bytes of its UTF-8 form, while the text itself is read as a list of
characters.  `byteWidth` measures a run of characters, and `splitBytes?` cuts a text after a number
of bytes, which is possible only between two characters.
-/

namespace BindingProxy

/-- The number of bytes that the characters take. -/
def byteWidth : List Char → Nat
  | [] => 0
  | c :: cs => c.utf8Size + byteWidth cs

/-- The characters of the first `n` bytes and the characters after them; `none` when the text is
shorter or the cut would fall inside a character. -/
def splitBytes? : Nat → List Char → Option (List Char × List Char)
  | 0, cs => some ([], cs)
  | _ + 1, [] => none
  | n + 1, c :: cs =>
    if c.utf8Size ≤ n + 1 then
      (splitBytes? (n + 1 - c.utf8Size) cs).map fun (taken, rest) => (c :: taken, rest)
    else
      none

@[simp] theorem byteWidth_nil : byteWidth [] = 0 := rfl

@[simp] theorem byteWidth_cons (c : Char) (cs : List Char) :
    byteWidth (c :: cs) = c.utf8Size + byteWidth cs := rfl

@[simp] theorem byteWidth_append (cs ds : List Char) :
    byteWidth (cs ++ ds) = byteWidth cs + byteWidth ds := by
  induction cs with
  | nil => simp
  | cons c cs ih => simp [ih, Nat.add_assoc]

end BindingProxy
