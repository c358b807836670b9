import BindingProxy.Text.Blank

/-!
# Log formats

The format of log output is chosen by a word, which may have blanks around it and be written in any
case.
-/

namespace BindingProxy

/-- A format of log output. -/
inductive LogFormat where
  | text | tree | json
deriving Repr, DecidableEq, Inhabited

/-- A text without the white space around it. -/
def trimBlanks (cs : List Char) : List Char :=
  ((cs.dropWhile isWhiteSpace).reverse.dropWhile isWhiteSpace).reverse

/-- The format that a word stands for; plain text if it stands for none. -/
def LogFormat.ofWord (word : String) : LogFormat :=
  let name := String.ofList ((trimBlanks word.toList).map Char.toLower)
  if name == "tree" then tree else if name == "json" then json else text

end BindingProxy
