import BindingProxy.Text.Bytes

/-!
# Code buffers

Code is written by steps: a piece of text, a line break, the indentation of the current level, and
one level further in or out.  A buffer carries out such steps; how a level and a line break look is
its layout.
-/

namespace BindingProxy

/-- What one level of indentation and a line break look like. -/
structure Layout where
  indent : String := "  "
  newLine : String := "\n"
deriving Repr, DecidableEq, Inhabited

/-- A step of writing code. -/
inductive CodeStep where
  | text (s : String)
  | newLine
  /-- Writes the indentation of the current level. -/
  | indent
  | deeper
  | shallower
deriving Repr, DecidableEq, Inhabited

/-- The code written so far and the current level. -/
structure CodeBuffer where
  layout : Layout
  output : String := ""
  level : Nat := 0
deriving Repr, DecidableEq, Inhabited

namespace CodeBuffer

/-- The buffer after one more piece of text. -/
def append (b : CodeBuffer) (s : String) : CodeBuffer := { b with output := b.output ++ s }

/-- The indentation of the current level. -/
def indentation (b : CodeBuffer) : String :=
  String.join (List.replicate b.level b.layout.indent)

/-- Carries out a step.  The outermost level has none outside it. -/
def step (b : CodeBuffer) : CodeStep → CodeBuffer
  | .text s => b.append s
  | .newLine => b.append b.layout.newLine
  | .indent => b.append b.indentation
  | .deeper => { b with level := b.level + 1 }
  | .shallower => { b with level := b.level - 1 }

/-- Carries out steps from the first to the last. -/
def run (b : CodeBuffer) (steps : List CodeStep) : CodeBuffer := steps.foldl step b

/-- The number of bytes written. -/
def size (b : CodeBuffer) : Nat := byteWidth b.output.toList

end CodeBuffer

/-- The code that steps write from the outermost level on. -/
def Layout.render (layout : Layout) (steps : List CodeStep) : String :=
  (CodeBuffer.run ⟨layout, "", 0⟩ steps).output

end BindingProxy
