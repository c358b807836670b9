import BindingProxy.Text.Bytes

/-!
# Spans

A half-open range of byte offsets into a text.  Nothing forces the start before the end: a reversed
span is empty, and its slice is the empty text.
-/

namespace BindingProxy

/-- The byte range from `start` up to, not including, `stop`. -/
structure Span where
  start : Nat
  stop : Nat
deriving Repr, DecidableEq, Inhabited

namespace Span

/-- The span of no bytes at an offset. -/
def point (offset : Nat) : Span := ⟨offset, offset⟩

/-- The number of bytes, zero for a reversed span. -/
def length (s : Span) : Nat := s.stop - s.start

/-- A span that holds no byte. -/
def isEmpty (s : Span) : Bool := s.stop ≤ s.start

/-- The smallest span that holds both. -/
def cover (s t : Span) : Span := ⟨min s.start t.start, max s.stop t.stop⟩

/-- The text under a span; empty when the span is reversed, reaches past the end or cuts through a
character. -/
def slice (s : Span) (text : String) : String :=
  if s.stop < s.start then ""
  else
    match splitBytes? s.start text.toList with
    | none => ""
    | some (_, rest) =>
      match splitBytes? (s.stop - s.start) rest with
      | none => ""
      | some (taken, _) => String.ofList taken

end Span

end BindingProxy
