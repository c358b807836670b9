import BindingProxy.Proofs.Grammar.Progress
import BindingProxy.Proofs.Text.Lines
import BindingProxy.Proofs.Token.PlainText

/-!
# Where errors point

A script is refused at a token that reading has come to, or at a flaw that it has met: in a gap, in
the next token, or in a token that is read again.  All of these lie in the script and cut no
character, so the error of every refused script points into it.  The line and the column that go with
the error are those that the bytes before it give.
-/

namespace BindingProxy

open Relation (ReflTransGen)

/-! ### Offsets of flaws -/

/-- A text that begins at `start` can be cut at `offset`, where no line ends. -/
def CutAt (start : Nat) (text : List Char) (offset : Nat) : Prop :=
  ∃ front rest, text = front ++ rest ∧ offset = start + byteWidth front ∧ rest.head? ≠ some '\n'

namespace CutAt

variable {start offset : Nat} {text : List Char}

lemma first (start : Nat) (h : text.head? ≠ some '\n') : CutAt start text start :=
  ⟨[], text, rfl, rfl, h⟩

lemma after (front : List Char) (h : CutAt (start + byteWidth front) text offset) :
    CutAt start (front ++ text) offset := by
  obtain ⟨taken, rest, rfl, rfl, hrest⟩ := h
  refine ⟨front ++ taken, rest, (List.append_assoc ..).symm, ?_, hrest⟩
  rw [byteWidth_append, Nat.add_assoc]

end CutAt

namespace Lexeme

variable {start : Nat} {text : List Char} {flaw : Flaw}

/-- A stray backslash stands in the name. -/
lemma cutAt_of_nameRun {mode : NameMode} {taken rest : List Char}
    (h : nameRun mode start text = some (taken, some flaw, rest)) : CutAt start text flaw.offset := by
  fun_induction nameRun mode start text generalizing taken rest with
  | case1 | case6 => cases h
  | case9 => cases h
  | case2 start text ih =>
    obtain ⟨_, _, hrun⟩ := exists_of_map_front ['\\', 'u', '\x7b'] h
    exact .after ['\\', 'u', '\x7b'] (ih hrun)
  | case3 start text _ ih =>
    obtain ⟨_, _, hrun⟩ := exists_of_map_front ['\\', 'u'] h
    exact .after ['\\', 'u'] (ih hrun)
  | case4 start text =>
    obtain ⟨_, _, heq⟩ := Option.map_eq_some_iff.1 h
    cases heq
    exact .first _ (by simp)
  | case5 start c text _ _ _ _ ih | case7 start c text ih | case8 _ start c text _ ih =>
    obtain ⟨_, _, hrun⟩ := exists_of_map_front [c] h
    exact .after [c] (ih hrun)

/-- An exponent without digits is left where it stands. -/
lemma head?_of_missing (h : (magnitude text).2.2 = true) :
    (magnitude text).2.1.head? ≠ some '\n' := by
  have hexponent : ∀ rest, (exponent rest).2.2 = true → (exponent rest).2.1.head? ≠ some '\n' := by
    intro rest
    cases rest with
    | nil => exact fun h => absurd h (by decide)
    | cons c rest =>
      rw [exponent]
      by_cases hmark : c = 'e' ∨ c = 'E'
      · rw [if_pos hmark]
        by_cases hdigit : startsWithDigit (sign rest).2 = true
        · exact fun h => absurd h (by simp [hdigit])
        · rcases hmark with rfl | rfl <;> simp [hdigit]
      · rw [if_neg hmark]
        exact fun h => absurd h (by simp)
  unfold magnitude at h ⊢
  split at h
  · exact hexponent _ h
  · cases h

/-- What is wrong with a number stands right after it. -/
lemma cutAt_of_number (h : (number start text).flaw = some flaw) : CutAt start text flaw.offset := by
  have hbody := magnitude_split text
  have htaken : (magnitude text).1 ++ (bigIntMark (magnitude text).2.1).1 ++
      (bigIntMark (magnitude text).2.1).2 = text := by
    rw [List.append_assoc, bigIntMark_split, hbody]
  simp only [number, plain] at h
  split at h
  · next hmissing =>
    cases h
    exact ⟨_, _, hbody.symm, rfl, head?_of_missing hmissing⟩
  split at h
  · next hname =>
    cases h
    refine ⟨_, _, htaken.symm, rfl, fun hfeed => ?_⟩
    obtain ⟨after, hafter⟩ := List.head?_eq_some_iff.1 hfeed
    rw [hafter] at hname
    exact absurd hname (by rw [startsWithName]; decide)
  · cases h

lemma offset_of_chunk {first : Bool} {opening : Char}
    (h : (chunk start first opening text).flaw = some flaw) : flaw.offset = start := by
  simp only [chunk] at h
  split at h
  · cases h
    rfl
  · cases h

lemma offset_of_regExp (h : (regExp start text).flaw = some flaw) : flaw.offset = start := by
  simp only [regExp] at h
  split at h
  · cases h
  · cases h
    rfl

lemma offset_of_string {quote : Char} (h : (string start quote text).flaw = some flaw) :
    flaw.offset = start := by
  simp only [string, plain] at h
  split at h
  · cases h
  · cases h
    rfl

/-- The flaw of a lexeme stands in the text that it is read from. -/
lemma cutAt_of_read {l : Lexeme} (h : read start text = some l) (hflaw : l.flaw = some flaw)
    (hhead : text.head? ≠ some '\n') : CutAt start text flaw.offset := by
  have hstart : flaw.offset = start → CutAt start text flaw.offset := fun heq => heq ▸ .first _ hhead
  cases reading_of_read h with
  | endOfText | punctuator => cases hflaw
  | string => exact hstart (offset_of_string hflaw)
  | chunk => exact hstart (offset_of_chunk hflaw)
  | number => exact cutAt_of_number hflaw
  | name _ hname =>
    obtain ⟨⟨taken, _, rest⟩, hrun, rfl⟩ := Option.map_eq_some_iff.1 hname
    obtain rfl := hflaw
    exact cutAt_of_nameRun hrun
  | unknown =>
    cases hflaw
    exact .first _ hhead

end Lexeme

/-- No line ends where a gap does. -/
lemma Gap.head?_rest_skip (mode : Gap.Mode) (offset : Nat) (lineBreak : Bool) (text : List Char) :
    (Gap.skip mode offset lineBreak text).rest.head? ≠ some '\n' := by
  fun_induction Gap.skip mode offset lineBreak text with
  | case7 offset lineBreak c text hline hblock _ hbreak hblank =>
    rintro ⟨⟩
    exact hbreak rfl
  | _ => first | assumption | simp

/-- A comment that is not closed begins in its gap. -/
lemma GapText.cutAt {offset : Nat} {gap rest : List Char} {flaw : Flaw}
    (h : GapText offset gap rest (some flaw)) : CutAt offset (gap ++ rest) flaw.offset := by
  generalize hflaw : some flaw = reported at h
  induction h with
  | nil => cases hflaw
  | unclosed =>
    cases hflaw
    exact .first _ (by simp)
  | @cons _ item _ _ _ _ _ ih =>
    rw [List.append_assoc]
    exact .after item (ih hflaw)

namespace Cursor

variable {c c' : Cursor} {text : String} {flaw : Flaw}

/-- A flaw that is met on the way to the next token stands in the text. -/
lemma StandsIn.cutAt_of_next? (h : c.StandsIn text) (hnext : c.next? = some (c', some flaw)) :
    CutAt 0 text.toList flaw.offset := by
  obtain ⟨before, hbefore, hoffset⟩ := h.exists_before
  obtain ⟨l, hread, heq⟩ := Option.map_eq_some_iff.1 hnext
  obtain ⟨gap, hgap, hcovers⟩ := Gap.skips_read c.offset c.rest
  have hrest : CutAt c.offset c.rest flaw.offset := by
    rw [hgap]
    rcases Option.or_eq_some_iff.1 (Prod.mk.inj heq).2 with hflaw | ⟨_, hflaw⟩
    · have hitems := hcovers.items
      rw [hflaw] at hitems
      exact hitems.cutAt
    · rw [hcovers.offset_eq] at hread
      exact .after gap (Lexeme.cutAt_of_read hread hflaw
        (Gap.head?_rest_skip .between c.offset false c.rest))
  rw [hbefore]
  refine .after before ?_
  rwa [Nat.zero_add, hoffset]

/-- A token that is read again is flawed where it begins. -/
lemma offset_of_reread (h : c.rereadSlash = (c', some flaw) ∨ c.rereadBrace = (c', some flaw)) :
    flaw.offset = c.token.start := by
  rcases h with h | h
  · unfold rereadSlash at h
    split at h
    · exact Lexeme.offset_of_regExp (Prod.mk.inj h).2
    · exact Lexeme.offset_of_regExp (Prod.mk.inj h).2
    · cases h
  · unfold rereadBrace at h
    split at h
    · exact Lexeme.offset_of_chunk (Prod.mk.inj h).2
    · cases h

end Cursor

/-! ### Spans of errors -/

/-- A span with its ends in order, in the text and between characters. -/
structure Span.LiesIn (s : Span) (text : String) : Prop where
  start_le : s.start ≤ s.stop
  stop_le : s.stop ≤ (bytesOf text).length
  start_boundary : IsBoundary text s.start
  stop_boundary : IsBoundary text s.stop

lemma Span.liesIn_point {text : String} {front rest : List Char} (h : text.toList = front ++ rest) :
    (Span.point (byteWidth front)).LiesIn text where
  start_le := Nat.le_refl _
  stop_le := by
    rw [length_bytesOf, h, byteWidth_append]
    exact Nat.le_add_right _ _
  start_boundary := isBoundary_of_eq h
  stop_boundary := isBoundary_of_eq h

namespace Cursor

variable {c : Cursor} {text : String}

lemma StandsIn.liesIn_span (h : c.StandsIn text) : c.token.span.LiesIn text where
  start_le := Nat.le_add_right _ _
  stop_le := by
    rw [length_bytesOf]
    exact h.inBounds.stop_le
  start_boundary := h.inBounds.boundaries _ (by simp [Token.span])
  stop_boundary := h.inBounds.boundaries _ (by simp [Token.span])

/-- What is refused at a cursor lies in the text that the cursor stands in. -/
lemma Refuses.liesIn {e : SyntaxError} (he : c.Refuses e) (h : c.StandsIn text) :
    e.span.LiesIn text := by
  have hreread : ∀ {flaw : Flaw} {c' : Cursor},
      c.rereadSlash = (c', some flaw) ∨ c.rereadBrace = (c', some flaw) →
        (Span.point flaw.offset).LiesIn text := by
    intro flaw c' hflaw
    obtain ⟨before, hsplit, hstart⟩ := h.split
    rw [offset_of_reread hflaw, ← hstart]
    exact Span.liesIn_point hsplit
  cases he with
  | token cause => exact h.liesIn_span
  | next hnext =>
    obtain ⟨front, rest, hsplit, hoffset, _⟩ := h.cutAt_of_next? hnext
    rw [hoffset, Nat.zero_add]
    exact Span.liesIn_point hsplit
  | slash hflaw => exact hreread (.inl hflaw)
  | brace hflaw => exact hreread (.inr hflaw)

end Cursor

/-- A script is refused where some moves lead from its beginning. -/
lemma exists_refuses_of_parse {text : String} {e : SyntaxError}
    (h : parse text = .error (.refused e)) :
    ∃ c, ReflTransGen Cursor.Moves (Cursor.start text) c ∧ c.Refuses e := by
  have hgoes := Grammar.goes_program (Grammar.advancing_level Grammar.maxNesting) (.start text)
  unfold parse at h
  cases hread : (Grammar.level Grammar.maxNesting).program (.start text) with
  | ok tree c =>
    rw [hread] at h
    cases h
  | fail failure =>
    rw [hread] at h
    cases h
    exact hgoes.fails hread

/-- The error with which a script is refused. -/
def refusal? : Except ParseFailure Node → Option SyntaxError
  | .error (.refused error) => some error
  | _ => none

lemma eq_of_refusal? {result : Except ParseFailure Node} {error : SyntaxError}
    (h : refusal? result = some error) : result = .error (.refused error) := by
  unfold refusal? at h
  split at h
  · rw [Option.some.inj h]
  · cases h

end BindingProxy
