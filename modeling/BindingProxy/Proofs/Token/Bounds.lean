import BindingProxy.Proofs.Token.Tiling
import BindingProxy.Token.Session

/-!
# Reading stays in bounds

A session of reading goes forwards, reads tokens again in another way and goes back to places where
it was before.  Wherever it gets to, its token has four offsets: the token and its value each begin
and end somewhere.  They are in this order, none of them is past the end of the text, and none cuts
through a character.

There is one way in which reading can get stuck.  A short escape in a name covers four bytes, and if
these end inside a character there is no place to go on from.  A text whose short escapes cover ASCII
characters only is read without getting stuck, whatever the steps are.
-/

namespace BindingProxy

/-! ### Offsets of a text -/

/-- An offset that a text can be cut at: it is not past the end and inside no character. -/
def IsBoundary (text : String) (offset : Nat) : Prop :=
  (splitBytes? offset text.toList).isSome = true

/-- A text is cut after any of its beginnings. -/
lemma splitBytes?_append (front rest : List Char) :
    splitBytes? (byteWidth front) (front ++ rest) = some (front, rest) := by
  induction front with
  | nil => rw [List.nil_append, byteWidth_nil, splitBytes?]
  | cons c front ih =>
    obtain ⟨n, hn⟩ : ∃ n, c.utf8Size + byteWidth front = n + 1 :=
      Nat.exists_eq_add_one.2 (Nat.add_pos_left c.utf8Size_pos _)
    have hrest : n + 1 - c.utf8Size = byteWidth front := by omega
    rw [byteWidth_cons, hn, List.cons_append, splitBytes?, if_pos (by omega), hrest, ih]
    rfl

section

variable {text : String} {front part rest : List Char}

lemma isBoundary_of_eq (h : text.toList = front ++ rest) : IsBoundary text (byteWidth front) := by
  rw [IsBoundary, h, splitBytes?_append]
  rfl

lemma slice_of_eq (h : text.toList = front ++ (part ++ rest)) :
    Span.slice ⟨byteWidth front, byteWidth front + byteWidth part⟩ text = String.ofList part := by
  have hlength : byteWidth front + byteWidth part - byteWidth front = byteWidth part := by omega
  rw [Span.slice, if_neg (by simp), h, splitBytes?_append]
  simp only [hlength, splitBytes?_append]

end

/-! ### Offsets of a token -/

namespace Token

/-- The byte offset at which the value of a token begins. -/
def valueStart (t : Token) : Nat := t.start + t.kind.openingWidth

/-- The byte offset just after the value of a token. -/
def valueStop (t : Token) : Nat := t.valueStart + byteWidth t.value.toList

end Token

namespace Cursor

/-- The offsets of a cursor's token are in order, they cut the text between characters, and the
token, its value and the rest are the parts of the text that they cut out. -/
structure InBounds (c : Cursor) (text : String) : Prop where
  start_le : c.token.start ≤ c.token.valueStart
  valueStart_le : c.token.valueStart ≤ c.token.valueStop
  valueStop_le : c.token.valueStop ≤ c.token.stop
  stop_le : c.token.stop ≤ byteWidth text.toList
  boundaries : ∀ offset ∈ [c.token.start, c.token.valueStart, c.token.valueStop, c.token.stop],
    IsBoundary text offset
  text_eq : Span.slice ⟨c.token.start, c.token.stop⟩ text = c.token.text
  value_eq : Span.slice ⟨c.token.valueStart, c.token.valueStop⟩ text = c.token.value
  rest_eq : (splitBytes? c.token.stop text.toList).map Prod.snd = some c.rest

/-- A cursor whose token and rest stand in a text where it says. -/
structure StandsIn (c : Cursor) (text : String) : Prop where
  split : ∃ before, text.toList = before ++ (c.token.text.toList ++ c.rest) ∧
    byteWidth before = c.token.start
  value : ∃ opening closing, c.token.text.toList = opening ++ c.token.value.toList ++ closing ∧
    byteWidth opening = c.token.kind.openingWidth
  punctuator : ∀ p, c.token.kind = .punctuator p → c.token.text = p.text

variable {c : Cursor} {text : String}

lemma StandsIn.inBounds (h : c.StandsIn text) : c.InBounds text := by
  obtain ⟨before, hsplit, hstart⟩ := h.split
  obtain ⟨opening, closing, htext, hopening⟩ := h.value
  have hvalueStart : c.token.valueStart = byteWidth (before ++ opening) := by
    rw [Token.valueStart, ← hstart, ← hopening, byteWidth_append]
  have hvalueStop : c.token.valueStop =
      byteWidth (before ++ opening) + byteWidth c.token.value.toList := by
    rw [Token.valueStop, hvalueStart]
  have hstop : c.token.stop = byteWidth before + byteWidth c.token.text.toList := by
    rw [Token.stop, hstart]
  have hwidth : byteWidth c.token.text.toList =
      byteWidth opening + byteWidth c.token.value.toList + byteWidth closing := by
    rw [htext, byteWidth_append, byteWidth_append]
  have htotal : byteWidth text.toList =
      byteWidth before + byteWidth c.token.text.toList + byteWidth c.rest := by
    rw [hsplit, byteWidth_append, byteWidth_append, Nat.add_assoc]
  have hparts : text.toList =
      (before ++ opening) ++ (c.token.value.toList ++ (closing ++ c.rest)) := by
    rw [hsplit, htext]
    simp only [List.append_assoc]
  have hends : text.toList = (before ++ c.token.text.toList) ++ c.rest := by
    rw [hsplit, List.append_assoc]
  have hvalueEnds : text.toList =
      (before ++ opening ++ c.token.value.toList) ++ (closing ++ c.rest) := by
    rw [hparts, ← List.append_assoc (before ++ opening)]
  constructor
  · rw [hvalueStart, ← hstart, byteWidth_append]
    omega
  · rw [hvalueStop, hvalueStart]
    omega
  · rw [hvalueStop, hstop, hwidth, byteWidth_append]
    omega
  · rw [hstop, htotal]
    omega
  · simp only [List.forall_mem_cons, List.not_mem_nil, false_implies, implies_true, and_true]
    rw [← hstart, hvalueStart, hvalueStop, hstop, ← byteWidth_append, ← byteWidth_append]
    exact ⟨isBoundary_of_eq hsplit, isBoundary_of_eq hparts, isBoundary_of_eq hvalueEnds,
      isBoundary_of_eq hends⟩
  · rw [hstop, ← hstart, slice_of_eq hsplit, String.ofList_toList]
  · rw [hvalueStop, hvalueStart, slice_of_eq hparts, String.ofList_toList]
  · rw [hstop, ← byteWidth_append, hends, splitBytes?_append]
    rfl

/-! ### What the steps keep -/

/-- A lexeme that is taken from a place of a text stands there. -/
lemma standsIn_ofLexeme {before full : List Char} {l : Lexeme} (hsplit : text.toList = before ++ full)
    (hl : l.Takes full) {offset : Nat} (hoffset : byteWidth before = offset) (lineBreak : Bool) :
    (ofLexeme offset lineBreak l).StandsIn text where
  split := by
    refine ⟨before, ?_, hoffset⟩
    rw [ofLexeme, String.toList_ofList, hl.split, hsplit]
  value := by simpa only [ofLexeme, String.toList_ofList] using hl.value
  punctuator p hp := by rw [ofLexeme, hl.punctuator p hp, String.ofList_toList]

lemma standsIn_start (text : String) : (start text).StandsIn text where
  split := ⟨[], by simp [start], rfl⟩
  value := ⟨[], [], rfl, rfl⟩
  punctuator _ hp := nomatch hp

/-- The text of a cursor from the end of its token on. -/
lemma StandsIn.exists_before (h : c.StandsIn text) :
    ∃ before, text.toList = before ++ c.rest ∧ byteWidth before = c.offset := by
  obtain ⟨before, hsplit, hstart⟩ := h.split
  refine ⟨before ++ c.token.text.toList, by rw [hsplit, List.append_assoc], ?_⟩
  rw [byteWidth_append, hstart]
  rfl

lemma StandsIn.next? (h : c.StandsIn text) {c' : Cursor} {flaw : Option Flaw}
    (hnext : c.next? = some (c', flaw)) : c'.StandsIn text := by
  obtain ⟨before, hbefore, hoffset⟩ := h.exists_before
  obtain ⟨l, hread, heq⟩ := Option.map_eq_some_iff.1 hnext
  obtain ⟨gap, hgap, hcovers⟩ := Gap.skips_read c.offset c.rest
  obtain ⟨rfl, rfl⟩ := Prod.mk.inj heq
  have hsplit : text.toList = (before ++ gap) ++ (Gap.read c.offset c.rest).rest := by
    rw [List.append_assoc, ← hgap, hbefore]
  refine standsIn_ofLexeme hsplit (Lexeme.takes_read hread) ?_ _
  rw [byteWidth_append, hoffset, hcovers.offset_eq]

/-- A token that is read again from its second character on. -/
lemma StandsIn.reread (h : c.StandsIn text) {l : Lexeme} {first : Char}
    (hfirst : c.token.text.toList.head? = some first) (hl : l.Takes (first :: c.tail)) :
    (ofLexeme c.token.start c.token.afterLineBreak l).StandsIn text := by
  obtain ⟨before, hsplit, hstart⟩ := h.split
  obtain ⟨tail, htail⟩ := List.head?_eq_some_iff.1 hfirst
  have hfull : c.token.text.toList ++ c.rest = first :: c.tail := by
    rw [Cursor.tail, htail]
    rfl
  exact standsIn_ofLexeme (hsplit.trans (by rw [hfull])) hl hstart _

lemma StandsIn.rereadSlash (h : c.StandsIn text) : c.rereadSlash.1.StandsIn text := by
  unfold Cursor.rereadSlash
  split
  · next hkind => exact h.reread (by rw [h.punctuator _ hkind]; rfl) (Lexeme.takes_regExp _ _)
  · next hkind => exact h.reread (by rw [h.punctuator _ hkind]; rfl) (Lexeme.takes_regExp _ _)
  · exact h

lemma StandsIn.rereadBrace (h : c.StandsIn text) : c.rereadBrace.1.StandsIn text := by
  unfold Cursor.rereadBrace
  split
  · next hkind =>
    exact h.reread (by rw [h.punctuator _ hkind]; rfl) (Lexeme.takes_chunk _ false rfl _)
  · exact h

end Cursor

/-! ### Short escapes -/

/-- The characters that begin within the first `bytes` bytes of a text are ASCII characters. -/
def AsciiWithin (bytes : Nat) (text : List Char) : Prop :=
  ∀ covered c, covered ++ [c] <+: text → byteWidth covered < bytes → c.toNat < 128

/-- The four bytes after a `\u` that is not followed by a brace hold ASCII characters only. -/
def ShortEscapesAscii (text : List Char) : Prop :=
  ∀ rest, '\\' :: 'u' :: rest <:+ text → rest.head? ≠ some '\x7b' → AsciiWithin 4 rest

lemma asciiWithin_cons {bytes : Nat} {c : Char} {text : List Char} :
    AsciiWithin bytes (c :: text) ↔
      (0 < bytes → c.toNat < 128) ∧ AsciiWithin (bytes - c.utf8Size) text := by
  constructor
  · intro h
    refine ⟨fun hpos => h [] c (List.cons_prefix_cons.2 ⟨rfl, List.nil_prefix⟩) hpos, ?_⟩
    intro covered d hfront hwidth
    exact h (c :: covered) d (List.cons_prefix_cons.2 ⟨rfl, hfront⟩)
      (by rw [byteWidth_cons]; omega)
  · rintro ⟨hc, htext⟩ covered d hfront hwidth
    cases covered with
    | nil =>
      obtain ⟨rfl, _⟩ := List.cons_prefix_cons.1 hfront
      exact hc (by simpa using hwidth)
    | cons e covered =>
      obtain ⟨rfl, hcovered⟩ := List.cons_prefix_cons.1 hfront
      exact htext covered d hcovered (by rw [byteWidth_cons] at hwidth; omega)

lemma shortEscapesAscii_cons {c : Char} {text : List Char} :
    ShortEscapesAscii (c :: text) ↔
      (c = '\\' → text.head? = some 'u' → text.tail.head? ≠ some '\x7b' →
        AsciiWithin 4 text.tail) ∧ ShortEscapesAscii text := by
  constructor
  · intro h
    refine ⟨?_, fun rest hrest => h rest (hrest.trans (List.suffix_cons c text))⟩
    rintro rfl hu hbrace
    obtain ⟨rest, rfl⟩ := List.head?_eq_some_iff.1 hu
    exact h rest (List.suffix_refl _) hbrace
  · rintro ⟨hhere, htext⟩ rest hrest hbrace
    rcases List.suffix_cons_iff.1 hrest with heq | hlater
    · obtain ⟨rfl, rfl⟩ := List.cons.inj heq
      exact hhere rfl rfl hbrace
    · exact htext rest hlater hbrace

instance AsciiWithin.decidable : (bytes : Nat) → (text : List Char) → Decidable (AsciiWithin bytes text)
  | _, [] => isTrue fun covered c hfront => by simp at hfront
  | bytes, c :: text =>
    have := AsciiWithin.decidable (bytes - c.utf8Size) text
    decidable_of_iff _ asciiWithin_cons.symm

instance ShortEscapesAscii.decidable : (text : List Char) → Decidable (ShortEscapesAscii text)
  | [] => isTrue fun rest hrest => by simp at hrest
  | _ :: text =>
    have := ShortEscapesAscii.decidable text
    decidable_of_iff _ shortEscapesAscii_cons.symm

lemma ShortEscapesAscii.suffix {text rest : List Char} (h : ShortEscapesAscii text)
    (hrest : rest <:+ text) : ShortEscapesAscii rest :=
  fun _ hescape => h _ (hescape.trans hrest)

lemma ShortEscapesAscii.tail {c : Char} {text : List Char} (h : ShortEscapesAscii (c :: text)) :
    ShortEscapesAscii text :=
  h.suffix (List.suffix_cons c text)

lemma utf8Size_of_ascii {c : Char} (h : c.toNat < 128) : c.utf8Size = 1 :=
  Char.utf8Size_eq_one_iff.2 (UInt32.le_iff_toNat_le.2 (Nat.le_of_lt_succ h))

namespace Lexeme

/-- A text that a name can be read from in a mode. -/
def ReadableIn (text : List Char) : NameMode → Prop
  | .parts | .bracedEscape => ShortEscapesAscii text
  | .shortEscape bytes => ShortEscapesAscii text ∧ 0 < bytes ∧ AsciiWithin bytes text

/-- Where short escapes cover ASCII characters only, every name can be read. -/
theorem exists_nameRun {mode : NameMode} {text : List Char} (h : ReadableIn text mode)
    (start : Nat) : ∃ run, nameRun mode start text = some run := by
  have hmap : ∀ {f : List Char × Option Flaw × List Char → List Char × Option Flaw × List Char}
      {run : Option (List Char × Option Flaw × List Char)}, (∃ r, run = some r) →
        ∃ r, run.map f = some r := by
    rintro f _ ⟨r, rfl⟩
    exact ⟨f r, rfl⟩
  fun_induction nameRun mode start text with
  | case1 => exact ⟨_, rfl⟩
  | case2 start rest ih => exact hmap (ih h.tail.tail.tail)
  | case3 start rest hbrace ih =>
    refine hmap (ih ⟨h.tail.tail, by omega, h rest (List.suffix_refl _) fun hhead => ?_⟩)
    obtain ⟨rest', hrest⟩ := List.head?_eq_some_iff.1 hhead
    exact hbrace rest' hrest
  | case4 start rest _ _ ih => exact hmap (ih h.tail)
  | case5 start c rest _ _ _ _ ih => exact hmap (ih h.tail)
  | case6 => exact ⟨_, rfl⟩
  | case7 start c rest ih =>
    refine hmap (ih ?_)
    split <;> exact h.tail
  | case8 bytes start c rest hwidth ih =>
    obtain ⟨hescapes, hpos, hascii⟩ := h
    refine hmap (ih ?_)
    split
    · exact hescapes.tail
    · next hne =>
      exact ⟨hescapes.tail, by omega, (asciiWithin_cons.1 hascii).2⟩
  | case9 bytes start c rest hwidth =>
    obtain ⟨_, hpos, hascii⟩ := h
    have hc := (asciiWithin_cons.1 hascii).1 hpos
    rw [utf8Size_of_ascii hc] at hwidth
    exact absurd hpos hwidth

/-- Where short escapes cover ASCII characters only, every lexeme can be read. -/
lemma exists_read {text : List Char} (h : ShortEscapesAscii text) (start : Nat) :
    ∃ l, read start text = some l := by
  cases text with
  | nil => exact ⟨_, rfl⟩
  | cons c rest =>
    have hparts : ReadableIn (c :: rest) .parts := h
    obtain ⟨run, hrun⟩ := exists_nameRun hparts start
    have hname : ∃ l, name start (c :: rest) = some l := by
      rw [name, hrun]
      exact ⟨_, rfl⟩
    simp only [read]
    split
    · exact ⟨_, rfl⟩
    split
    · exact ⟨_, rfl⟩
    split
    · exact ⟨_, rfl⟩
    split
    · exact ⟨_, rfl⟩
    split
    · exact hname
    · exact ⟨_, rfl⟩

end Lexeme

/-- A cursor in such a text has a next token. -/
lemma Cursor.StandsIn.exists_next? {c : Cursor} {text : String} (h : c.StandsIn text)
    (hescapes : ShortEscapesAscii text.toList) : ∃ reached, c.next? = some reached := by
  obtain ⟨before, hbefore, _⟩ := h.exists_before
  obtain ⟨gap, hgap, _⟩ := Gap.skips_read c.offset c.rest
  have hsuffix : (Gap.read c.offset c.rest).rest <:+ text.toList :=
    ⟨before ++ gap, by rw [List.append_assoc, ← hgap, hbefore]⟩
  obtain ⟨l, hl⟩ := Lexeme.exists_read (hescapes.suffix hsuffix) (Gap.read c.offset c.rest).offset
  rw [Cursor.next?, hl]
  exact ⟨_, rfl⟩

/-! ### Sessions -/

namespace ReadSession

/-- The cursors of a session stand in a text. -/
def StandsIn (s : ReadSession) (text : String) : Prop :=
  s.cursor.StandsIn text ∧ ∀ c ∈ s.saved, c.StandsIn text

/-- A step keeps the cursors in the text. -/
lemma StandsIn.step {s s' : ReadSession} {text : String} (h : s.StandsIn text) {step : ReadStep}
    {flaw : Option Flaw} (hstep : s.step step = some (s', flaw)) : s'.StandsIn text := by
  obtain ⟨hcursor, hsaved⟩ := h
  cases step with
  | next =>
    obtain ⟨⟨c, flaw'⟩, hnext, heq⟩ := Option.map_eq_some_iff.1 hstep
    cases heq
    exact ⟨hcursor.next? hnext, hsaved⟩
  | rereadSlash =>
    cases hstep
    exact ⟨hcursor.rereadSlash, hsaved⟩
  | rereadBrace =>
    cases hstep
    exact ⟨hcursor.rereadBrace, hsaved⟩
  | save =>
    cases hstep
    exact ⟨hcursor, List.forall_mem_cons.2 ⟨hcursor, hsaved⟩⟩
  | restore =>
    rw [ReadSession.step] at hstep
    split at hstep
    · cases hstep
      exact ⟨hcursor, hsaved⟩
    · next c saved hs =>
      cases hstep
      rw [hs] at hsaved
      exact List.forall_mem_cons.1 hsaved
  | takeFlaw =>
    cases hstep
    exact ⟨hcursor, hsaved⟩

/-- Where short escapes cover ASCII characters only, no step gets stuck. -/
lemma StandsIn.exists_step {s : ReadSession} {text : String} (h : s.StandsIn text)
    (hescapes : ShortEscapesAscii text.toList) (step : ReadStep) :
    ∃ reached, s.step step = some reached := by
  cases step with
  | next =>
    obtain ⟨reached, hnext⟩ := h.1.exists_next? hescapes
    rw [ReadSession.step, hnext]
    exact ⟨_, rfl⟩
  | restore =>
    rw [ReadSession.step]
    split <;> exact ⟨_, rfl⟩
  | _ => exact ⟨_, rfl⟩

/-- Where short escapes cover ASCII characters only, no run gets stuck, and it stays in the text. -/
lemma StandsIn.exists_run {s : ReadSession} {text : String} (h : s.StandsIn text)
    (hescapes : ShortEscapesAscii text.toList) (steps : List ReadStep) :
    ∃ reached, s.run steps = some reached ∧ ∀ r ∈ reached, r.1.StandsIn text := by
  induction steps generalizing s with
  | nil => exact ⟨[], rfl, by simp⟩
  | cons step steps ih =>
    obtain ⟨⟨s', flaw⟩, hstep⟩ := h.exists_step hescapes step
    obtain ⟨later, hlater, hall⟩ := ih (h.step hstep)
    refine ⟨(s', flaw) :: later, ?_, List.forall_mem_cons.2 ⟨h.step hstep, hall⟩⟩
    rw [run, hstep]
    change (s'.run steps).bind (fun later => some ((s', flaw) :: later)) = _
    rw [hlater]
    rfl

/-- The sessions that are reached from the beginning of a text, each with the cursors that were saved
on the way.  Besides its steps, a session may go back to any of these cursors, in whatever order and
more than once. -/
inductive Reached (text : String) : ReadSession → List Cursor → Prop where
  | start : Reached text (.start text) []
  | step {s s' : ReadSession} {saved : List Cursor} {flaw : Option Flaw} (step : ReadStep)
    (hs : Reached text s saved) (hstep : s.step step = some (s', flaw)) :
    Reached text s' (if step = .save then s.cursor :: saved else saved)
  | goBack {s : ReadSession} {saved : List Cursor} {c : Cursor} (hs : Reached text s saved)
    (hc : c ∈ saved) : Reached text { s with cursor := c } saved

lemma Reached.standsIn {text : String} {s : ReadSession} {saved : List Cursor}
    (h : Reached text s saved) : s.StandsIn text ∧ ∀ c ∈ saved, c.StandsIn text := by
  induction h with
  | start => exact ⟨⟨Cursor.standsIn_start text, by simp [ReadSession.start]⟩, by simp⟩
  | step step _ hstep ih =>
    refine ⟨ih.1.step hstep, ?_⟩
    split
    · exact List.forall_mem_cons.2 ⟨ih.1.1, ih.2⟩
    · exact ih.2
  | goBack _ hc ih => exact ⟨⟨ih.2 _ hc, ih.1.2⟩, ih.2⟩

end ReadSession

/-- A short escape that ends inside a character is where reading gets stuck. -/
example : (Cursor.start "\\u000\u00e9").next? = none := by decide

end BindingProxy
