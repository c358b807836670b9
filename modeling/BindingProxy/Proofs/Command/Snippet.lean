import BindingProxy.Proofs.Files.Components
import BindingProxy.Proofs.Grammar.ErrorPlaces

/-!
# What a report underlines

Three notions of a place meet in a report: columns count bytes, lines are quoted without what ends
them, and the underline is moved by as many blanks as the column says.  `OnLine` cuts a text at a place
into the lines before it, its own line, and what follows.  No script is refused at the end of a line,
so what stands before the place is quoted in full, and the underline begins below the place unless
a character before it on the line takes more than one byte.
-/

namespace BindingProxy

open Relation (ReflTransGen)

/-! ### Places on lines -/

/-- Lines with the line feeds that end them. -/
def closedLines (lines : List (List Char)) : List Char := lines.flatMap (· ++ ['\n'])

/-- A place of a text: the lines before it, its own line up to it and from it on, and what follows the
line. -/
structure OnLine (text : List Char) (offset : Nat) (earlier : List (List Char))
    (front back after : List Char) : Prop where
  text_eq : text = closedLines earlier ++ (front ++ (back ++ after))
  offset_eq : offset = byteWidth (closedLines earlier) + byteWidth front
  earlier_open : ∀ line ∈ earlier, '\n' ∉ line
  front_open : '\n' ∉ front
  back_open : '\n' ∉ back
  after_closes : after = [] ∨ ∃ later, after = '\n' :: later

/-- Every text is made of closed lines and an open one. -/
lemma exists_closedLines (text : List Char) : ∃ lines last,
    text = closedLines lines ++ last ∧ (∀ line ∈ lines, '\n' ∉ line) ∧ '\n' ∉ last := by
  induction text with
  | nil => exact ⟨[], [], rfl, by simp, by simp⟩
  | cons c text ih =>
    obtain ⟨lines, last, rfl, hlines, hlast⟩ := ih
    by_cases hc : c = '\n'
    · exact ⟨[] :: lines, last, by simp [closedLines, hc], by simpa using hlines, hlast⟩
    have hcons : ∀ line, '\n' ∉ line → '\n' ∉ c :: line := fun line hline hmem =>
      (List.mem_cons.1 hmem).elim (fun heq => hc heq.symm) hline
    cases lines with
    | nil => exact ⟨[], c :: last, rfl, by simp, hcons last hlast⟩
    | cons line lines =>
      obtain ⟨hline, hlines⟩ := List.forall_mem_cons.1 hlines
      exact ⟨(c :: line) :: lines, last, rfl, List.forall_mem_cons.2 ⟨hcons line hline, hlines⟩, hlast⟩

/-- Every text can be cut between two characters so. -/
lemma exists_onLine (before rest : List Char) : ∃ earlier front back after,
    OnLine (before ++ rest) (byteWidth before) earlier front back after ∧
      before = closedLines earlier ++ front ∧ rest = back ++ after := by
  obtain ⟨earlier, front, rfl, hearlier, hfront⟩ := exists_closedLines before
  obtain ⟨lines, last, rfl, hlines, hlast⟩ := exists_closedLines rest
  have hafter : ∃ back after, closedLines lines ++ last = back ++ after ∧ '\n' ∉ back ∧
      (after = [] ∨ ∃ later, after = '\n' :: later) := by
    cases lines with
    | nil => exact ⟨last, [], by simp [closedLines], hlast, .inl rfl⟩
    | cons line lines =>
      exact ⟨line, '\n' :: (closedLines lines ++ last), by simp [closedLines],
        (List.forall_mem_cons.1 hlines).1, .inr ⟨_, rfl⟩⟩
  obtain ⟨back, after, hrest, hback, hcloses⟩ := hafter
  refine ⟨earlier, front, back, after, ⟨?_, ?_, hearlier, hfront, hback, hcloses⟩, rfl, hrest⟩
  · rw [hrest, List.append_assoc]
  · rw [byteWidth_append]

/-! ### Positions -/

namespace LineMap

lemma laterStarts_append (offset : Nat) (xs ys : List Char) :
    laterStarts offset (xs ++ ys) =
      laterStarts offset xs ++ laterStarts (offset + byteWidth xs) ys := by
  induction xs generalizing offset with
  | nil => rfl
  | cons c xs ih =>
    have htail := ih (offset + c.utf8Size)
    rw [Nat.add_assoc, ← byteWidth_cons] at htail
    simp only [List.cons_append, laterStarts, htail]
    split <;> rfl

lemma laterStarts_of_not_mem {line : List Char} (h : '\n' ∉ line) (offset : Nat) :
    laterStarts offset line = [] := by
  induction line generalizing offset with
  | nil => rfl
  | cons c line ih =>
    rw [List.mem_cons, not_or] at h
    rw [laterStarts, if_neg fun hc => h.1 hc.symm, ih h.2]

/-- One more line starts for each closed line, the last of them after all of these. -/
lemma starts_closedLines {lines : List (List Char)} (h : ∀ line ∈ lines, '\n' ∉ line) (offset : Nat) :
    (laterStarts offset (closedLines lines)).length = lines.length ∧
      (offset :: laterStarts offset (closedLines lines)).getLastD 0 =
        offset + byteWidth (closedLines lines) ∧
      ∀ start ∈ laterStarts offset (closedLines lines),
        start ≤ offset + byteWidth (closedLines lines) := by
  induction lines generalizing offset with
  | nil => exact ⟨rfl, rfl, by simp [closedLines, laterStarts]⟩
  | cons line lines ih =>
    obtain ⟨hline, hlines⟩ := List.forall_mem_cons.1 h
    obtain ⟨hlength, hlast, hle⟩ := ih hlines (offset + byteWidth line + 1)
    have hfeed : laterStarts (offset + byteWidth line) ('\n' :: closedLines lines) =
        (offset + byteWidth line + 1) ::
          laterStarts (offset + byteWidth line + 1) (closedLines lines) := rfl
    have hstarts : laterStarts offset (closedLines (line :: lines)) =
        (offset + byteWidth line + 1) ::
          laterStarts (offset + byteWidth line + 1) (closedLines lines) := by
      rw [closedLines, List.flatMap_cons, List.append_assoc, laterStarts_append,
        laterStarts_of_not_mem hline, List.nil_append]
      exact hfeed
    have hwidth : offset + byteWidth (closedLines (line :: lines)) =
        offset + byteWidth line + 1 + byteWidth (closedLines lines) := by
      rw [closedLines, List.flatMap_cons, byteWidth_append, byteWidth_append]
      change offset + (byteWidth line + 1 + byteWidth (closedLines lines)) = _
      omega
    rw [hstarts, hwidth]
    refine ⟨by rw [List.length_cons, hlength]; rfl, ?_, ?_⟩
    · rw [← hlast]
      rfl
    · exact List.forall_mem_cons.2 ⟨Nat.le_add_right _ _, hle⟩

/-- The position of a place: one more than the lines before it, and one more than the bytes before it
on its line. -/
lemma position_of_onLine {text : String} {offset : Nat} {earlier : List (List Char)}
    {front back after : List Char} (h : OnLine text.toList offset earlier front back after) :
    (ofText text).position offset = ⟨earlier.length + 1, byteWidth front + 1⟩ := by
  obtain ⟨hlength, hlast, hle⟩ := starts_closedLines h.earlier_open 0
  rw [Nat.zero_add] at hlast hle
  have hstarts : laterStarts 0 text.toList = laterStarts 0 (closedLines earlier) ++
      laterStarts offset (back ++ after) := by
    rw [h.text_eq, laterStarts_append, laterStarts_append, laterStarts_of_not_mem h.front_open,
      Nat.zero_add, List.nil_append, h.offset_eq]
  have hbegun : (ofText text).starts.takeWhile (· ≤ offset) =
      0 :: laterStarts 0 (closedLines earlier) := by
    have hlater : (laterStarts offset (back ++ after)).takeWhile (· ≤ offset) = [] := by
      cases hlater : laterStarts offset (back ++ after) with
      | nil => rfl
      | cons start starts =>
        have hlt : offset < start := lt_of_mem_laterStarts (hlater ▸ List.mem_cons_self)
        exact List.takeWhile_cons_of_neg (by simpa using hlt)
    rw [ofText, List.takeWhile_cons_of_pos (by simp), hstarts,
      List.takeWhile_append_of_pos, hlater, List.append_nil]
    intro start hstart
    have := hle start hstart
    have := h.offset_eq
    simp only [decide_eq_true_eq]
    omega
  rw [position, hbegun, hlast, List.length_cons, hlength, h.offset_eq, Nat.add_sub_cancel_left]

end LineMap

/-! ### Quoted lines -/

/-- The pieces of a text are its closed lines and those of what follows. -/
lemma splitAtChar_closedLines {lines : List (List Char)} (h : ∀ line ∈ lines, '\n' ∉ line)
    (rest : List Char) : splitAtChar '\n' (closedLines lines ++ rest) = lines ++ splitAtChar '\n' rest := by
  induction lines with
  | nil => rfl
  | cons line lines ih =>
    obtain ⟨hline, hlines⟩ := List.forall_mem_cons.1 h
    have htext : closedLines (line :: lines) ++ rest = line ++ '\n' :: (closedLines lines ++ rest) := by
      simp [closedLines]
    rw [htext, splitAtChar_append_mark, splitAtChar_of_not_mem hline, ih hlines]
    rfl

/-- The line after some closed ones is quoted as if it were the first. -/
lemma getElem?_linesOfPieces (pieces : List (List Char)) {rest : List (List Char)} (h : rest ≠ []) :
    (linesOfPieces (pieces ++ rest))[pieces.length]? = (linesOfPieces rest).head? := by
  induction pieces with
  | nil => rw [List.nil_append, List.length_nil, List.head?_eq_getElem?]
  | cons piece pieces ih =>
    have hne : pieces ++ rest ≠ [] := fun hnil => h (List.append_eq_nil_iff.1 hnil).2
    obtain ⟨next, more, hmore⟩ := List.exists_cons_of_ne_nil hne
    rw [List.cons_append, hmore, linesOfPieces, List.length_cons, List.getElem?_cons_succ, ← hmore, ih]
    all_goals simp

/-- The line of a place as it is quoted: a carriage return before the line feed is left out. -/
def quotedLine (line after : List Char) : List Char :=
  if after = [] then line else dropReturn line

/-- The line of a place is quoted, unless it is the empty one at the end. -/
lemma getElem?_textLines {text : String} {offset : Nat} {earlier : List (List Char)}
    {front back after : List Char} (h : OnLine text.toList offset earlier front back after) :
    (textLines text)[earlier.length]? =
      if front ++ back ++ after = [] then none
      else some (String.ofList (quotedLine (front ++ back) after)) := by
  have hline : '\n' ∉ front ++ back := by
    simp [h.front_open, h.back_open]
  rw [textLines, List.getElem?_map, h.text_eq, splitAtChar_closedLines h.earlier_open,
    getElem?_linesOfPieces _ (splitAtChar_ne_nil _ _), ← List.append_assoc]
  rcases h.after_closes with rfl | ⟨later, rfl⟩
  · rw [List.append_nil, splitAtChar_of_not_mem hline, quotedLine, if_pos rfl]
    cases hfull : front ++ back with
    | nil => rfl
    | cons c line => rfl
  · obtain ⟨next, more, hmore⟩ := List.exists_cons_of_ne_nil (splitAtChar_ne_nil '\n' later)
    rw [splitAtChar_append_mark, splitAtChar_of_not_mem hline, quotedLine, if_neg (by simp),
      if_neg (by simp), hmore, List.singleton_append, linesOfPieces]
    · rfl
    all_goals simp

/-- What stands before a place at which no line ends is quoted in full. -/
lemma prefix_quotedLine {front back after : List Char} (h : after ≠ [] → back = [] → front = []) :
    front <+: quotedLine (front ++ back) after := by
  unfold quotedLine
  split
  · exact List.prefix_append _ _
  · next hafter =>
    unfold dropReturn
    split
    · by_cases hback : back = []
      · rw [h hafter hback]
        exact List.nil_prefix
      · rw [List.dropLast_append_of_ne_nil hback]
        exact List.prefix_append _ _
    · exact List.prefix_append _ _

/-! ### Underlines -/

/-- The row below a quoted line: blanks below the number and before the place, then the underline. -/
def underline (number : String) (pad width : Nat) : String :=
  copies number.length ' ' ++ " " ++ copies pad ' ' ++ copies width '~'

/-- The underline begins after the blanks. -/
lemma idxOf_underline (number : String) (pad : Nat) {width : Nat} (h : 0 < width) :
    (underline number pad width).toList.idxOf '~' = (number ++ " ").length + pad := by
  obtain ⟨width, rfl⟩ : ∃ k, width = k + 1 := ⟨width - 1, (Nat.sub_add_cancel h).symm⟩
  have hrow : (underline number pad (width + 1)).toList =
      List.replicate (number.length + 1 + pad) ' ' ++ '~' :: List.replicate width '~' := by
    rw [← List.replicate_append_replicate, ← List.replicate_append_replicate]
    simp [underline, copies, List.replicate_succ]
  rw [hrow, List.idxOf_append, if_neg (by simp), List.length_replicate, List.idxOf_cons_self,
    Nat.zero_add, String.length_append]
  rfl

/-- Characters take as many bytes as there are of them if each takes one. -/
lemma byteWidth_eq_length_iff (cs : List Char) :
    byteWidth cs = cs.length ↔ ∀ c ∈ cs, c.utf8Size = 1 := by
  have hle : ∀ cs : List Char, cs.length ≤ byteWidth cs := by
    intro cs
    induction cs with
    | nil => exact Nat.le_refl _
    | cons c cs ih =>
      have hpos := c.utf8Size_pos
      rw [byteWidth_cons, List.length_cons]
      omega
  induction cs with
  | nil => simp
  | cons c cs ih =>
    have hpos := c.utf8Size_pos
    have htail := hle cs
    rw [List.forall_mem_cons, byteWidth_cons, List.length_cons]
    constructor
    · intro heq
      exact ⟨by omega, ih.1 (by omega)⟩
    · rintro ⟨hc, hcs⟩
      have := ih.2 hcs
      omega

/-! ### Refused scripts -/

namespace Cursor

variable {c : Cursor} {text : String}

/-- No token begins with a line feed. -/
lemma head?_ahead_of_moves (h : ReflTransGen Moves (start text) c) :
    c = start text ∨ c.ahead.head? ≠ some '\n' := by
  have hlexeme : ∀ {l : Lexeme} {full : List Char} (offset : Nat) (lineBreak : Bool), l.Takes full →
      (ofLexeme offset lineBreak l).ahead = full := by
    intro l full offset lineBreak hl
    rw [ahead, ofLexeme, String.toList_ofList, hl.split]
  induction h with
  | refl => exact .inl rfl
  | @tail d c _ hmove ih =>
    have hsame : d = c → c = start text ∨ c.ahead.head? ≠ some '\n' := fun heq => heq ▸ ih
    cases hmove with
    | next h =>
      obtain ⟨l, hread, heq⟩ := Option.map_eq_some_iff.1 h
      obtain ⟨rfl, _⟩ := Prod.mk.inj heq
      rw [hlexeme _ _ (Lexeme.takes_read hread)]
      exact .inr (Gap.head?_rest_skip .between d.offset false d.rest)
    | slash h =>
      unfold rereadSlash at h
      split at h
      · rw [← (Prod.mk.inj h).1, hlexeme _ _ (Lexeme.takes_regExp _ _)]
        exact .inr (by simp)
      · rw [← (Prod.mk.inj h).1, hlexeme _ _ (Lexeme.takes_regExp _ _)]
        exact .inr (by simp)
      · exact hsame (Prod.mk.inj h).1
    | brace h =>
      unfold rereadBrace at h
      split at h
      · rw [← (Prod.mk.inj h).1, hlexeme _ _ (Lexeme.takes_chunk _ false rfl _)]
        exact .inr (by simp)
      · exact hsame (Prod.mk.inj h).1

/-- What is refused does not begin with a line feed, except for an empty token before the text. -/
lemma Refuses.exists_split {e : SyntaxError} (he : c.Refuses e)
    (h : ReflTransGen Moves (start text) c) :
    ∃ before rest, text.toList = before ++ rest ∧ e.span.start = byteWidth before ∧
      (before ≠ [] → rest.head? ≠ some '\n') := by
  have hstands := standsIn_of_moves h
  have htoken : e.span.start = c.token.start → ∃ before rest, text.toList = before ++ rest ∧
      e.span.start = byteWidth before ∧ (before ≠ [] → rest.head? ≠ some '\n') := by
    intro hstart
    obtain ⟨before, hsplit, hbefore⟩ := hstands.split
    refine ⟨before, c.ahead, hsplit, hstart.trans hbefore.symm, fun hne => ?_⟩
    rcases head?_ahead_of_moves h with rfl | hhead
    · cases before with
      | nil => exact absurd rfl hne
      | cons x before =>
        have hpos := x.utf8Size_pos
        rw [byteWidth_cons] at hbefore
        change x.utf8Size + byteWidth before = 0 at hbefore
        omega
    · exact hhead
  cases he with
  | token cause => exact htoken rfl
  | next hnext =>
    obtain ⟨before, rest, hsplit, hoffset, hhead⟩ := hstands.cutAt_of_next? hnext
    exact ⟨before, rest, hsplit, hoffset.trans (Nat.zero_add _), fun _ => hhead⟩
  | slash hflaw => exact htoken (offset_of_reread (.inl hflaw))
  | brace hflaw => exact htoken (offset_of_reread (.inr hflaw))

end Cursor

/-- The report of a refused script names the line of the error and quotes it, with its number, unless
it is the empty one at the end.  What stands on the line before the error is quoted in full.  The
underline begins as many characters after the number as this takes bytes; so it begins below
the error exactly if each of these characters takes one byte. -/
theorem report_of_refusal {text : String} {e : SyntaxError} (h : parse text = .error (.refused e))
    (file : String) :
    ∃ earlier front back after, OnLine text.toList e.span.start earlier front back after ∧
      ∃ number shown, number = toString (earlier.length + 1) ∧
        (e.diagnostic text).report false file text =
          file ++ ":" ++ number ++ ":" ++ toString (byteWidth front + 1) ++ " - " ++ "error" ++ ": " ++
            e.cause.message ++ shown ∧
        (front ++ back ++ after = [] ∧ shown = "" ∨ front ++ back ++ after ≠ [] ∧ ∃ quoted row,
          shown = "\n\n" ++ number ++ " " ++ String.ofList quoted ++ "\n" ++ row ∧
          quoted = quotedLine (front ++ back) after ∧ front <+: quoted ∧
          row = underline number (byteWidth front) (max e.span.length 1) ∧
          row.toList.idxOf '~' = (number ++ " ").length + byteWidth front ∧
          (row.toList.idxOf '~' = (number ++ " ").length + front.length ↔
            ∀ c ∈ front, c.utf8Size = 1)) := by
  obtain ⟨c, hmoves, hrefuses⟩ := exists_refuses_of_parse h
  obtain ⟨before, rest, hsplit, hstart, hhead⟩ := hrefuses.exists_split hmoves
  obtain ⟨earlier, front, back, after, honLine, hbefore, hrest⟩ := exists_onLine before rest
  rw [← hsplit, ← hstart] at honLine
  have hposition : (e.diagnostic text).position = ⟨earlier.length + 1, byteWidth front + 1⟩ :=
    LineMap.position_of_onLine honLine
  refine ⟨earlier, front, back, after, honLine, _, (e.diagnostic text).snippet false text, rfl, ?_, ?_⟩
  · rw [Diagnostic.report, hposition]
    rfl
  have hlines := getElem?_textLines honLine
  by_cases hempty : front ++ back ++ after = []
  · rw [if_pos hempty] at hlines
    refine .inl ⟨hempty, ?_⟩
    rw [Diagnostic.snippet, hposition]
    simp only [hlines]
  · rw [if_neg hempty] at hlines
    have hidx := idxOf_underline (toString (earlier.length + 1)) (byteWidth front)
      (Nat.lt_of_lt_of_le Nat.one_pos (Nat.le_max_right e.span.length 1))
    refine .inr ⟨hempty, _, _, ?_, rfl, prefix_quotedLine ?_, rfl, hidx, ?_⟩
    · rw [Diagnostic.snippet, hposition]
      simp only [hlines, underline, paint, String.append_assoc]
      rfl
    · intro hafter hback
      obtain ⟨later, rfl⟩ := honLine.after_closes.resolve_left hafter
      by_contra hfront
      refine hhead (fun hnil => hfront ?_) (by rw [hrest, hback]; rfl)
      rw [hbefore] at hnil
      exact (List.append_eq_nil_iff.1 hnil).2
    · rw [hidx, Nat.add_left_cancel_iff, byteWidth_eq_length_iff]

/-- An error on a line that ends with a carriage return and a line feed. -/
theorem report_of_refusal_secondLine :
    parse "a;\r\n\tb c;\r\n" = .error (.refused ⟨.expected ";", ⟨7, 8⟩⟩) ∧
      (SyntaxError.diagnostic ⟨.expected ";", ⟨7, 8⟩⟩ "a;\r\n\tb c;\r\n").report false "a.js"
        "a;\r\n\tb c;\r\n" = "a.js:2:4 - error: ';' expected.\n\n2 \tb c;\n     ~" ∧
      ∃ earlier front back after, OnLine "a;\r\n\tb c;\r\n".toList 7 earlier front back after := by
  have hparse : parse "a;\r\n\tb c;\r\n" = .error (.refused ⟨.expected ";", ⟨7, 8⟩⟩) :=
    eq_of_refusal? (by rw [parse_ofList]; decide)
  obtain ⟨earlier, front, back, after, honLine, _⟩ := report_of_refusal hparse "a.js"
  exact ⟨hparse, by decide, earlier, front, back, after, honLine⟩

/-- After a character of two bytes, the underline begins one character too far to the right: the
parenthesis is the fifth character of its line, and the underline begins below the sixth. -/
theorem underline_right_of_error :
    parse "\"é\" )" = .error (.refused ⟨.expected ";", ⟨5, 6⟩⟩) ∧
      (SyntaxError.diagnostic ⟨.expected ";", ⟨5, 6⟩⟩ "\"é\" )").report false "a.js" "\"é\" )" =
        "a.js:1:6 - error: ';' expected.\n\n1 \"é\" )\n       ~" :=
  ⟨eq_of_refusal? (by decide), by decide⟩

end BindingProxy
