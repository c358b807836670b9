import BindingProxy.Proofs.Token.Extent
import BindingProxy.Proofs.Token.Stream

/-!
# Tokens tile a text

Reading a text token by token leaves nothing out: the text is a gap, a token, a gap, a token and so
on up to the end.  What may stand in a gap is said on its own: `GapItem` lists the items, each of
them complete, and `GapText` puts them one after another.  A block comment that is never closed is
the one exception; it is reported, and nothing follows it.

Every token but the last takes a character, so the end is reached.
-/

namespace BindingProxy

/-! ### Gaps -/

/-- A text that does not go on with a line: it is at its end or begins with a line feed or a carriage
return. -/
def EndsLine : List Char → Prop
  | [] => True
  | c :: _ => isLineFeed c = true

/-- An item of a gap that begins at a byte offset, with what follows it in the text. -/
inductive GapItem (offset : Nat) : List Char → List Char → Prop where
  | blank {c : Char} (hc : isLineTerminator c = true ∨ isBlank c = true) (rest : List Char) :
    GapItem offset [c] rest
  | lineComment {body rest : List Char} (hbody : ∀ c ∈ body, isLineFeed c = false)
    (hrest : EndsLine rest) : GapItem offset ('/' :: '/' :: body) rest
  /-- A block comment that is ended by the first `*/` in it. -/
  | blockComment {body : List Char} (hbody : ¬ ['*', '/'] <:+: body ++ ['*']) (rest : List Char) :
    GapItem offset ('/' :: '*' :: (body ++ ['*', '/'])) rest
  /-- The `#!` line at the beginning of a script. -/
  | scriptLine {body rest : List Char} (hoffset : offset = 0)
    (hbody : ∀ c ∈ body, isLineFeed c = false) (hrest : EndsLine rest) :
    GapItem offset ('#' :: '!' :: body) rest

/-- Items of a gap one after another, with what follows them in the text.  A block comment that is
not closed stands at the end of the text, and it is the flaw of its gap. -/
inductive GapText : Nat → List Char → List Char → Option Flaw → Prop where
  | nil (offset : Nat) (rest : List Char) : GapText offset [] rest none
  | unclosed (offset : Nat) {body : List Char} (hbody : ¬ ['*', '/'] <:+: body) :
    GapText offset ('/' :: '*' :: body) [] (some ⟨.unclosedComment, offset⟩)
  | cons {offset : Nat} {item gap rest : List Char} {flaw : Option Flaw}
    (hitem : GapItem offset item (gap ++ rest)) (hgap : GapText (offset + byteWidth item) gap rest flaw) :
    GapText offset (item ++ gap) rest flaw

namespace Gap

/-- A gap that consists of the characters `taken`, which begin at `offset`. -/
structure Covers (g : Gap) (offset : Nat) (taken : List Char) : Prop where
  offset_eq : g.offset = offset + byteWidth taken
  items : GapText offset taken g.rest g.flaw

/-- An item before a gap is part of the gap. -/
lemma Covers.cons {g : Gap} {offset : Nat} {item taken : List Char}
    (hitem : GapItem offset item (taken ++ g.rest))
    (h : g.Covers (offset + byteWidth item) taken) : g.Covers offset (item ++ taken) where
  offset_eq := by rw [h.offset_eq, byteWidth_append, Nat.add_assoc]
  items := .cons hitem h.items

/-- The characters of a comment that goes up to the end of its line, and the gap after them. -/
def CoversLine (g : Gap) (offset : Nat) (text : List Char) : Prop :=
  ∃ body taken, text = body ++ (taken ++ g.rest) ∧ (∀ c ∈ body, isLineFeed c = false) ∧
    EndsLine (taken ++ g.rest) ∧ g.Covers (offset + byteWidth body) taken

/-- The characters of a block comment that began at `start`, and the gap after them, unless the
comment is not closed. -/
def CoversBlock (g : Gap) (start offset : Nat) (text : List Char) : Prop :=
  (∃ body taken, text = body ++ '*' :: '/' :: (taken ++ g.rest) ∧ ¬ ['*', '/'] <:+: body ++ ['*'] ∧
      g.Covers (offset + byteWidth body + 2) taken) ∨
    (¬ ['*', '/'] <:+: text ∧ g.rest = [] ∧ g.offset = offset + byteWidth text ∧
      g.flaw = some ⟨.unclosedComment, start⟩)

/-- What skipping passes over, by the mode that it is begun in. -/
def Skips (g : Gap) (offset : Nat) (text : List Char) : Mode → Prop
  | .between => ∃ taken, text = taken ++ g.rest ∧ g.Covers offset taken
  | .lineComment => g.CoversLine offset text
  | .blockComment start _ => g.CoversBlock start offset text

/-- The end of a block comment is not found before a character that does not belong to it. -/
lemma not_infix_cons {c : Char} {body : List Char} (h : ¬ ['*', '/'] <:+: body)
    (hc : ¬ (c = '*' ∧ body.head? = some '/')) : ¬ ['*', '/'] <:+: c :: body := by
  rw [List.infix_cons_iff]
  rintro (hfront | hinfix)
  · cases body with
    | nil => simp at hfront
    | cons d body =>
      simp only [List.cons_prefix_cons, List.nil_prefix, and_true] at hfront
      exact hc ⟨hfront.1.symm, by simp [← hfront.2]⟩
  · exact h hinfix

/-- The two characters that open an item of a gap take two bytes. -/
lemma offset_add_two {c d : Char} (hc : c.utf8Size = 1) (hd : d.utf8Size = 1) (offset : Nat)
    (body : List Char) : offset + byteWidth (c :: d :: body) = offset + 2 + byteWidth body := by
  simp only [byteWidth_cons, hc, hd]
  omega

/-- Skipping passes over the items of a gap. -/
theorem skips_skip (mode : Mode) (offset : Nat) (lineBreak : Bool) (text : List Char) :
    (skip mode offset lineBreak text).Skips offset text mode := by
  fun_induction skip mode offset lineBreak text with
  | case1 offset lineBreak => exact ⟨[], rfl, rfl, .nil _ _⟩
  | case2 offset lineBreak rest ih =>
    generalize skip .lineComment (offset + 2) lineBreak rest = g at ih ⊢
    obtain ⟨body, taken, rfl, hbody, hends, hcovers⟩ := ih
    rw [← offset_add_two (c := '/') (d := '/') rfl rfl] at hcovers
    exact ⟨_, (List.append_assoc ('/' :: '/' :: body) _ _).symm,
      .cons (.lineComment hbody hends) hcovers⟩
  | case3 offset lineBreak rest ih =>
    generalize skip (.blockComment offset false) (offset + 2) lineBreak rest = g at ih ⊢
    rcases ih with ⟨body, taken, rfl, hbody, hcovers⟩ | ⟨hbody, hrest, hoffset, hflaw⟩
    · have hwidth : offset + 2 + byteWidth body + 2 =
          offset + byteWidth ('/' :: '*' :: (body ++ ['*', '/'])) := by
        rw [offset_add_two rfl rfl, byteWidth_append, Nat.add_assoc]
        rfl
      rw [hwidth] at hcovers
      exact ⟨'/' :: '*' :: (body ++ ['*', '/']) ++ taken, by simp,
        .cons (.blockComment hbody _) hcovers⟩
    · refine ⟨'/' :: '*' :: rest, by simp [hrest], ?_, ?_⟩
      · rw [hoffset, offset_add_two rfl rfl]
      · rw [hrest, hflaw]
        exact .unclosed offset hbody
  | case4 lineBreak rest ih =>
    generalize skip .lineComment 2 lineBreak rest = g at ih ⊢
    obtain ⟨body, taken, rfl, hbody, hends, hcovers⟩ := ih
    have hwidth : 2 + byteWidth body = 0 + byteWidth ('#' :: '!' :: body) := by
      rw [offset_add_two rfl rfl]
    rw [hwidth] at hcovers
    exact ⟨_, (List.append_assoc ('#' :: '!' :: body) _ _).symm,
      .cons (.scriptLine rfl hbody hends) hcovers⟩
  | case5 offset lineBreak c rest _ _ _ hc ih =>
    generalize skip .between (offset + c.utf8Size) true rest = g at ih ⊢
    obtain ⟨taken, rfl, hcovers⟩ := ih
    exact ⟨[c] ++ taken, rfl, .cons (.blank (.inl hc) _) hcovers⟩
  | case6 offset lineBreak c rest _ _ _ _ hblank ih =>
    generalize skip .between (offset + c.utf8Size) lineBreak rest = g at ih ⊢
    obtain ⟨taken, rfl, hcovers⟩ := ih
    exact ⟨[c] ++ taken, rfl, .cons (.blank (.inr hblank) _) hcovers⟩
  | case7 offset lineBreak c rest => exact ⟨[], rfl, rfl, .nil _ _⟩
  | case8 offset lineBreak => exact ⟨[], [], rfl, by simp, trivial, rfl, .nil _ _⟩
  | case9 offset lineBreak c rest hfeed ih =>
    -- The line feed ends the comment and is an item of its own.
    generalize skip .between (offset + c.utf8Size) true rest = g at ih ⊢
    obtain ⟨taken, rfl, hcovers⟩ := ih
    have hc : isLineTerminator c = true := by
      simp only [isLineFeed, isLineTerminator, Bool.or_eq_true] at hfeed ⊢
      exact .inl (.inl hfeed)
    exact ⟨[], [c] ++ taken, rfl, by simp, hfeed, .cons (.blank (.inl hc) _) hcovers⟩
  | case10 offset lineBreak c rest hfeed ih =>
    generalize skip .lineComment (offset + c.utf8Size) lineBreak rest = g at ih ⊢
    obtain ⟨body, taken, rfl, hbody, hends, hcovers⟩ := ih
    refine ⟨c :: body, taken, rfl, List.forall_mem_cons.2 ⟨?_, hbody⟩, hends, ?_⟩
    · exact Bool.eq_false_iff.2 hfeed
    · rwa [byteWidth_cons, ← Nat.add_assoc]
  | case11 start inner offset lineBreak =>
    exact .inr ⟨by simp, rfl, rfl, rfl⟩
  | case12 start inner offset lineBreak rest ih =>
    generalize skip .between (offset + 2) (lineBreak || inner) rest = g at ih ⊢
    obtain ⟨taken, rfl, hcovers⟩ := ih
    exact .inl ⟨[], taken, rfl, not_infix_cons (by simp) (by simp), hcovers⟩
  | case13 start inner offset lineBreak c rest hclose ih =>
    generalize skip _ (offset + c.utf8Size) lineBreak rest = g at ih ⊢
    rcases ih with ⟨body, taken, rfl, hbody, hcovers⟩ | ⟨hbody, hrest, hoffset, hflaw⟩
    · refine .inl ⟨c :: body, taken, rfl, not_infix_cons hbody ?_, ?_⟩
      · rintro ⟨hc, hhead⟩
        cases body with
        | nil => cases hhead
        | cons d body =>
          cases hhead
          exact hclose _ hc rfl
      · rwa [byteWidth_cons, ← Nat.add_assoc]
    · refine .inr ⟨not_infix_cons hbody ?_, hrest, ?_, hflaw⟩
      · rintro ⟨hc, hhead⟩
        cases rest with
        | nil => cases hhead
        | cons d rest =>
          cases hhead
          exact hclose _ hc rfl
      · rw [hoffset, byteWidth_cons, Nat.add_assoc]

lemma skips_read (offset : Nat) (text : List Char) :
    (read offset text).Skips offset text .between :=
  skips_skip .between offset false text

end Gap

/-- Only at the end of a text there is a gap with a flaw. -/
lemma GapText.eq_nil_of_flaw {offset : Nat} {gap rest : List Char} {flaw : Flaw}
    (h : GapText offset gap rest (some flaw)) : rest = [] := by
  generalize hflaw : some flaw = reported at h
  induction h with
  | nil => cases hflaw
  | unclosed => rfl
  | cons _ _ ih => exact ih hflaw

/-! ### Tokens -/

/-- Tokens, each with its flaw, that tile a text which begins at a byte offset: a gap stands before
every token, and the last token is the end of the text. -/
inductive Tiles : Nat → List Char → List (Token × Option Flaw) → Prop where
  | stop {offset : Nat} {gap : List Char} {token : Token} {flaw : Option Flaw}
    (hgap : GapText offset gap [] flaw) (hkind : token.kind = .endOfText)
    (hstart : token.start = offset + byteWidth gap) (htext : token.text = "") :
    Tiles offset gap [(token, flaw)]
  | step {offset : Nat} {gap rest : List Char} {token : Token} (flaw : Option Flaw)
    {later : List (Token × Option Flaw)} (hgap : GapText offset gap (token.text.toList ++ rest) none)
    (hkind : token.kind ≠ .endOfText) (hstart : token.start = offset + byteWidth gap)
    (htext : token.text ≠ "") (hlater : Tiles token.stop rest later) :
    Tiles offset (gap ++ (token.text.toList ++ rest)) ((token, flaw) :: later)

namespace Cursor

/-- The next token stands after a gap.  It is the end of the text, or it takes a character and the
gap has no flaw. -/
lemma exists_gap_of_next? {c c' : Cursor} {flaw : Option Flaw} (h : c.next? = some (c', flaw)) :
    ∃ gap, c.rest = gap ++ (c'.token.text.toList ++ c'.rest) ∧
      c'.token.start = c.offset + byteWidth gap ∧
      ((c'.token.kind = .endOfText ∧ c'.token.text = "" ∧ c'.rest = [] ∧
          GapText c.offset gap [] flaw) ∨
        (c'.token.kind ≠ .endOfText ∧ c'.token.text ≠ "" ∧
          GapText c.offset gap (c'.token.text.toList ++ c'.rest) none)) := by
  obtain ⟨l, hread, heq⟩ := Option.map_eq_some_iff.1 h
  obtain ⟨gap, hsplit, hoffset, hitems⟩ := Gap.skips_read c.offset c.rest
  obtain ⟨rfl, rfl⟩ := Prod.mk.inj heq
  have htakes := (Lexeme.takes_read hread).split
  have htext : (String.ofList l.text).toList = l.text := String.toList_ofList
  refine ⟨gap, ?_, hoffset, ?_⟩
  · rw [ofLexeme, htext, htakes]
    exact hsplit
  cases hrest : (Gap.read c.offset c.rest).rest with
  | nil =>
    rw [hrest] at hread hitems
    cases hread
    exact .inl ⟨rfl, rfl, rfl, by simpa [Lexeme.plain] using hitems⟩
  | cons d rest =>
    rw [hrest] at hread hitems htakes
    obtain ⟨hne, hkind⟩ := Lexeme.ne_nil_of_read hread
    refine .inr ⟨hkind, fun hempty => hne ?_, ?_⟩
    · rw [← htext, show String.ofList l.text = "" from hempty]
      rfl
    · rw [ofLexeme, htext, htakes]
      cases hflaw : (Gap.read c.offset c.rest).flaw with
      | none => rwa [hflaw] at hitems
      | some flaw =>
        rw [hflaw] at hitems
        cases hitems.eq_nil_of_flaw

/-- Reading more tokens than there are characters left reaches the end of the text. -/
theorem tiles_of_tokensWithin {bound : Nat} {c : Cursor} (hbound : c.rest.length < bound)
    {ts : List (Token × Option Flaw)} (h : tokensWithin bound c = some ts) :
    Tiles c.offset c.rest ts := by
  induction bound generalizing c ts with
  | zero => cases hbound
  | succ bound ih =>
    rw [tokensWithin] at h
    split at h
    · cases h
    · next c' flaw hnext =>
      obtain ⟨gap, hsplit, hstart, ⟨hkind, htext, hrest, hgap⟩ | ⟨hkind, htext, hgap⟩⟩ :=
        exists_gap_of_next? hnext
      · rw [if_pos hkind] at h
        cases h
        rw [hsplit, htext, hrest, String.toList_empty, List.append_nil, List.append_nil]
        exact .stop hgap hkind hstart htext
      · rw [if_neg hkind] at h
        obtain ⟨later, hlater, rfl⟩ := Option.map_eq_some_iff.1 h
        have hpos : 0 < c'.token.text.toList.length :=
          List.length_pos_iff.2 fun hnil => htext (String.toList_eq_nil_iff.1 hnil)
        have hlength := congrArg List.length hsplit
        simp only [List.length_append] at hlength
        rw [hsplit]
        exact .step flaw hgap hkind hstart htext (ih (by omega) hlater)

end Cursor

namespace Tiles

variable {offset : Nat} {text : List Char} {ts : List (Token × Option Flaw)}

/-- A token takes at least one byte, the end of the text apart. -/
lemma start_lt_stop {t : Token} (h : t.text ≠ "") : t.start < t.stop := by
  have hne : t.text.toList ≠ [] := fun hnil => h (String.toList_eq_nil_iff.1 hnil)
  obtain ⟨c, cs, hcs⟩ := List.exists_cons_of_ne_nil hne
  have hpos := c.utf8Size_pos
  rw [Token.stop, hcs, byteWidth_cons]
  omega

/-- All tokens stand after the place where the text begins. -/
lemma le_start (h : Tiles offset text ts) : ∀ t ∈ ts, offset ≤ t.1.start := by
  induction h with
  | stop _ _ hstart _ =>
    rw [List.forall_mem_singleton, hstart]
    exact Nat.le_add_right _ _
  | step flaw _ _ hstart htext _ ih =>
    refine List.forall_mem_cons.2 ⟨hstart ▸ Nat.le_add_right _ _, fun t ht => ?_⟩
    have hlater := ih t ht
    have hlt := start_lt_stop htext
    omega

/-- The tokens are in order and do not overlap. -/
lemma ordered (h : Tiles offset text ts) : ts.Pairwise fun a b => a.1.stop ≤ b.1.start := by
  induction h with
  | stop => exact List.pairwise_singleton _ _
  | step flaw _ _ _ _ hlater ih => exact List.pairwise_cons.2 ⟨hlater.le_start, ih⟩

/-- There are no more tokens than bytes, the end of the text apart. -/
lemma length_le (h : Tiles offset text ts) : ts.length ≤ byteWidth text + 1 := by
  induction h with
  | stop => simp
  | @step _ _ _ token _ _ _ _ _ htext _ ih =>
    have hlt := start_lt_stop htext
    rw [Token.stop] at hlt
    simp only [List.length_cons, byteWidth_append]
    omega

/-- The last token is the end of the text, and no other token is. -/
lemma exists_last (h : Tiles offset text ts) :
    ∃ front last, ts = front ++ [last] ∧ last.1.kind = .endOfText ∧
      last.1.span = .point (offset + byteWidth text) ∧
      ∀ t ∈ front, t.1.kind ≠ .endOfText ∧ t.1.start < t.1.stop := by
  induction h with
  | @stop offset gap token flaw _ hkind hstart htext =>
    refine ⟨[], (token, flaw), rfl, hkind, ?_, by simp⟩
    rw [Token.span, Token.stop, htext, hstart]
    rfl
  | @step offset gap rest token flaw later _ hkind hstart htext _ ih =>
    obtain ⟨front, last, rfl, hlast, hspan, hfront⟩ := ih
    refine ⟨(token, flaw) :: front, last, rfl, hlast, ?_, ?_⟩
    · rw [hspan, Token.stop, hstart, byteWidth_append, byteWidth_append]
      simp only [Nat.add_assoc]
    · exact List.forall_mem_cons.2 ⟨⟨hkind, start_lt_stop htext⟩, hfront⟩

end Tiles

/-- Unless a token cannot be read, reading a text comes to its end after at most one more token than
the text has bytes.  The tokens before the end are not empty, they are in order, and together with
complete items of gaps they are the whole text. -/
theorem tokens_tile {text : String} {ts : List (Token × Option Flaw)} (h : tokens text = some ts) :
    ts.length ≤ byteWidth text.toList + 1 ∧
      (∃ front last, ts = front ++ [last] ∧ last.1.kind = .endOfText ∧
        last.1.span = .point (byteWidth text.toList) ∧
        ∀ t ∈ front, t.1.kind ≠ .endOfText ∧ t.1.start < t.1.stop) ∧
      (ts.Pairwise fun a b => a.1.stop ≤ b.1.start) ∧ Tiles 0 text.toList ts := by
  have htiles : Tiles 0 text.toList ts := Cursor.tiles_of_tokensWithin (Nat.lt_succ_self _) h
  have hlast := htiles.exists_last
  rw [Nat.zero_add] at hlast
  exact ⟨htiles.length_le, hlast, htiles.ordered, htiles⟩

/-- A script with all items of gaps around malformed tokens: a number that runs into a name, a string
that ends with its line, and a block comment that is not closed. -/
theorem tokens_tile_malformed :
    ∃ ts, tokens "#!n\n\ufeff1e /* * */x\\u00e9\u2028// b\r'c\n/=\x60$\x7b /*/" = some ts ∧
      ts.map (·.1.text) = ["1", "e", "x\\u00e9", "'c", "/=", "\x60$\x7b", ""] ∧
      Tiles 0 "#!n\n\ufeff1e /* * */x\\u00e9\u2028// b\r'c\n/=\x60$\x7b /*/".toList ts := by
  obtain ⟨ts, hts, htexts⟩ := (Option.any_eq_true _ _).1
    (show (tokens "#!n\n\ufeff1e /* * */x\\u00e9\u2028// b\r'c\n/=\x60$\x7b /*/").any
      (fun ts => ts.map (·.1.text) == ["1", "e", "x\\u00e9", "'c", "/=", "\x60$\x7b", ""]) = true by
      decide +kernel)
  obtain ⟨_, _, _, htiles⟩ := tokens_tile hts
  exact ⟨ts, hts, beq_iff_eq.1 htexts, htiles⟩

end BindingProxy
