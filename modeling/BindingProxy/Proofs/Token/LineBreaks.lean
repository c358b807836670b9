import BindingProxy.Proofs.Token.Tiling

/-!
# Line breaks before tokens

A token knows whether there is a line break in the gap before it.  A line terminator by itself is one,
and so is the line feed or carriage return that ends a line comment.  A block comment counts through a
line feed or a carriage return in it, if it is closed; the two other line terminators are not seen in
comments.  `GapLines` says this of the items of a gap, and the main result that tokens are told so.

So the flag is never set for a gap without a line terminator, and it is set for all gaps with a line
feed or a carriage return unless a comment in them is not closed.
-/

namespace BindingProxy

/-- Whether an item of a gap is a line break, or a comment that counts as one. -/
def breaksLine : List Char → Bool
  | [c] => isLineTerminator c
  | item => item.any isLineFeed

/-- Items of a gap one after another, with whether one of them breaks the line.  A block comment that
is not closed does not. -/
inductive GapLines : Nat → List Char → List Char → Option Flaw → Bool → Prop where
  | nil (offset : Nat) (rest : List Char) : GapLines offset [] rest none false
  | unclosed (offset : Nat) {body : List Char} (hbody : ¬ ['*', '/'] <:+: body) :
    GapLines offset ('/' :: '*' :: body) [] (some ⟨.unclosedComment, offset⟩) false
  | cons {offset : Nat} {item gap rest : List Char} {flaw : Option Flaw} {broken : Bool}
    (hitem : GapItem offset item (gap ++ rest))
    (hgap : GapLines (offset + byteWidth item) gap rest flaw broken) :
    GapLines offset (item ++ gap) rest flaw (breaksLine item || broken)

lemma isLineTerminator_of_isLineFeed {c : Char} (h : isLineFeed c = true) :
    isLineTerminator c = true := by
  simp only [isLineFeed, isLineTerminator, Bool.or_eq_true] at h ⊢
  exact .inl (.inl h)

namespace Gap

/-! ### Skipping an item -/

lemma skip_blank {c : Char} (hc : isLineTerminator c = true ∨ isBlank c = true) (offset : Nat)
    (lineBreak : Bool) (rest : List Char) :
    skip .between offset lineBreak (c :: rest) =
      skip .between (offset + c.utf8Size) (lineBreak || isLineTerminator c) rest := by
  have hslash : c ≠ '/' := by
    rintro rfl
    exact absurd hc (by decide)
  have hhash : c ≠ '#' := by
    rintro rfl
    exact absurd hc (by decide)
  rw [skip.eq_def]
  split <;> simp_all
  split <;> simp_all

/-- A line comment ends where its line does. -/
lemma skip_line {body rest : List Char} (hbody : ∀ c ∈ body, isLineFeed c = false)
    (hrest : EndsLine rest) (offset : Nat) (lineBreak : Bool) :
    skip .lineComment offset lineBreak (body ++ rest) =
      skip .between (offset + byteWidth body) lineBreak rest := by
  induction body generalizing offset with
  | nil =>
    cases rest with
    | nil => rfl
    | cons c rest =>
      have hfeed : isLineFeed c = true := hrest
      have hc := isLineTerminator_of_isLineFeed hfeed
      rw [skip_blank (.inl hc), hc, Bool.or_true, List.nil_append, skip, if_pos hfeed]
      rfl
  | cons c body ih =>
    obtain ⟨hc, hbody⟩ := List.forall_mem_cons.1 hbody
    rw [List.cons_append, skip, if_neg (by simp [hc]), ih hbody, byteWidth_cons, Nat.add_assoc]

/-- A character of a block comment that does not close it. -/
lemma skip_inner {c : Char} {rest : List Char} (hc : ∀ after, c = '*' → rest ≠ '/' :: after)
    (start offset : Nat) (inner lineBreak : Bool) :
    skip (.blockComment start inner) offset lineBreak (c :: rest) =
      skip (.blockComment start (inner || isLineFeed c)) (offset + c.utf8Size) lineBreak rest := by
  rw [skip]
  exact hc

/-- A block comment ends with the first `*/`. -/
lemma skip_block {body : List Char} (hbody : ¬ ['*', '/'] <:+: body ++ ['*']) (start offset : Nat)
    (inner lineBreak : Bool) (rest : List Char) :
    skip (.blockComment start inner) offset lineBreak (body ++ '*' :: '/' :: rest) =
      skip .between (offset + byteWidth body + 2) (lineBreak || (inner || body.any isLineFeed))
        rest := by
  induction body generalizing offset inner with
  | nil => simp [skip]
  | cons c body ih =>
    rw [List.cons_append, List.infix_cons_iff, not_or] at hbody
    have hc : ∀ after, c = '*' → body ++ '*' :: '/' :: rest ≠ '/' :: after := by
      rintro after rfl heq
      refine hbody.1 ?_
      cases body with
      | nil => cases heq
      | cons d body =>
        cases heq
        simp
    rw [List.cons_append, skip_inner hc, ih hbody.2, byteWidth_cons, List.any_cons, Bool.or_assoc,
      Nat.add_assoc offset]

/-- A block comment that is not closed leaves the flag as it is. -/
lemma lineBreak_unclosed {body : List Char} (hbody : ¬ ['*', '/'] <:+: body) (start offset : Nat)
    (inner lineBreak : Bool) :
    (skip (.blockComment start inner) offset lineBreak body).lineBreak = lineBreak := by
  induction body generalizing offset inner with
  | nil => rfl
  | cons c body ih =>
    rw [List.infix_cons_iff, not_or] at hbody
    rw [skip_inner, ih hbody.2]
    rintro after rfl rfl
    exact hbody.1 (by simp)

/-- An item is passed over as a whole. -/
lemma skip_item {offset : Nat} {item rest : List Char} (h : GapItem offset item rest)
    (lineBreak : Bool) :
    skip .between offset lineBreak (item ++ rest) =
      skip .between (offset + byteWidth item) (lineBreak || breaksLine item) rest := by
  have hcomment {a b : Char} {body : List Char} (ha : isLineFeed a = false)
      (hb : isLineFeed b = false) (hbody : ∀ c ∈ body, isLineFeed c = false) :
      breaksLine (a :: b :: body) = false := by
    simpa [breaksLine, ha, hb] using hbody
  cases h with
  | blank hc => exact skip_blank hc offset lineBreak rest
  | lineComment hbody hrest =>
    rw [List.cons_append, List.cons_append, skip, skip_line hbody hrest, offset_add_two rfl rfl,
      hcomment rfl rfl hbody, Bool.or_false]
  | @blockComment body hbody =>
    have hbreaks : breaksLine ('/' :: '*' :: (body ++ ['*', '/'])) = body.any isLineFeed := by
      simp [breaksLine, isLineFeed]
    have htext : '/' :: '*' :: (body ++ ['*', '/']) ++ rest =
        '/' :: '*' :: (body ++ '*' :: '/' :: rest) := by simp
    rw [htext, skip, skip_block hbody, hbreaks, offset_add_two rfl rfl, byteWidth_append,
      Bool.false_or, Nat.add_assoc (offset + 2)]
    rfl
  | scriptLine hoffset hbody hrest =>
    subst hoffset
    rw [List.cons_append, List.cons_append, skip, skip_line hbody hrest, offset_add_two rfl rfl,
      hcomment rfl rfl hbody, Bool.or_false]

/-! ### Skipping a gap -/

/-- Nothing more is skipped where a gap ends. -/
lemma lineBreak_after (mode : Mode) (offset : Nat) (before : Bool) (text : List Char)
    (lineBreak : Bool) :
    (skip .between (skip mode offset before text).offset lineBreak
      (skip mode offset before text).rest).lineBreak = lineBreak := by
  fun_induction skip mode offset before text with
  | case1 | case8 | case11 => rfl
  | case7 offset before c rest hline hblock hhash hbreak hblank =>
    rw [skip.eq_def]
    split <;> simp_all
  | _ => assumption

/-- The flag after a gap is the one before it, unless an item breaks the line. -/
lemma lines_of_gapText {offset : Nat} {gap rest : List Char} {flaw : Option Flaw}
    (h : GapText offset gap rest flaw)
    (hrest : ∀ lineBreak,
      (skip .between (offset + byteWidth gap) lineBreak rest).lineBreak = lineBreak)
    (lineBreak : Bool) :
    ∃ broken, GapLines offset gap rest flaw broken ∧
      (skip .between offset lineBreak (gap ++ rest)).lineBreak = (lineBreak || broken) := by
  induction h generalizing lineBreak with
  | nil offset rest => exact ⟨false, .nil _ _, (hrest lineBreak).trans (Bool.or_false _).symm⟩
  | unclosed offset hbody =>
    refine ⟨false, .unclosed _ hbody, ?_⟩
    rw [List.append_nil, skip, lineBreak_unclosed hbody, Bool.or_false]
  | @cons offset item gap rest flaw hitem hgap ih =>
    rw [byteWidth_append, ← Nat.add_assoc] at hrest
    obtain ⟨broken, hlines, hflag⟩ := ih hrest (lineBreak || breaksLine item)
    refine ⟨breaksLine item || broken, .cons hitem hlines, ?_⟩
    rw [List.append_assoc, skip_item hitem, hflag, Bool.or_assoc]

lemma lines_read (offset : Nat) (text : List Char) :
    ∃ gap, text = gap ++ (read offset text).rest ∧
      (read offset text).offset = offset + byteWidth gap ∧
      GapLines offset gap (read offset text).rest (read offset text).flaw
        (read offset text).lineBreak := by
  obtain ⟨gap, hsplit, hoffset, hitems⟩ := skips_read offset text
  have hrest (lineBreak : Bool) : (skip .between (offset + byteWidth gap) lineBreak
      (read offset text).rest).lineBreak = lineBreak := by
    rw [← hoffset]
    exact lineBreak_after .between offset false text lineBreak
  obtain ⟨broken, hlines, hflag⟩ := lines_of_gapText hitems hrest false
  rw [← hsplit, Bool.false_or] at hflag
  refine ⟨gap, hsplit, hoffset, ?_⟩
  rw [read, hflag]
  exact hlines

end Gap

/-! ### What the flag says about the characters -/

namespace GapLines

variable {offset : Nat} {gap rest : List Char} {flaw : Option Flaw} {broken : Bool}

/-- There is no line break without a line terminator. -/
lemma exists_isLineTerminator (h : GapLines offset gap rest flaw broken) (hbroken : broken = true) :
    ∃ c ∈ gap, isLineTerminator c = true := by
  have hitem : ∀ item, breaksLine item = true → ∃ c ∈ item, isLineTerminator c = true := by
    intro item hbreaks
    unfold breaksLine at hbreaks
    split at hbreaks
    · exact ⟨_, List.mem_singleton_self _, hbreaks⟩
    · obtain ⟨c, hc, hfeed⟩ := List.any_eq_true.1 hbreaks
      exact ⟨c, hc, isLineTerminator_of_isLineFeed hfeed⟩
  induction h with
  | nil => cases hbroken
  | unclosed => cases hbroken
  | cons _ _ ih =>
    rcases Bool.or_eq_true_iff.1 hbroken with hbroken | hbroken
    · obtain ⟨c, hc, hterminator⟩ := hitem _ hbroken
      exact ⟨c, List.mem_append_left _ hc, hterminator⟩
    · obtain ⟨c, hc, hterminator⟩ := ih hbroken
      exact ⟨c, List.mem_append_right _ hc, hterminator⟩

/-- A line feed or a carriage return breaks the line, unless a comment is not closed. -/
lemma of_isLineFeed (h : GapLines offset gap rest flaw broken) (hflaw : flaw = none) {c : Char}
    (hc : c ∈ gap) (hfeed : isLineFeed c = true) : broken = true := by
  induction h with
  | nil => cases hc
  | unclosed => cases hflaw
  | @cons _ item _ _ _ _ _ _ ih =>
    refine Bool.or_eq_true_iff.2 ((List.mem_append.1 hc).imp (fun hc => ?_) (ih hflaw))
    unfold breaksLine
    split
    · rw [List.mem_singleton.1 hc] at hfeed
      exact isLineTerminator_of_isLineFeed hfeed
    · exact List.any_eq_true.2 ⟨c, hc, hfeed⟩

/-- Where there are no comments, every line terminator breaks the line. -/
lemma of_isLineTerminator (h : GapLines offset gap rest flaw broken) (hslash : '/' ∉ gap)
    (hhash : '#' ∉ gap) {c : Char} (hc : c ∈ gap) (hterminator : isLineTerminator c = true) :
    broken = true := by
  induction h with
  | nil => cases hc
  | unclosed => exact absurd List.mem_cons_self hslash
  | cons hitem _ ih =>
    rw [List.mem_append, not_or] at hslash hhash
    refine Bool.or_eq_true_iff.2 ((List.mem_append.1 hc).imp (fun hc => ?_) (ih hslash.2 hhash.2))
    cases hitem with
    | blank =>
      rw [List.mem_singleton.1 hc] at hterminator
      exact hterminator
    | lineComment => exact absurd List.mem_cons_self hslash.1
    | blockComment => exact absurd List.mem_cons_self hslash.1
    | scriptLine => exact absurd List.mem_cons_self hhash.1

end GapLines

/-- The gap before a token is made of items, and the token is told whether one of them breaks the
line.  It is told so only if there is a line terminator in the gap.  Every line feed and carriage return
counts, unless a comment is not closed, which is reported; and where there are no comments, every line
terminator does. -/
theorem afterLineBreak_of_next {c c' : Cursor} {flaw : Option Flaw} (h : c.next? = some (c', flaw)) :
    ∃ gap gapFlaw, c.rest = gap ++ (c'.token.text.toList ++ c'.rest) ∧
      c'.token.start = c.offset + byteWidth gap ∧ (gapFlaw = none ∨ flaw = gapFlaw) ∧
      GapLines c.offset gap (c'.token.text.toList ++ c'.rest) gapFlaw c'.token.afterLineBreak ∧
      (c'.token.afterLineBreak = true → ∃ x ∈ gap, isLineTerminator x = true) ∧
      (∀ x ∈ gap, isLineFeed x = true → c'.token.afterLineBreak = true ∨ gapFlaw ≠ none) ∧
      ('/' ∉ gap → '#' ∉ gap → ∀ x ∈ gap, isLineTerminator x = true →
        c'.token.afterLineBreak = true) := by
  obtain ⟨l, hread, heq⟩ := Option.map_eq_some_iff.1 h
  obtain ⟨gap, hsplit, hoffset, hlines⟩ := Gap.lines_read c.offset c.rest
  generalize Gap.read c.offset c.rest = g at hread heq hsplit hoffset hlines
  obtain ⟨rfl, rfl⟩ := Prod.mk.inj heq
  have htext : (String.ofList l.text).toList ++ l.rest = g.rest := by
    rw [String.toList_ofList, (Lexeme.takes_read hread).split]
  refine ⟨gap, g.flaw, ?_, hoffset, ?_, ?_, hlines.exists_isLineTerminator, ?_, ?_⟩
  · rw [Cursor.ofLexeme, htext]
    exact hsplit
  · cases g.flaw with
    | none => exact .inl rfl
    | some flaw => exact .inr rfl
  · rw [Cursor.ofLexeme, htext]
    exact hlines
  · intro x hx hfeed
    by_cases hflaw : g.flaw = none
    · exact .inl (hlines.of_isLineFeed hflaw hx hfeed)
    · exact .inr hflaw
  · intro hslash hhash x hx hterminator
    exact hlines.of_isLineTerminator hslash hhash hx hterminator

/-- After the first name of a script, a gap with a separator, a line comment and a block comment. -/
theorem afterLineBreak_of_next_mixed :
    ∃ c c' : Cursor, c.rest = "\u2028// b\r/* \u2029 */\tc".toList ∧ c.next? = some (c', none) ∧
      c'.token.afterLineBreak = true ∧
      ∃ gap gapFlaw, c.rest = gap ++ (c'.token.text.toList ++ c'.rest) ∧
        GapLines c.offset gap (c'.token.text.toList ++ c'.rest) gapFlaw true := by
  have hnext : (⟨⟨.identifier, 0, "a", "a", false⟩, "\u2028// b\r/* \u2029 */\tc".toList⟩ : Cursor).next? =
      some (⟨⟨.identifier, 19, "c", "c", true⟩, []⟩, none) := by decide
  obtain ⟨gap, gapFlaw, hsplit, _, _, hlines, _⟩ := afterLineBreak_of_next hnext
  exact ⟨_, _, rfl, hnext, rfl, gap, gapFlaw, hsplit, hlines⟩

/-- A separator in a comment is a line terminator between two tokens that the second one is not told
of.  By itself it is. -/
theorem separator_unseen_in_comment :
    isLineTerminator '\u2028' = true ∧
      ((tokens "a/*\u2028*/b\u2028c").map fun ts => ts.map fun t =>
        (t.1.text, t.1.afterLineBreak)) =
      some [("a", false), ("b", false), ("c", true), ("", false)] := by
  decide +kernel

end BindingProxy
