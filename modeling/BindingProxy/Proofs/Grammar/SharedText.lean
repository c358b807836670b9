import BindingProxy.Proofs.Grammar.Correspond
import BindingProxy.Proofs.Grammar.LookAhead
import BindingProxy.Proofs.Token.Endings

/-!
# One text in two scripts

The same text stands in two scripts, with a semicolon after it in one of them and a closing
parenthesis and a semicolon in the other.  Readers that start with it in both scripts see the same
tokens up to its end, so that they come to the same there.
-/

namespace BindingProxy

namespace Likeness

open Parse

/-- Cursors at the same token of the text. -/
structure InText (c d : Cursor) : Prop where
  atToken_left : c.AtToken
  atToken_right : d.AtToken
  token : c.token.Alike d.token
  ne_end : c.token.kind ≠ .endOfText
  start_left : 0 < c.token.start
  start_right : 0 < d.token.start
  rest : ∃ xs, c.rest = xs ++ [';'] ∧ d.rest = xs ++ [')', ';']

/-- Cursors just after the text. -/
structure AfterText (c d : Cursor) : Prop where
  atToken : c.AtToken
  kind_left : c.token.kind = .punctuator .semicolon
  kind_right : d.token.kind = .punctuator .closeParen
  afterLineBreak_eq : d.token.afterLineBreak = c.token.afterLineBreak
  rest_left : c.rest = []
  rest_right : d.rest = [';']

/-- The end of the first script, or a name that runs into it. -/
structure AtLeftEnd (c : Cursor) : Prop where
  kind : c.token.kind = .endOfText ∨ c.token.kind = .identifier
  rest : c.rest = []

/-- The end of the second script, or a name that runs into it. -/
structure AtRightEnd (d : Cursor) : Prop where
  kind : d.token.kind.IsEnding ∨ d.token.kind = .identifier
  rest : d.rest = [] ∨ d.rest = [';']

/-- Cursors in scripts that share a text. -/
def sharedText : Likeness where
  alike := InText
  last := AfterText
  leftPast := AtLeftEnd
  rightPast := AtRightEnd
  free := False

/-! ### The next tokens -/

/-- What the next tokens can be, from cursors with the same rest of the text after them. -/
inductive NextAlike (c d : Cursor) : Prop
  | unreadable (hc : c.next? = none) (hd : d.next? = none)
  | flawed {c' d' : Cursor} {flaw flaw' : Flaw} (hc : c.next? = some (c', some flaw))
      (hd : d.next? = some (d', some flaw')) (h : c'.token.SeenAlike d'.token)
  | inText {c' d' : Cursor} (hc : c.next? = some (c', none)) (hd : d.next? = some (d', none))
      (h : InText c' d')
  | afterText {c' d' : Cursor} (hc : c.next? = some (c', none)) (hd : d.next? = some (d', none))
      (h : AfterText c' d')
  | past {c' d' : Cursor} (hc : c.next? = some (c', none)) (hd : d.next? = some (d', none))
      (h : AtLeftEnd c') (h' : AtRightEnd d') (hseen : c'.token.SeenAlike d'.token)

lemma start_pos_of_next? {c c' : Cursor} {flaw : Option Flaw} (h : c.next? = some (c', flaw))
    (hc : 0 < c.offset) : 0 < c'.token.start := by
  obtain ⟨gap, _, hstart, _⟩ := Cursor.exists_gap_of_next? h
  omega

lemma next?_of_gap {c : Cursor} {offset : Nat} {broken : Bool} {flaw : Option Flaw} {rest : List Char}
    (h : Gap.read c.offset c.rest = ⟨offset, broken, flaw, rest⟩) : c.next? =
      (Lexeme.read offset rest).map fun l => (Cursor.ofLexeme offset broken l, flaw.or l.flaw) := by
  rw [Cursor.next?, h]

/-- A flaw on both sides or on neither. -/
lemma some_of_isSome {flaw flaw' : Option Flaw} {flawed : Bool} (h : flaw.isSome = flawed)
    (h' : flaw'.isSome = flawed) :
    (flaw = none ∧ flaw' = none) ∨ ∃ f f', flaw = some f ∧ flaw' = some f' := by
  cases flaw <;> cases flaw' <;> simp_all

variable {c d : Cursor}

lemma nextAlike {xs : List Char} (hc : c.rest = xs ++ [';'])
    (hd : d.rest = xs ++ [')', ';']) (hleft : 0 < c.offset) (hright : 0 < d.offset) :
    NextAlike c d := by
  cases Gap.ends_skip .between 0 false xs with
  | within broken flawed h =>
    obtain ⟨o, flaw, hgap, hflaw⟩ := h .between c.offset [';'] trivial hleft .semicolon
    obtain ⟨o', flaw', hgap', hflaw'⟩ := h .between d.offset [')', ';'] trivial hright .closeParen
    rw [← hc] at hgap
    rw [← hd] at hgap'
    have hnext := next?_of_gap hgap
    have hnext' := next?_of_gap hgap'
    have hends : TokenKind.endOfText.IsEnding := .inr (.inr rfl)
    rcases some_of_isSome hflaw hflaw' with ⟨rfl, rfl⟩ | ⟨f, f', rfl, rfl⟩
    · exact .past hnext hnext' ⟨.inl rfl, rfl⟩ ⟨.inl hends, .inl rfl⟩ (.inr ⟨hends, hends⟩)
    · exact .flawed hnext hnext' (.inr ⟨hends, hends⟩)
  | before broken rest h =>
    obtain ⟨o, hgap⟩ := h .between c.offset [';'] trivial hleft .semicolon
    obtain ⟨o', hgap'⟩ := h .between d.offset [')', ';'] trivial hright .closeParen
    rw [← hc] at hgap
    rw [← hd] at hgap'
    have hnext := next?_of_gap hgap
    have hnext' := next?_of_gap hgap'
    cases rest with
    | nil =>
      exact .afterText hnext hnext' ⟨Cursor.atToken_of_next? hnext, rfl, rfl, rfl, rfl, rfl⟩
    | cons x ys =>
      cases Lexeme.ends_read x ys with
      | unreadable h =>
        rw [h o _ .semicolon] at hnext
        rw [h o' _ .closeParen] at hnext'
        exact .unreadable hnext hnext'
      | before base h =>
        obtain ⟨l, hread, hl⟩ := h o _ .semicolon
        obtain ⟨l', hread', hl'⟩ := h o' _ .closeParen
        rw [hread, Option.map_some, Option.none_or] at hnext
        rw [hread', Option.map_some, Option.none_or] at hnext'
        have hlooks : (Cursor.ofLexeme o broken l).token.LooksAlike (Cursor.ofLexeme o' broken l').token :=
          ⟨hl'.kind.trans hl.kind.symm, rfl⟩
        rcases some_of_isSome hl.flaw hl'.flaw with ⟨hnone, hnone'⟩ | ⟨f, f', hsome, hsome'⟩
        · rw [hnone] at hnext
          rw [hnone'] at hnext'
          refine .inText hnext hnext' ⟨Cursor.atToken_of_next? hnext, Cursor.atToken_of_next? hnext',
            ⟨hlooks, ?_, ?_⟩, (Lexeme.ne_nil_of_read hread).2, start_pos_of_next? hnext hleft,
            start_pos_of_next? hnext' hright, base.rest, hl.rest, hl'.rest⟩
          · exact congrArg String.ofList (hl'.text.trans hl.text.symm)
          · exact congrArg String.ofList (hl'.value.trans hl.value.symm)
        · rw [hsome] at hnext
          rw [hsome'] at hnext'
          exact .flawed hnext hnext' (.inl hlooks)
      | flawed kind h =>
        obtain ⟨l, hread, hkind, hflaw⟩ := h o _ .semicolon
        obtain ⟨l', hread', hkind', hflaw'⟩ := h o' _ .closeParen
        obtain ⟨f, hsome⟩ := Option.isSome_iff_exists.1 hflaw
        obtain ⟨f', hsome'⟩ := Option.isSome_iff_exists.1 hflaw'
        rw [hread, Option.map_some, Option.none_or, hsome] at hnext
        rw [hread', Option.map_some, Option.none_or, hsome'] at hnext'
        exact .flawed hnext hnext' (.inl ⟨hkind'.trans hkind.symm, rfl⟩)
      | within h =>
        obtain ⟨l, hread, hkind, hflaw, hrest⟩ := h o _ .semicolon
        obtain ⟨l', hread', hkind', hflaw', hrest'⟩ := h o' _ .closeParen
        rw [hread, Option.map_some, Option.none_or, hflaw] at hnext
        rw [hread', Option.map_some, Option.none_or, hflaw'] at hnext'
        refine .past hnext hnext' ⟨.inr hkind, hrest.resolve_right fun h => ?_⟩
          ⟨.inr hkind', hrest'.imp_right fun h => h.2⟩ (.inl ⟨hkind'.trans hkind.symm, rfl⟩)
        cases h.1

lemma InText.nextAlike (h : InText c d) : NextAlike c d := by
  obtain ⟨xs, hc, hd⟩ := h.rest
  have hpos : ∀ {t : Token}, 0 < t.start → 0 < t.stop := fun {t} ht => Nat.lt_of_lt_of_le ht (Nat.le_add_right _ _)
  exact Likeness.nextAlike hc hd (hpos h.start_left) (hpos h.start_right)

lemma NextAlike.advance (h : NextAlike c d) :
    sharedText.Agree (Parse.advance c) (Parse.advance d) := by
  cases h with
  | unreadable hc hd =>
    rw [Parse.advance, Parse.advance, hc, hd]
    exact .unreadable
  | flawed hc hd _ =>
    rw [Parse.advance, Parse.advance, hc, hd]
    exact .lost trivial trivial
  | inText hc hd h =>
    rw [advance_of_next? hc, advance_of_next? hd]
    exact .alike () h
  | afterText hc hd h =>
    rw [advance_of_next? hc, advance_of_next? hd]
    exact .last () h
  | past hc hd h h' _ =>
    rw [advance_of_next? hc, advance_of_next? hd]
    exact .lost h (.inr h')

lemma InText.seen (h : InText c d) : (c.next? = none ∧ d.next? = none) ∨
    ∃ reached reached', c.next? = some reached ∧ d.next? = some reached' ∧
      reached.1.token.SeenAlike reached'.1.token := by
  cases h.nextAlike with
  | unreadable hc hd => exact .inl ⟨hc, hd⟩
  | flawed hc hd h => exact .inr ⟨_, _, hc, hd, h⟩
  | inText hc hd h => exact .inr ⟨_, _, hc, hd, .inl h.token.toLooksAlike⟩
  | afterText hc hd h => exact .inr ⟨_, _, hc, hd, .inr ⟨.inl h.kind_left, .inr (.inl h.kind_right)⟩⟩
  | past hc hd _ _ h => exact .inr ⟨_, _, hc, hd, h⟩

/-! ### Tokens that are read again -/

/-- A token of the text that is read again by a reader that is never left inside a name. -/
lemma InText.rereadAlike (h : InText c d) {lexeme : Nat → List Char → Lexeme}
    (hends : ∀ xs, Lexeme.Ends (fun start text => some (lexeme start text)) xs)
    (hkind : ∀ start text, (lexeme start text).kind ≠ .identifier ∧
      (lexeme start text).kind ≠ .endOfText)
    (hleft : (Cursor.ofLexeme c.token.start c.token.afterLineBreak (lexeme c.token.start c.tail)).AtToken)
    (hright : (Cursor.ofLexeme d.token.start d.token.afterLineBreak (lexeme d.token.start d.tail)).AtToken) :
    sharedText.RereadAlike
      (Cursor.ofLexeme c.token.start c.token.afterLineBreak (lexeme c.token.start c.tail),
        (lexeme c.token.start c.tail).flaw)
      (Cursor.ofLexeme d.token.start d.token.afterLineBreak (lexeme d.token.start d.tail),
        (lexeme d.token.start d.tail).flaw) := by
  obtain ⟨xs, hc, hd⟩ := h.rest
  have htail : c.tail = (c.token.text.toList.drop 1 ++ xs) ++ [';'] := by
    rw [Cursor.tail, hc, List.append_assoc]
  have htail' : d.tail = (c.token.text.toList.drop 1 ++ xs) ++ [')', ';'] := by
    rw [Cursor.tail, hd, h.token.text_eq, List.append_assoc]
  rw [htail] at hleft ⊢
  rw [htail'] at hright ⊢
  cases hends (c.token.text.toList.drop 1 ++ xs) with
  | unreadable h => cases h 0 _ .semicolon
  | before base hbase =>
    obtain ⟨_, ⟨⟩, hl⟩ := hbase c.token.start _ .semicolon
    obtain ⟨_, ⟨⟩, hl'⟩ := hbase d.token.start _ .closeParen
    rcases some_of_isSome hl.flaw hl'.flaw with ⟨hnone, hnone'⟩ | ⟨f, f', hsome, hsome'⟩
    · refine .inr ⟨_, _, Prod.ext rfl hnone, Prod.ext rfl hnone', hleft, hright, ⟨⟨?_, ?_⟩, ?_, ?_⟩,
        (hkind _ _).2, h.start_left, h.start_right, base.rest, hl.rest, hl'.rest⟩
      · exact hl'.kind.trans hl.kind.symm
      · exact h.token.afterLineBreak_eq
      · exact congrArg String.ofList (hl'.text.trans hl.text.symm)
      · exact congrArg String.ofList (hl'.value.trans hl.value.symm)
    · rw [hsome, hsome']
      exact .inl ⟨by rintro ⟨⟩, by rintro ⟨⟩⟩
  | flawed kind hflawed =>
    obtain ⟨_, ⟨⟩, _, hflaw⟩ := hflawed c.token.start _ .semicolon
    obtain ⟨_, ⟨⟩, _, hflaw'⟩ := hflawed d.token.start _ .closeParen
    exact .inl ⟨Option.isSome_iff_ne_none.1 hflaw, Option.isSome_iff_ne_none.1 hflaw'⟩
  | within hwithin =>
    obtain ⟨_, ⟨⟩, hname, _⟩ := hwithin c.token.start _ .semicolon
    exact absurd hname (hkind _ _).1

/-- Where neither cursor is read again, nothing happens. -/
lemma InText.rereadAlike_of_eq (h : InText c d) {reached reached' : Cursor × Option Flaw}
    (hc : reached = (c, none)) (hd : reached' = (d, none)) : sharedText.RereadAlike reached reached' :=
  .inr ⟨c, d, hc, hd, h⟩

lemma InText.rereadSlash (h : InText c d) : sharedText.RereadAlike c.rereadSlash d.rereadSlash := by
  have hkind : ∀ start text, (Lexeme.regExp start text).kind ≠ .identifier ∧
      (Lexeme.regExp start text).kind ≠ .endOfText := by
    intro start text
    rw [Lexeme.regExp_of_run rfl]
    split <;> exact ⟨by rintro ⟨⟩, by rintro ⟨⟩⟩
  by_cases hslash : c.token.kind = .punctuator .slash ∨ c.token.kind = .punctuator .slashAssign
  · have hreread : ∀ {c : Cursor},
        c.token.kind = .punctuator .slash ∨ c.token.kind = .punctuator .slashAssign →
        c.rereadSlash = (Cursor.ofLexeme c.token.start c.token.afterLineBreak
          (Lexeme.regExp c.token.start c.tail), (Lexeme.regExp c.token.start c.tail).flaw) := by
      rintro c (hp | hp) <;> rw [Cursor.rereadSlash, hp]
    have hc := hreread hslash
    have hd := hreread (c := d) (by rwa [h.token.kind_eq])
    rw [hc, hd]
    exact h.rereadAlike Lexeme.ends_regExp hkind
      (Cursor.rereads_of_rereadSlash h.atToken_left hc).atToken
      (Cursor.rereads_of_rereadSlash h.atToken_right hd).atToken
  · have hreread : ∀ {c : Cursor},
        ¬ (c.token.kind = .punctuator .slash ∨ c.token.kind = .punctuator .slashAssign) →
        c.rereadSlash = (c, none) := by
      intro c hnot
      unfold Cursor.rereadSlash
      split
      · next hp => exact absurd (.inl hp) hnot
      · next hp => exact absurd (.inr hp) hnot
      · rfl
    exact h.rereadAlike_of_eq (hreread hslash) (hreread (by rwa [h.token.kind_eq]))

lemma InText.rereadBrace (h : InText c d) : sharedText.RereadAlike c.rereadBrace d.rereadBrace := by
  have hkind : ∀ start text, (Lexeme.chunk start false '\x7d' text).kind ≠ .identifier ∧
      (Lexeme.chunk start false '\x7d' text).kind ≠ .endOfText := by
    intro start text
    have hchunk : ∀ stop, Lexeme.chunkKind false stop ≠ .identifier ∧
        Lexeme.chunkKind false stop ≠ .endOfText := by
      intro stop
      cases stop <;> exact ⟨by rintro ⟨⟩, by rintro ⟨⟩⟩
    exact hchunk _
  by_cases hbrace : c.token.kind = .punctuator .closeBrace
  · have hreread : ∀ {c : Cursor}, c.token.kind = .punctuator .closeBrace →
        c.rereadBrace = (Cursor.ofLexeme c.token.start c.token.afterLineBreak
          (Lexeme.chunk c.token.start false '\x7d' c.tail),
          (Lexeme.chunk c.token.start false '\x7d' c.tail).flaw) := by
      intro c hp
      rw [Cursor.rereadBrace, hp]
    have hc := hreread hbrace
    have hd := hreread (h.token.kind_eq.trans hbrace)
    rw [hc, hd]
    exact h.rereadAlike (Lexeme.ends_chunk false '\x7d') hkind
      (Cursor.rereads_of_rereadBrace h.atToken_left hc).atToken
      (Cursor.rereads_of_rereadBrace h.atToken_right hd).atToken
  · have hreread : ∀ {c : Cursor}, c.token.kind ≠ .punctuator .closeBrace →
        c.rereadBrace = (c, none) := by
      intro c hnot
      unfold Cursor.rereadBrace
      split
      · next hp => exact absurd hp hnot
      · rfl
    exact h.rereadAlike_of_eq (hreread hbrace) (hreread (by rwa [h.token.kind_eq]))

/-! ### Beyond the text -/

/-- At the end of a script the end of the script comes next. -/
lemma next?_of_rest_nil {c : Cursor} (h : c.rest = []) :
    ∃ c', c.next? = some (c', none) ∧ c'.token.kind = .endOfText ∧ c'.rest = [] := by
  have hgap : Gap.read c.offset c.rest = ⟨c.offset, false, none, []⟩ := by
    rw [h, Gap.read, Gap.skip]
  exact ⟨_, next?_of_gap hgap, rfl, rfl⟩

lemma next?_of_rest_semicolon {d : Cursor} (h : d.rest = [';']) :
    ∃ d', d.next? = some (d', none) ∧ d'.token.kind = .punctuator .semicolon ∧ d'.rest = [] := by
  have hgap : Gap.read d.offset d.rest = ⟨d.offset, false, none, [';']⟩ := by
    rw [h, Gap.read, Gap.skip.eq_5 _ _ _ _ (by rintro _ ⟨⟩) (by rintro _ ⟨⟩) (by rintro _ _ ⟨⟩)]
    rfl
  exact ⟨_, next?_of_gap hgap, rfl, rfl⟩

/-- What stands at the end of a script is not read again. -/
lemma rereads_of_ending {c : Cursor} (h : c.token.kind.IsEnding ∨ c.token.kind = .identifier) :
    c.rereadSlash = (c, none) ∧ c.rereadBrace = (c, none) := by
  rw [Cursor.rereadSlash, Cursor.rereadBrace]
  rcases h with (h | h | h) | h <;> rw [h] <;> exact ⟨rfl, rfl⟩

lemma AtLeftEnd.kind_cases {c : Cursor} (h : AtLeftEnd c) :
    c.token.kind.IsEnding ∨ c.token.kind = .identifier := h.kind.imp_left fun h => .inr (.inr h)

lemma AtRightEnd.next? {d : Cursor} (h : AtRightEnd d) :
    ∃ d', d.next? = some (d', none) ∧ AtRightEnd d' := by
  rcases h.rest with hrest | hrest
  · obtain ⟨d', hnext, hkind, hrest'⟩ := next?_of_rest_nil hrest
    exact ⟨d', hnext, .inl (.inr (.inr hkind)), .inl hrest'⟩
  · obtain ⟨d', hnext, hkind, hrest'⟩ := next?_of_rest_semicolon hrest
    exact ⟨d', hnext, .inl (.inl hkind), .inl hrest'⟩

instance : sharedText.Lawful where
  token h := h.token
  advance h := h.nextAlike.advance
  seen h := h.seen
  rereadSlash h := h.rereadSlash
  rereadBrace h := h.rereadBrace
  last_left h := h.kind_left
  last_right h := h.kind_right
  last_afterLineBreak h := h.afterLineBreak_eq
  last_atToken h := h.atToken
  last_next h := by
    obtain ⟨c', hnext, hkind, hrest⟩ := next?_of_rest_nil h.rest_left
    exact ⟨c', hnext, .inl hkind, hrest⟩
  last_rightPast h := ⟨.inl (.inr (.inl h.kind_right)), .inr h.rest_right⟩
  last_seen h hc hd := by
    obtain ⟨c', hnext, hkind, _⟩ := next?_of_rest_nil h.rest_left
    obtain ⟨d', hnext', hkind', _⟩ := next?_of_rest_semicolon h.rest_right
    cases hc.symm.trans hnext
    cases hd.symm.trans hnext'
    exact ⟨.inr (.inr hkind), .inl hkind'⟩
  left_next h := by
    obtain ⟨c', hnext, hkind, hrest⟩ := next?_of_rest_nil h.rest
    exact ⟨c', hnext, .inl hkind, hrest⟩
  right_next h := h.next?
  left_slash h := (rereads_of_ending h.kind_cases).1
  left_brace h := (rereads_of_ending h.kind_cases).2
  right_slash h := (rereads_of_ending h.kind).1
  right_brace h := (rereads_of_ending h.kind).2

/-! ### Looking ahead -/

/-- What looking ahead from a cursor makes of a reply. -/
def answerAt (c : Cursor) : Reply Bool → Reply Bool
  | .ok answer _ => .ok answer c
  | .fail (.refused _) => .ok false c
  | .fail failure => .fail failure

lemma lostLeft_answerAt {c : Cursor} {r : Reply Bool} (hc : AtLeftEnd c) (h : sharedText.LostLeft r) :
    sharedText.LostLeft (answerAt c r) := by
  cases r with
  | ok => exact hc
  | fail failure =>
    cases failure with
    | refused => exact hc
    | stalled => trivial
    | unreadable => exact h

lemma lostRight_answerAt {d : Cursor} {r : Reply Bool} (hd : AtRightEnd d)
    (h : sharedText.LostRight r) : sharedText.LostRight (answerAt d r) := by
  cases r with
  | ok => exact .inr hd
  | fail failure =>
    cases failure with
    | refused => exact .inr hd
    | stalled => trivial
    | unreadable => exact h

/-- Looking ahead comes to the same, if nothing is found beyond the text. -/
lemma Agree.answerAt {r r' : Reply Bool} (h : sharedText.Agree r r')
    (hcd : ∀ answer : Bool, sharedText.Agree (.ok answer c) (.ok answer d))
    (hleft : ∀ answer c', r = .ok answer c' → AtLeftEnd c' → answer = false)
    (hright : ∀ answer d', r' = .ok answer d' → AtRightEnd d' → answer = false) :
    sharedText.Agree (answerAt c r) (answerAt d r') := by
  cases h with
  | stalledLeft => exact .stalledLeft _
  | stalledRight => exact .stalledRight _
  | unreadable => exact .unreadable
  | alike answer _ => exact hcd answer
  | last answer _ => exact hcd answer
  | lost h h' =>
    have hno : Likeness.answerAt c r = .ok false c ∨ Likeness.answerAt c r = .fail .stalled := by
      cases r with
      | ok answer c' => exact .inl (by rw [hleft answer c' rfl h]; rfl)
      | fail failure =>
        cases failure with
        | refused => exact .inl rfl
        | stalled => exact .inr rfl
        | unreadable => exact h.elim
    have hno' : Likeness.answerAt d r' = .ok false d ∨ Likeness.answerAt d r' = .fail .stalled := by
      cases r' with
      | ok answer d' => exact .inl (by rw [hright answer d' rfl (h'.resolve_left id)]; rfl)
      | fail failure =>
        cases failure with
        | refused => exact .inl rfl
        | stalled => exact .inr rfl
        | unreadable => exact h'.elim
    rcases hno with hno | hno
    · rcases hno' with hno' | hno'
      · rw [hno, hno']
        exact hcd false
      · rw [hno']
        exact .stalledRight _
    · rw [hno]
      exact .stalledLeft _

lemma Corresponds.lookAhead {p q : Parse Bool} (h : sharedText.Corresponds p q)
    (hleft : ∀ {c answer c'}, p c = .ok answer c' → AtLeftEnd c' → answer = false)
    (hright : ∀ {d answer d'}, q d = .ok answer d' → AtRightEnd d' → answer = false) :
    sharedText.Corresponds (lookAhead p) (lookAhead q) where
  agree hcd := (h.agree hcd).answerAt (fun answer => .alike answer hcd) (fun _ _ => hleft)
    fun _ _ => hright
  left hc := lostLeft_answerAt hc (h.left hc)
  right hd := lostRight_answerAt hd (h.right hd)
  last hcd := (h.last hcd).answerAt (fun answer => .last answer hcd) (fun _ _ => hleft)
    fun _ _ => hright

end Likeness

namespace Grammar

open Parse Likeness

variable {g g' : Grammar} (ctx : Context)

lemma not_arrow_of_ending {t : Token} (h : t.kind.IsEnding ∨ t.kind = .identifier) :
    (t.kind == .punctuator .arrow && !t.afterLineBreak) = false := by
  rcases h with (h | h | h) | h <;> rw [h] <;> rfl

/-- No arrow function begins at the end of a script. -/
lemma isArrowAhead_of_ending {c c' : Cursor} {flaw : Option Flaw}
    (h : c.token.kind.IsEnding ∨ c.token.kind = .identifier) (hnext : c.next? = some (c', flaw))
    (h' : c'.token.kind.IsEnding ∨ c'.token.kind = .identifier) : isArrowAhead g ctx c = .ok false c := by
  unfold isArrowAhead
  rw [kind_bind]
  rcases h with (h | h | h) | h <;> rw [h]
  · rfl
  · rfl
  · rfl
  · have hpeek : peek c = .ok c'.token c := by rw [peek, hnext]
    have hname : TokenKind.identifier.isName = true := rfl
    rw [if_pos hname, bind_of_ok hpeek, not_arrow_of_ending h']
    rfl

lemma isArrowAhead_of_atLeftEnd {c : Cursor} (h : AtLeftEnd c) : isArrowAhead g ctx c = .ok false c := by
  obtain ⟨c', hnext, hkind, _⟩ := next?_of_rest_nil h.rest
  exact isArrowAhead_of_ending ctx h.kind_cases hnext (.inl (.inr (.inr hkind)))

lemma isArrowAhead_of_atRightEnd {d : Cursor} (h : AtRightEnd d) :
    isArrowAhead g ctx d = .ok false d := by
  obtain ⟨d', hnext, h'⟩ := h.next?
  exact isArrowAhead_of_ending ctx h.kind hnext h'.kind

variable (hh : Corresponding sharedText g g')
include hh

lemma corresponds_isArrowAhead : sharedText.Corresponds (isArrowAhead g ctx) (isArrowAhead g' ctx) := by
  refine .kind (fun k => .ite ?_ (.ite ?_ (.pure _))) rfl
  · refine corresponds_peek (fun t t' h => by rw [h.kind_eq, h.afterLineBreak_eq]) fun t h => ?_
    exact not_arrow_of_ending (.inl h)
  · have hanswer : ∀ {g : Grammar} {c c' : Cursor} {answer : Bool}, (do
        let _ ← parameters g ctx
        let t ← token
        return t.kind == .punctuator .arrow && !t.afterLineBreak : Parse Bool) c = .ok answer c' →
        c'.token.kind.IsEnding ∨ c'.token.kind = .identifier → answer = false := by
      intro g c c' answer hok hkind
      obtain ⟨_, c'', _, hok⟩ := exists_of_bind_eq_ok hok
      cases hok
      exact not_arrow_of_ending hkind
    refine .lookAhead ((corresponds_parameters hh ctx).bind fun _ => ⟨.token fun t t' h => ?_,
      fun {c d} h => ?_⟩) (fun hok h => hanswer hok h.kind_cases) fun hok h => hanswer hok h.kind
    · rw [h.kind_eq, h.afterLineBreak_eq]
      exact (Corresponds.pure _).toWithin
    · rw [token_bind, token_bind,
        not_arrow_of_ending (.inl (.inl h.kind_left)), not_arrow_of_ending (.inl (.inr (.inl h.kind_right)))]
      exact .last false h

lemma corresponds_isAsyncArrowAhead :
    sharedText.Corresponds (isAsyncArrowAhead g ctx) (isAsyncArrowAhead g' ctx) := by
  refine .ifKind ?_ (.pure _) ⟨by rintro ⟨⟩, by rintro ⟨⟩⟩
  have hanswer : ∀ {g : Grammar} {c c' : Cursor} {answer : Bool}, (do
      advance
      if ← afterLineBreak then return false
      isArrowAhead g ctx : Parse Bool) c = .ok answer c' →
      isArrowAhead g ctx c' = .ok false c' → answer = false := by
    intro g c c' answer hok hnone
    obtain ⟨_, c'', _, hok⟩ := exists_of_bind_eq_ok hok
    rw [afterLineBreak_bind] at hok
    split at hok
    · cases hok
      rfl
    · rcases (stays_isArrowAhead ctx : Stays (isArrowAhead g ctx)) c'' with ⟨_, hstay⟩ | ⟨_, hfail, _⟩
      · cases hstay.symm.trans hok
        cases hok.symm.trans hnone
        rfl
      · cases hfail.symm.trans hok
  refine .lookAhead (.advanceThen (.afterLineBreak fun _ =>
    .ite (.pure _) (corresponds_isArrowAhead ctx hh)))
    (fun hok h => hanswer hok (isArrowAhead_of_atLeftEnd ctx h))
    fun hok h => hanswer hok (isArrowAhead_of_atRightEnd ctx h)

omit hh in
/-- On every level the two scripts are read alike. -/
theorem corresponding_level (n : Nat) : Corresponding sharedText (level n) (level n) := by
  induction n with
  | zero => exact corresponding_exhausted sharedText
  | succ n ih =>
    exact ih.above fun ctx => corresponds_assignmentExpression ih ctx
      (corresponds_arrowFunction? ih ctx (corresponds_isAsyncArrowAhead ctx ih)
        (corresponds_isArrowAhead ctx ih))

end Grammar

end BindingProxy
