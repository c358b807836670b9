import BindingProxy.Proofs.Token.Endings
import BindingProxy.Proofs.Token.Flawless
import BindingProxy.Proofs.Token.Stream

/-!
# How texts open

The first character of a text tells much about its first token, whatever follows: only a letter, a
dollar sign, an underscore or a backslash begins a word, and a punctuator begins as it is spelled.
`Solid` texts begin with a token right away and not with a colon.

A name that has an end of its own is read again wherever something follows that does not go on with
it.  One that is cut short takes in a semicolon after it, and then nothing is left.
-/

namespace BindingProxy

namespace Lexeme

/-! ### The first character of a lexeme -/

variable {start : Nat} {c : Char} {rest : List Char} {l : Lexeme}

lemma begins_of_read_word (h : read start (c :: rest) = some l) (hkind : l.kind.isWord = true) :
    isNameStart c = true ∨ c = '\\' := by
  obtain ⟨_, _, htext, hx, _⟩ := word_of_read h hkind
  cases htext
  exact hx

/-- The text of a lexeme begins with the first character. -/
lemma text_of_read (h : read start (c :: rest) = some l) : ∃ cs, l.text = c :: cs := by
  obtain ⟨d, cs, htext⟩ := List.exists_cons_of_ne_nil (ne_nil_of_read h).1
  have hsplit := (takes_read h).split
  rw [htext] at hsplit
  obtain rfl : d = c := (List.cons.inj hsplit).1
  exact ⟨cs, htext⟩

lemma begins_of_read_punctuator
    {p : Punctuator} (h : read start (c :: rest) = some l) (hkind : l.kind = .punctuator p) :
    ∃ cs, p.text.toList = c :: cs := by
  obtain ⟨cs, htext⟩ := text_of_read h
  exact ⟨cs, by rw [← (takes_read h).punctuator p hkind, htext]⟩

end Lexeme

/-! ### Texts that begin with a token -/

/-- A text that begins with a token right away, which is no colon, whatever follows the text. -/
inductive Solid : List Char → Prop where
  | plain {c : Char} {rest : List Char} (hblank : isBlank c = false)
    (hother : c ≠ '/' ∧ c ≠ '#' ∧ c ≠ ':') : Solid (c :: rest)
  | slash {c : Char} {rest : List Char} (hc : c ≠ '/' ∧ c ≠ '*') : Solid ('/' :: c :: rest)

namespace Solid

variable {xs : List Char}

lemma append (h : Solid xs) (ys : List Char) : Solid (xs ++ ys) := by
  cases h with
  | plain hblank hother => exact .plain hblank hother
  | slash hc => exact .slash hc

lemma of_begins {c : Char} {rest : List Char} (h : isNameStart c = true ∨ c = '\\') :
    Solid (c :: rest) := by
  have hne : ∀ d, isNameStart d = false → d ≠ '\\' → c ≠ d := by
    rintro d hd hescape rfl
    rw [hd] at h
    exact hescape (h.resolve_left Bool.false_ne_true)
  refine .plain ?_ ⟨hne _ (by decide) (by decide), hne _ (by decide) (by decide),
    hne _ (by decide) (by decide)⟩
  rcases h with h | rfl
  · exact isBlank_of_isNameStart h
  · decide

lemma gap (h : Solid xs) (start : Nat) : Gap.read start xs = ⟨start, false, none, xs⟩ := by
  cases h with
  | plain hblank hother => exact Word.gap_read hblank hother.1 hother.2.1 start _
  | @slash c rest hc =>
    have hfirst : ∀ rest', c :: rest = '/' :: rest' → False := fun _ heq =>
      hc.1 (List.cons.inj heq).1
    have hsecond : ∀ rest', c :: rest = '*' :: rest' → False := fun _ heq =>
      hc.2 (List.cons.inj heq).1
    rw [Gap.read, Gap.skip.eq_5 _ _ _ _ (fun rest' _ => hfirst rest') (fun rest' _ => hsecond rest')
      (fun _ _ hc => absurd hc (by decide)), if_neg (by decide), if_neg (by decide)]

/-- The first token is read from the first character on. -/
lemma exists_read (h : Solid xs) {start : Nat} {c : Cursor} {flaw : Option Flaw}
    (hnext : Cursor.nextAfter false start xs = some (c, flaw)) :
    ∃ l, Lexeme.read start xs = some l ∧ c = Cursor.ofLexeme start false l := by
  have hgap : Gap.skip .between start false xs = ⟨start, false, none, xs⟩ := h.gap start
  rw [Cursor.nextAfter, hgap] at hnext
  obtain ⟨l, hread, heq⟩ := Option.map_eq_some_iff.1 hnext
  exact ⟨l, hread, (Prod.mk.inj heq).1.symm⟩

/-- The first token is no colon. -/
lemma ne_colon (h : Solid xs) {start : Nat} {c : Cursor} {flaw : Option Flaw}
    (hnext : Cursor.nextAfter false start xs = some (c, flaw)) :
    c.token.kind ≠ .punctuator .colon := by
  obtain ⟨l, hread, rfl⟩ := h.exists_read hnext
  intro hkind
  cases h with
  | plain _ hother =>
    obtain ⟨cs, hcs⟩ := Lexeme.begins_of_read_punctuator hread hkind
    exact hother.2.2 (List.cons.inj hcs).1.symm
  | slash _ =>
    obtain ⟨cs, hcs⟩ := Lexeme.begins_of_read_punctuator hread hkind
    exact absurd (List.cons.inj hcs).1 (by decide)

end Solid

lemma BeginsName.solid {w : String} (h : BeginsName w) : Solid w.toList := by
  obtain ⟨x, xs, hw, hx⟩ := h
  rw [hw]
  exact .of_begins hx

/-- A text that is empty or begins with a token which is no colon, maybe after a blank. -/
inductive Colonless : List Char → Prop where
  | nil : Colonless []
  | solid {xs : List Char} (h : Solid xs) : Colonless xs
  | blank {xs : List Char} (h : Solid xs) : Colonless (' ' :: xs)

namespace Colonless

variable {xs ys : List Char}

lemma append (h : Colonless xs) (h' : Colonless ys) : Colonless (xs ++ ys) := by
  cases h with
  | nil => exact h'
  | solid h => exact .solid (h.append ys)
  | blank h => exact .blank (h.append ys)

/-- The next token is no colon. -/
lemma ne_colon (h : Colonless xs) {start : Nat} {c : Cursor} {flaw : Option Flaw}
    (hnext : Cursor.nextAfter false start xs = some (c, flaw)) :
    c.token.kind ≠ .punctuator .colon := by
  cases h with
  | nil =>
    cases hnext
    rintro ⟨⟩
  | solid h => exact h.ne_colon hnext
  | blank h =>
    rw [Cursor.nextAfter_blank] at hnext
    exact h.ne_colon hnext

end Colonless

lemma Lexeme.EndsName.append {xs ys : List Char} (h : EndsName xs) (h' : EndsName ys) :
    EndsName (xs ++ ys) := by
  cases xs with
  | nil => exact h'
  | cons x xs => exact h

/-! ### Texts that begin with a mark -/

/-- A text that begins with a token that is no word, brace, semicolon or colon. -/
structure Marked (xs : List Char) : Prop where
  solid : Solid xs
  head : ∀ c rest, xs = c :: rest → isNameStart c = false ∧ c ≠ '\\' ∧ c ≠ '\x7b' ∧ c ≠ ';'

namespace Marked

variable {xs : List Char}

lemma append (h : Marked xs) (ys : List Char) : Marked (xs ++ ys) where
  solid := h.solid.append ys
  head c rest heq := by
    cases xs with
    | nil => cases h.solid
    | cons x xs =>
      cases heq
      exact h.head c xs rfl

/-- A text that begins with one of the characters that begin no word. -/
lemma of_char {c : Char} {rest : List Char} (hblank : isBlank c = false)
    (hname : isNameStart c = false)
    (hother : c ∉ ['/', '#', ':', '\\', '\x7b', ';']) : Marked (c :: rest) := by
  simp only [List.mem_cons, List.not_mem_nil, or_false, not_or] at hother
  obtain ⟨hslash, hhash, hcolon, hescape, hbrace, hsemicolon⟩ := hother
  refine ⟨.plain hblank ⟨hslash, hhash, hcolon⟩, ?_⟩
  rintro c rest ⟨⟩
  exact ⟨hname, hescape, hbrace, hsemicolon⟩

/-- The first token is neither a word nor a brace or a semicolon. -/
lemma kind (h : Marked xs) {start : Nat} {c : Cursor} {flaw : Option Flaw}
    (hnext : Cursor.nextAfter false start xs = some (c, flaw)) :
    c.token.kind.isWord = false ∧ c.token.kind ≠ .punctuator .openBrace ∧
      c.token.kind ≠ .punctuator .semicolon := by
  obtain ⟨l, hread, rfl⟩ := h.solid.exists_read hnext
  cases xs with
  | nil => cases h.solid
  | cons x xs =>
    obtain ⟨hname, hescape, hbrace, hsemicolon⟩ := h.head x xs rfl
    refine ⟨?_, fun hkind => ?_, fun hkind => ?_⟩
    · by_contra hword
      rcases Lexeme.begins_of_read_word hread (eq_true_of_ne_false hword) with hx | hx
      · rw [hname] at hx
        cases hx
      · exact hescape hx
    · obtain ⟨cs, hcs⟩ := Lexeme.begins_of_read_punctuator hread hkind
      exact hbrace (List.cons.inj hcs).1.symm
    · obtain ⟨cs, hcs⟩ := Lexeme.begins_of_read_punctuator hread hkind
      exact hsemicolon (List.cons.inj hcs).1.symm

end Marked

/-! ### Spellings of words -/

namespace TokenKind

/-- A word of the language is spelled in one way. -/
lemma ofWord?_cases (text : String) : ofWord? text = none ∨
    (∃ r, ofWord? text = some (reserved r) ∧ text = r.text) ∨
      ∃ r, ofWord? text = some (contextual r) ∧ text = r.text := by
  unfold ofWord?
  cases hreserved : ReservedWord.all.find? fun w => w.text == text with
  | some r =>
    have hr := List.find?_some hreserved
    exact .inr (.inl ⟨r, rfl, (beq_iff_eq.1 hr).symm⟩)
  | none =>
    cases hcontextual : ContextualWord.all.find? fun w => w.text == text with
    | some r =>
      have hr := List.find?_some hcontextual
      exact .inr (.inr ⟨r, rfl, (beq_iff_eq.1 hr).symm⟩)
    | none => exact .inl rfl

end TokenKind

/-! ### Names again -/

/-- The word that is read from a name. -/
def nameWord (w : String) : Word := ⟨(TokenKind.ofWord? w).getD .identifier, w⟩

/-- A name with an end of its own is a token. -/
lemma Whole.isToken {w : String} (h : Whole w) (hname : BeginsName w) : (nameWord w).IsToken := by
  obtain ⟨x, xs, hw, hx⟩ := hname
  have hread : Lexeme.read 0 (w.toList ++ [';']) = Lexeme.name 0 (w.toList ++ [';']) := by
    rw [hw]
    exact Lexeme.read_eq_name hx 0 _
  have hrun : Lexeme.nameRun .parts 0 (w.toList ++ [';']) = some (w.toList, none, [';']) := h
  rw [Word.IsToken, nameWord, hread, Lexeme.name_of_run hrun, String.ofList_toList]

/-- A name with an end of its own is read before all that does not go on with it. -/
lemma Whole.stands {w : String} (h : Whole w) (hname : BeginsName w) {tail : List Char}
    (htail : Lexeme.EndsName tail) : (nameWord w).Stands tail :=
  (h.isToken hname).stands_of_isWord (Lexeme.isWord_ofWord? w) htail

namespace Lexeme

/-- How a name that has been read to the end of a text is read before a semicolon: it cannot be
read, it is whole, or it takes in the semicolon. -/
inductive BeforeSemicolon (xs : List Char) :
    Option (List Char × Option Flaw × List Char) → Prop where
  | unreadable : BeforeSemicolon xs none
  | whole : BeforeSemicolon xs (some (xs, none, [';']))
  | cut : BeforeSemicolon xs (some (xs ++ [';'], none, []))

lemma BeforeSemicolon.map {xs : List Char} {run : Option (List Char × Option Flaw × List Char)}
    (front : List Char) (h : BeforeSemicolon xs run) :
    BeforeSemicolon (front ++ xs)
      (run.map fun (taken, flaw, rest) => (front ++ taken, flaw, rest)) := by
  cases h with
  | unreadable => exact .unreadable
  | whole => exact .whole
  | cut =>
    have hcut : BeforeSemicolon (front ++ xs) (some (front ++ xs ++ [';'], none, [])) := .cut
    rwa [List.append_assoc] at hcut

lemma beforeSemicolon_nil (mode : NameMode) (start : Nat) :
    BeforeSemicolon [] (nameRun mode start [';']) := by
  have hwidth : ';'.utf8Size = 1 := rfl
  cases mode with
  | parts => exact .whole
  | bracedEscape =>
    rw [nameRun, nameRun]
    exact .cut
  | shortEscape bytes =>
    rw [nameRun]
    split
    · rw [nameRun]
      exact .cut
    · exact .unreadable

lemma beforeSemicolon {mode : NameMode} {start : Nat} {xs text : List Char} (htext : text = xs)
    (h : nameRun mode start text = some (xs, none, [])) (start' : Nat) :
    BeforeSemicolon xs (nameRun mode start' (xs ++ [';'])) := by
  fun_induction nameRun mode start text generalizing xs start' with
  | case1 =>
    subst htext
    exact beforeSemicolon_nil _ _
  | case2 start rest ih =>
    subst htext
    have hrest := nameRun_of_map ['\\', 'u', '\x7b'] h
    rw [List.cons_append, List.cons_append, List.cons_append, nameRun]
    exact (ih rfl hrest _).map ['\\', 'u', '\x7b']
  | case3 start rest hbrace ih =>
    subst htext
    have hrest := nameRun_of_map ['\\', 'u'] h
    have hbrace' : ∀ rest', rest ++ [';'] = '\x7b' :: rest' → False := by
      intro rest' heq
      cases rest with
      | nil => cases heq
      | cons e rest =>
        cases heq
        exact hbrace _ rfl
    rw [List.cons_append, List.cons_append, nameRun.eq_3 _ _ hbrace']
    exact (ih rfl hrest _).map ['\\', 'u']
  | case4 => exact absurd h ne_of_map_flaw
  | case5 start c rest _ _ hescape hpart ih =>
    subst htext
    have hrest := nameRun_of_map [c] h
    rw [List.cons_append, nameRun.eq_5 _ _ _ (fun _ hc => absurd hc hescape)
      (fun _ hc => absurd hc hescape) hescape, if_pos hpart]
    exact (ih rfl hrest _).map [c]
  | case6 start c rest => cases h
  | case7 start c rest ih =>
    subst htext
    have hrest := nameRun_of_map [c] h
    rw [List.cons_append, nameRun]
    exact (ih rfl hrest _).map [c]
  | case8 bytes start c rest hwidth ih =>
    subst htext
    have hrest := nameRun_of_map [c] h
    rw [List.cons_append, nameRun, if_pos hwidth]
    exact (ih rfl hrest _).map [c]
  | case9 => cases h

end Lexeme

/-- Any name before a semicolon. -/
lemma IsName.beforeSemicolon {w : String} (h : IsName w) (start : Nat) :
    Lexeme.BeforeSemicolon w.toList (Lexeme.nameRun .parts start (w.toList ++ [';'])) := by
  obtain ⟨c, hc, hkind, rfl⟩ := h
  have hword := hc.readsWord (TokenKind.isWord_of_isName hkind)
  obtain ⟨start', hrun⟩ := hword.run
  rw [hword.value]
  cases hrest : c.rest with
  | nil =>
    rw [hrest, List.append_nil] at hrun
    exact Lexeme.beforeSemicolon rfl hrun start
  | cons stop after =>
    rw [hrest] at hrun
    rw [Lexeme.nameRun_append rfl hrun start IsEnd.semicolon.endsName]
    exact .whole

/-! ### Literals -/

/-- No comment begins where a gap ends. -/
lemma Gap.rest_skip (mode : Gap.Mode) (offset : Nat) (lineBreak : Bool) (text : List Char) :
    ∀ rest, (Gap.skip mode offset lineBreak text).rest ≠ '/' :: '/' :: rest ∧
      (Gap.skip mode offset lineBreak text).rest ≠ '/' :: '*' :: rest := by
  intro rest
  fun_induction Gap.skip mode offset lineBreak text with
  | case7 offset lineBreak c text hline hblock _ _ _ =>
    refine ⟨?_, ?_⟩
    · rintro ⟨⟩
      exact hline _ rfl rfl
    · rintro ⟨⟩
      exact hblock _ rfl rfl
  | _ => first | assumption | exact ⟨by simp, by simp⟩

/-- A regular expression that is closed takes the character after its slash. -/
lemma Lexeme.regExpRun_closed {text taken after : List Char}
    (h : regExpRun false text = (taken, true, after)) :
    ∃ c cs rest, taken = c :: cs ∧ text = c :: rest := by
  unfold regExpRun at h
  split at h
  · cases h
  · split at h
    · cases h
    · obtain ⟨rfl, _⟩ := Prod.mk.inj h
      exact ⟨_, _, _, rfl, rfl⟩
  · split at h
    · cases h
    · split at h
      · next hslash =>
        obtain ⟨rfl, _⟩ := Prod.mk.inj h
        exact ⟨_, _, _, rfl, by rw [hslash.1]⟩
      · obtain ⟨rfl, _⟩ := Prod.mk.inj h
        exact ⟨_, _, _, rfl, rfl⟩

/-- A regular expression is only read again from a slash. -/
lemma Lexeme.ne_regExp_of_read {start : Nat} {text : List Char} {l : Lexeme}
    (h : read start text = some l) : l.kind ≠ .regExp := by
  intro hkind
  cases reading_of_read h with
  | chunk => exact absurd hkind (chunkKind_ne rfl _ _)
  | name _ hname => exact absurd hkind (kind_ne_of_name hname rfl)
  | _ => cases hkind

namespace Cursor

variable {c c' : Cursor}

/-- A slash at a token stands before neither a slash nor a star, which would make a comment. -/
lemma Flawless.tail_slash (hc : c.Flawless) (hkind : c.token.kind = .punctuator .slash ∨
    c.token.kind = .punctuator .slashAssign) :
    ∀ rest, c.tail ≠ '/' :: rest ∧ c.tail ≠ '*' :: rest := by
  have hother : c.token.kind ≠ .regExp ∧ c.token.kind ≠ .templateMiddle ∧
      c.token.kind ≠ .templateTail := by
    rcases hkind with hkind | hkind <;> simp [hkind]
  obtain ⟨d, l, hread, _, rfl⟩ := hc.exists_read hother
  have htakes := Lexeme.takes_read hread
  have htail : '/' :: (ofLexeme (Gap.read d.offset d.rest).offset (Gap.read d.offset d.rest).lineBreak
      l).tail = (Gap.read d.offset d.rest).rest := by
    rw [tail, ofLexeme, String.toList_ofList, ← htakes.split]
    rcases hkind with hkind | hkind <;> rw [htakes.punctuator _ hkind] <;> rfl
  intro rest
  have hgap := Gap.rest_skip .between d.offset false d.rest rest
  refine ⟨fun heq => hgap.1 ?_, fun heq => hgap.2 ?_⟩
  · rw [← heq]
    exact htail.symm
  · rw [← heq]
    exact htail.symm

/-- A word of the language has its spelling. -/
lemma Flawless.text_reserved (hc : c.Flawless) {r : ReservedWord}
    (hkind : c.token.kind = .reserved r) : c.token.text = r.text := by
  have hread := (hc.readsWord (by rw [hkind]; rfl)).kind
  rw [hkind] at hread
  rcases TokenKind.ofWord?_cases c.token.text with hof | ⟨r', hof, htext⟩ | ⟨r', hof, _⟩ <;>
    rw [hof] at hread <;> cases hread
  exact htext

/-- How a number or a string was read. -/
lemma Flawless.read_scalar (hc : c.Flawless)
    (hkind : c.token.kind = .number ∨ c.token.kind = .string) :
    ∃ start, Lexeme.read start (c.token.text.toList ++ c.rest) =
      some (.plain c.token.kind c.token.text.toList c.rest none) := by
  have hother : c.token.kind ≠ .regExp ∧ c.token.kind ≠ .templateMiddle ∧
      c.token.kind ≠ .templateTail := by
    rcases hkind with hkind | hkind <;> simp [hkind]
  obtain ⟨d, l, hread, hflaw, rfl⟩ := hc.exists_read hother
  have hplain : Lexeme.plain l.kind l.text l.rest l.flaw = l := by
    rcases hkind with hkind | hkind
    · obtain ⟨_, _, _, _, rfl⟩ := Lexeme.number_of_read hread hkind
      rfl
    · obtain ⟨_, _, _, _, rfl⟩ := Lexeme.string_of_read hread hkind
      rfl
  refine ⟨(Gap.read d.offset d.rest).offset, ?_⟩
  rw [ofLexeme, String.toList_ofList, (Lexeme.takes_read hread).split, hread, ← hflaw, hplain]

/-- How a regular expression was read: from a slash that begins no comment to the one that closes it,
and on to the end of its flags. -/
lemma Flawless.exists_regExp (hc : c.Flawless) (hkind : c.token.kind = .regExp) :
    ∃ text x xs after, Lexeme.regExpRun false text = (x :: xs, true, after) ∧ (x ≠ '/' ∧ x ≠ '*') ∧
      c.token.text.toList = '/' :: x :: xs ++ (after.span isNamePart).1 := by
  cases hc with
  | next h =>
    obtain ⟨l, hread, heq⟩ := Option.map_eq_some_iff.1 h
    obtain ⟨rfl, _⟩ := Prod.mk.inj heq
    exact absurd hkind (Lexeme.ne_regExp_of_read hread)
  | brace _ h hbrace =>
    rcases isTemplate_of_rereadBrace h hbrace with htemplate | htemplate <;>
      rw [htemplate] at hkind <;> cases hkind
  | @slash d _ hd h hslash =>
    obtain ⟨rfl, hflaw, _⟩ := kind_of_rereadSlash h hslash
    rcases hrun : Lexeme.regExpRun false d.tail with ⟨taken, closed, after⟩
    have hclosed : closed = true := by
      by_contra hopen
      simp [Lexeme.regExp, hrun, hopen, Lexeme.plain] at hflaw
    subst hclosed
    obtain ⟨x, xs, rest, rfl, htail⟩ := Lexeme.regExpRun_closed hrun
    refine ⟨d.tail, x, xs, after, hrun, ⟨?_, ?_⟩, ?_⟩
    · rintro rfl
      exact (hd.tail_slash hslash rest).1 htail
    · rintro rfl
      exact (hd.tail_slash hslash rest).2 htail
    · simp [ofLexeme, Lexeme.regExp, hrun, Lexeme.plain]

lemma Flawless.marked_regExp (hc : c.Flawless) (hkind : c.token.kind = .regExp) :
    Marked c.token.text.toList := by
  obtain ⟨_, x, xs, after, _, hx, htext⟩ := hc.exists_regExp hkind
  rw [htext]
  refine ⟨.slash hx, ?_⟩
  rintro _ _ ⟨⟩
  decide

end Cursor

lemma isBlank_of_isDigit {c : Char} (h : c.isDigit = true) : isBlank c = false := by
  by_contra hblank
  have hall : ∀ n ∈ blankCodes, (Char.ofNat n).isDigit = false := by decide
  have hc := hall _ (mem_blankCodes (eq_true_of_ne_false hblank))
  rw [Char.ofNat_toNat, h] at hc
  cases hc

lemma marked_digit {c : Char} (h : c.isDigit = true) (rest : List Char) : Marked (c :: rest) := by
  refine .of_char (isBlank_of_isDigit h) (isNameStart_of_isDigit h) fun hmem => ?_
  have hall : ∀ d ∈ ['/', '#', ':', '\\', '\x7b', ';'], d.isDigit = false := by
    -- one character after the other, as the quantifier itself may be decided over all characters
    simp only [List.forall_mem_cons, List.not_mem_nil, false_implies, implies_true, and_true]
    decide
  rw [hall c hmem] at h
  cases h

/-- A literal is one of three words, or begins with a mark. -/
lemma IsSpelling.opens {kind : LiteralKind} {raw : String} (h : IsSpelling kind raw) :
    (∃ r ∈ [ReservedWord.kwNull, .kwTrue, .kwFalse], raw = r.text) ∨ Marked raw.toList := by
  obtain ⟨c, hc, hkind, rfl⟩ := h
  have hscalar : c.token.kind = .number ∨ c.token.kind = .string → Marked c.token.text.toList := by
    intro hscalar
    obtain ⟨start, hread⟩ := hc.read_scalar hscalar
    have hbegins : ∃ x rest, c.token.text.toList ++ c.rest = x :: rest ∧
        ∀ cs, Marked (x :: cs) := by
      rcases hscalar with hscalar | hscalar
      · obtain ⟨x, rest, htext, hdigit | ⟨rfl, _⟩, _⟩ := Lexeme.number_of_read hread hscalar
        · exact ⟨x, rest, htext, marked_digit hdigit⟩
        · exact ⟨'.', rest, htext, fun _ => .of_char (by decide) (by decide) (by decide)⟩
      · obtain ⟨x, rest, htext, hx, _⟩ := Lexeme.string_of_read hread hscalar
        refine ⟨x, rest, htext, fun _ => ?_⟩
        rcases hx with rfl | rfl <;> exact .of_char (by decide) (by decide) (by decide)
    obtain ⟨x, rest, htext, hmarked⟩ := hbegins
    obtain ⟨cs, hcs, -⟩ := Word.exists_of_append (w := ⟨c.token.kind, c.token.text⟩) hread htext
    exact (hcs ▸ hmarked cs :)
  cases kind with
  | null =>
    have hr := hc.text_reserved (r := .kwNull) (by simpa [LiteralKind.tokenKinds] using hkind)
    exact .inl ⟨.kwNull, by simp, hr⟩
  | boolean =>
    simp only [LiteralKind.tokenKinds, List.mem_cons, List.not_mem_nil, or_false] at hkind
    rcases hkind with hkind | hkind
    · exact .inl ⟨.kwTrue, by simp, hc.text_reserved hkind⟩
    · exact .inl ⟨.kwFalse, by simp, hc.text_reserved hkind⟩
  | number => exact .inr (hscalar (.inl (by simpa [LiteralKind.tokenKinds] using hkind)))
  | bigInt => exact .inr (hscalar (.inl (by simpa [LiteralKind.tokenKinds] using hkind)))
  | string => exact .inr (hscalar (.inr (by simpa [LiteralKind.tokenKinds] using hkind)))
  | regExp => exact .inr (hc.marked_regExp (by simpa [LiteralKind.tokenKinds] using hkind))

end BindingProxy
