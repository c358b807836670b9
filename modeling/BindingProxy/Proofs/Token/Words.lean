import BindingProxy.Token.Cursor
import Mathlib.Data.List.TakeDrop

/-!
# Words before their boundaries

Where a token ends depends on what follows it.  A name that is read as a token of its own when a
semicolon follows it is read so before all that cannot go on with it.  What follows a number does not
change it if it is a blank, a closing mark, a comma, a colon or a semicolon.  A punctuator ends where
no longer one begins.
-/

namespace BindingProxy

/-! ### Characters -/

lemma isNameStart_of_isDigit {c : Char} (h : c.isDigit = true) : isNameStart c = false := by
  have hle : 48 ≤ c.toNat ∧ c.toNat < 58 := by
    simp only [Char.isDigit, Bool.and_eq_true, decide_eq_true_eq, ge_iff_le,
      UInt32.le_iff_toNat_le] at h
    exact ⟨h.1, Nat.lt_succ_of_le h.2⟩
  have hall : ∀ n < 58, 48 ≤ n → isNameStart (Char.ofNat n) = false := by decide
  have hc := hall c.toNat hle.2 hle.1
  rwa [Char.ofNat_toNat] at hc

/-- The code points of the blanks. -/
def blankCodes : List Nat :=
  [0x9, 0xa, 0xb, 0xc, 0xd, 0x20, 0x85, 0xa0, 0x1680, 0x2000, 0x2001, 0x2002, 0x2003, 0x2004,
    0x2005, 0x2006, 0x2007, 0x2008, 0x2009, 0x200a, 0x2028, 0x2029, 0x202f, 0x205f, 0x3000, 0xfeff]

lemma mem_blankCodes {c : Char} (h : isBlank c = true) : c.toNat ∈ blankCodes := by
  have hmark : c = '\ufeff' → c.toNat = 0xfeff := by
    rintro rfl
    rfl
  have hcodes : blankCodes = List.range' 0x9 5 ++ [0x20, 0x85, 0xa0, 0x1680] ++
      List.range' 0x2000 11 ++ [0x2028, 0x2029, 0x202f, 0x205f, 0x3000, 0xfeff] := by decide
  simp only [isBlank, isWhiteSpace, Bool.or_eq_true, Bool.and_eq_true, decide_eq_true_eq,
    beq_iff_eq] at h
  simp only [hcodes, List.mem_append, List.mem_range'_1, List.mem_cons, List.not_mem_nil, or_false]
  rcases h with h | h
  · omega
  · have := hmark h
    omega

/-- No range of letters has a blank in it. -/
lemma alphabeticRanges_blankCodes :
    (alphabeticRanges.all fun r => blankCodes.all fun n => n.blt r.1 || r.2.blt n) = true := by
  decide +kernel

/-- No name begins with a blank. -/
lemma isBlank_of_isNameStart {c : Char} (h : isNameStart c = true) : isBlank c = false := by
  by_contra hblank
  have hcode := mem_blankCodes (eq_true_of_ne_false hblank)
  have hascii : ∀ n ∈ blankCodes, (Char.ofNat n == '$' || Char.ofNat n == '_') = false ∧
      (Char.ofNat n).isAlpha = false := by decide
  obtain ⟨hmark, halpha⟩ := hascii _ hcode
  rw [Char.ofNat_toNat] at hmark halpha
  rw [isNameStart, hmark, isAlphabetic, halpha, Bool.false_or, Bool.false_or, Bool.and_eq_true,
    List.any_eq_true] at h
  obtain ⟨r, hr, hbounds⟩ := h.2
  have hout := List.all_eq_true.1 (List.all_eq_true.1 alphabeticRanges_blankCodes r hr) _ hcode
  simp only [Bool.and_eq_true, decide_eq_true_eq, Bool.or_eq_true, Nat.blt_eq] at hbounds hout
  omega

lemma isBlank_of_isLineTerminator {c : Char} (h : isLineTerminator c = true) :
    isBlank c = true := by
  simp only [isLineTerminator, Bool.or_eq_true, beq_iff_eq] at h
  rcases h with ((rfl | rfl) | rfl) | rfl <;> decide

/-- The number of bytes of a token before its value. -/
def TokenKind.openingWidth : TokenKind → Nat
  | templateWhole | templateHead | templateMiddle | templateTail => 1
  | _ => 0

namespace Lexeme

/-! ### Names -/

/-- A text that does not go on with a name. -/
def EndsName : List Char → Prop
  | [] => True
  | c :: _ => isNamePart c = false ∧ c ≠ '\\'

lemma nameRun_of_endsName {tail : List Char} (h : EndsName tail) (start : Nat) :
    nameRun .parts start tail = some ([], none, tail) := by
  cases tail with
  | nil => rw [nameRun]
  | cons c tail =>
    obtain ⟨hpart, hescape⟩ := h
    rw [nameRun.eq_5 start c tail (fun _ hc => absurd hc hescape) (fun _ hc => absurd hc hescape)
      hescape, hpart, if_neg Bool.false_ne_true]

/-- What a run has taken when its first characters are taken off. -/
lemma exists_of_map_front (front : List Char) {xs after : List Char} {flaw : Option Flaw}
    {run : Option (List Char × Option Flaw × List Char)}
    (h : (run.map fun (taken, flaw, rest) => (front ++ taken, flaw, rest)) =
      some (xs, flaw, after)) : ∃ taken, xs = front ++ taken ∧ run = some (taken, flaw, after) := by
  obtain ⟨⟨taken, flaw, rest⟩, rfl, heq⟩ := Option.map_eq_some_iff.1 h
  cases heq
  exact ⟨taken, rfl, rfl⟩

lemma nameRun_of_map (front : List Char) {xs after : List Char}
    {run : Option (List Char × Option Flaw × List Char)}
    (h : (run.map fun (taken, flaw, rest) => (front ++ taken, flaw, rest)) =
      some (front ++ xs, none, after)) : run = some (xs, none, after) := by
  obtain ⟨taken, heq, hrun⟩ := exists_of_map_front front h
  rw [hrun, List.append_cancel_left heq]

/-- A backslash that begins no escape is a flaw. -/
lemma ne_of_map_flaw {taken rest : List Char} {flaw : Flaw} {f : List Char → List Char}
    {run : Option (List Char × Option Flaw × List Char)} :
    (run.map fun (taken, _, rest) => (f taken, some flaw, rest)) ≠ some (taken, none, rest) := by
  intro h
  obtain ⟨_, _, heq⟩ := Option.map_eq_some_iff.1 h
  cases heq

/-- A name that ends before some character ends before anything that does not go on with it. -/
lemma nameRun_append {mode : NameMode} {start : Nat} {text xs after : List Char} {stop : Char}
    (htext : xs ++ stop :: after = text)
    (h : nameRun mode start text = some (xs, none, stop :: after)) (start' : Nat)
    {tail : List Char} (htail : EndsName tail) :
    nameRun mode start' (xs ++ tail) = some (xs, none, tail) := by
  fun_induction nameRun mode start text generalizing xs start' with
  | case1 => simp at htext
  | case2 start rest ih =>
    obtain ⟨xs, rfl, hrest⟩ := exists_of_map_front ['\\', 'u', '\x7b'] h
    cases htext
    simp only [List.cons_append, List.nil_append]
    rw [nameRun, @ih xs rfl hrest]
    rfl
  | case3 start rest hbrace ih =>
    obtain ⟨xs, rfl, hrest⟩ := exists_of_map_front ['\\', 'u'] h
    cases htext
    have hbrace' : ∀ rest, xs ++ tail = '\x7b' :: rest → False := by
      rintro rest heq
      cases xs with
      | nil =>
        -- A short escape takes at least the character after it.
        have hrest : nameRun (.shortEscape 4) (start + 2) (stop :: after) =
          some ([], none, stop :: after) := hrest
        rw [nameRun] at hrest
        split at hrest
        · obtain ⟨taken, heq, _⟩ := exists_of_map_front [stop] hrest
          cases heq
        · cases hrest
      | cons e xs =>
        cases heq
        exact hbrace _ rfl
    simp only [List.cons_append, List.nil_append]
    rw [nameRun.eq_3 _ _ hbrace', @ih xs rfl hrest]
    rfl
  | case4 => exact absurd h ne_of_map_flaw
  | case5 start c rest _ _ hescape hpart ih =>
    obtain ⟨xs, rfl, hrest⟩ := exists_of_map_front [c] h
    cases htext
    simp only [List.cons_append, List.nil_append]
    rw [nameRun.eq_5 _ _ _ (fun _ hc => absurd hc hescape) (fun _ hc => absurd hc hescape) hescape,
      if_pos hpart, @ih xs rfl hrest]
    rfl
  | case6 start c rest =>
    cases h
    exact nameRun_of_endsName htail _
  | case7 start c rest ih =>
    obtain ⟨xs, rfl, hrest⟩ := exists_of_map_front [c] h
    cases htext
    simp only [List.cons_append, List.nil_append]
    rw [nameRun, @ih xs rfl hrest]
    rfl
  | case8 bytes start c rest hwidth ih =>
    obtain ⟨xs, rfl, hrest⟩ := exists_of_map_front [c] h
    cases htext
    simp only [List.cons_append, List.nil_append]
    rw [nameRun, if_pos hwidth, @ih xs rfl hrest]
    rfl
  | case9 => cases h

/-! ### Numbers -/

/-- A text that does not go on with a number. -/
inductive EndsNumber : List Char → Prop where
  | nil : EndsNumber []
  | blank (tail : List Char) : EndsNumber (' ' :: tail)
  | lineFeed (tail : List Char) : EndsNumber ('\n' :: tail)
  | closeParen (tail : List Char) : EndsNumber (')' :: tail)
  | closeBracket (tail : List Char) : EndsNumber (']' :: tail)
  | closeBrace (tail : List Char) : EndsNumber ('\x7d' :: tail)
  | comma (tail : List Char) : EndsNumber (',' :: tail)
  | semicolon (tail : List Char) : EndsNumber (';' :: tail)
  | colon (tail : List Char) : EndsNumber (':' :: tail)

/-- A cut of a text that does not look beyond the end of a number. -/
def Cuts {α : Type} (f : List Char → α × List Char) : Prop :=
  ∀ xs {tail}, EndsNumber tail → f (xs ++ tail) = ((f xs).1, (f xs).2 ++ tail)

lemma cuts_digits (radix : Nat) : Cuts (digits radix) := by
  intro xs tail h
  simp only [digits, List.span_eq_takeWhile_dropWhile]
  induction xs with
  | nil => cases h <;> simp [isDigitIn]
  | cons x xs ih =>
    by_cases hx : (x == '_' || isDigitIn radix x) = true
    · simp only [Prod.mk.injEq] at ih
      simp only [List.cons_append, List.takeWhile_cons, List.dropWhile_cons, hx, if_true, ih]
    · simp only [List.cons_append, List.takeWhile_cons, List.dropWhile_cons, hx]
      rfl

lemma cuts_sign : Cuts sign := by
  intro xs tail h
  cases xs with
  | nil => cases h <;> rfl
  | cons x xs =>
    simp only [List.cons_append]
    unfold sign
    split <;> split <;> simp_all

lemma cuts_bigIntMark : Cuts bigIntMark := by
  intro xs tail h
  cases xs with
  | nil => cases h <;> rfl
  | cons x xs =>
    simp only [List.cons_append]
    unfold bigIntMark
    split <;> split <;> simp_all

/-- The fraction that may follow the whole part of a number. -/
def fraction (whole : List Char) : List Char → List Char × List Char
  | '.' :: rest => (whole ++ '.' :: (digits 10 rest).1, (digits 10 rest).2)
  | rest => (whole, rest)

lemma mantissa_eq_fraction (text : List Char) :
    mantissa text = fraction (digits 10 text).1 (digits 10 text).2 := by
  unfold mantissa
  generalize digits 10 text = cut
  obtain ⟨whole, rest⟩ := cut
  dsimp only
  split
  · rfl
  · next hdot => rw [fraction.eq_2 whole rest hdot]

lemma cuts_fraction (whole : List Char) : Cuts (fraction whole) := by
  intro xs tail h
  cases xs with
  | nil => cases h <;> rfl
  | cons x xs =>
    by_cases hx : x = '.'
    · subst hx
      simp only [List.cons_append, fraction, cuts_digits 10 xs h]
    · simp only [List.cons_append]
      unfold fraction
      split <;> split <;> simp_all

lemma cuts_mantissa : Cuts mantissa := by
  intro xs tail h
  rw [mantissa_eq_fraction, mantissa_eq_fraction, cuts_digits 10 xs h, cuts_fraction _ _ h]

/-- A radix other than ten is announced by two characters. -/
lemma two_le_length_of_radix {text : List Char} (h : radix text ≠ 10) : 2 ≤ text.length := by
  rcases text with _ | ⟨x, _ | ⟨y, text⟩⟩
  · exact absurd rfl h
  · exact absurd (by simp [radix]) h
  · simp

section

variable (xs : List Char) {tail : List Char} (h : EndsNumber tail)
include h

lemma startsWithDigit_append : startsWithDigit (xs ++ tail) = startsWithDigit xs := by
  cases xs with
  | nil => cases h <;> rfl
  | cons x xs => rfl

lemma startsWithName_append : startsWithName (xs ++ tail) = startsWithName xs := by
  cases xs with
  | nil => cases h <;> rfl
  | cons x xs => rfl

lemma exponent_append :
    exponent (xs ++ tail) =
      ((exponent xs).1, (exponent xs).2.1 ++ tail, (exponent xs).2.2) := by
  cases xs with
  | nil => cases h <;> rfl
  | cons x xs =>
    simp only [List.cons_append, exponent, cuts_sign xs h, startsWithDigit_append _ h]
    split
    · split
      · simp only [cuts_digits 10 _ h]
      · rfl
    · rfl

lemma radix_append : radix (xs ++ tail) = radix xs := by
  rcases xs with _ | ⟨x, _ | ⟨y, xs⟩⟩
  · cases h <;> rfl
  · cases h <;> simp [radix]
  · simp only [List.cons_append]
    unfold radix
    split <;> simp_all

lemma magnitude_append :
    magnitude (xs ++ tail) =
      ((magnitude xs).1, (magnitude xs).2.1 ++ tail, (magnitude xs).2.2) := by
  unfold magnitude
  rw [radix_append xs h]
  split
  · simp only [cuts_mantissa xs h, exponent_append _ h]
  · next hradix =>
    have hlength := two_le_length_of_radix hradix
    simp only [List.drop_append_of_le_length hlength, List.take_append_of_le_length hlength,
      cuts_digits _ _ h]

end

/-! ### Any lexeme -/

/-- A character that begins a name begins nothing else. -/
lemma read_eq_name {c : Char} (h : isNameStart c = true ∨ c = '\\') (start : Nat)
    (rest : List Char) : read start (c :: rest) = name start (c :: rest) := by
  have hne : ∀ d, isNameStart d = false → d ≠ '\\' → c ≠ d := by
    rintro d hd hescape rfl
    rw [hd] at h
    exact hescape (h.resolve_left Bool.false_ne_true)
  have hdigit : c.isDigit = false := by
    by_contra hdigit
    have hdigit := eq_true_of_ne_false hdigit
    refine hne c (isNameStart_of_isDigit hdigit) ?_ rfl
    rintro rfl
    cases hdigit
  have hpunctuators : Punctuator.startingWith c = [] := by
    unfold Punctuator.startingWith
    split <;> first | rfl | exact absurd rfl (hne _ (by decide) (by decide))
  have hquote := hne '"' (by decide) (by decide)
  have hapostrophe := hne '\'' (by decide) (by decide)
  have htick := hne '\x60' (by decide) (by decide)
  have hdot := hne '.' (by decide) (by decide)
  simp [read, hquote, hapostrophe, htick, hdot, hdigit, punctuator?, hpunctuators, h]

/-- The lexeme at the beginning of a text, by the character that it begins with. -/
inductive Reading (start : Nat) : List Char → Lexeme → Prop where
  | endOfText : Reading start [] (plain .endOfText [] [] none)
  | string {c : Char} (hc : c = '"' ∨ c = '\'') (rest : List Char) :
    Reading start (c :: rest) (string start c rest)
  | chunk (rest : List Char) : Reading start ('\x60' :: rest) (chunk start true '\x60' rest)
  | number {c : Char} {rest : List Char}
    (hc : c.isDigit = true ∨ (c = '.' ∧ startsWithDigit rest = true)) :
    Reading start (c :: rest) (number start (c :: rest))
  | punctuator {c : Char} {rest : List Char} {p : Punctuator}
    (hp : punctuator? c (c :: rest) = some p) :
    Reading start (c :: rest)
      (plain (.punctuator p) p.text.toList ((c :: rest).drop p.text.toList.length) none)
  | name {c : Char} {rest : List Char} {l : Lexeme} (hc : isNameStart c = true ∨ c = '\\')
    (h : name start (c :: rest) = some l) : Reading start (c :: rest) l
  | unknown (c : Char) (rest : List Char) :
    Reading start (c :: rest) (plain .unknown [c] rest (some ⟨.invalidCharacter c, start⟩))

lemma reading_of_read {start : Nat} {text : List Char} {l : Lexeme}
    (h : read start text = some l) : Reading start text l := by
  unfold read at h
  split at h
  · cases h
    exact .endOfText
  split at h
  · next hquote =>
    cases h
    exact .string hquote _
  split at h
  · next htick =>
    cases h
    rw [htick]
    exact .chunk _
  split at h
  · next hdigit =>
    cases h
    exact .number hdigit
  split at h
  · next hp =>
    cases h
    exact .punctuator hp
  split at h
  · next hstart => exact .name hstart h
  · cases h
    exact .unknown _ _

lemma openingWidth_of_isWord {kind : TokenKind} (h : kind.isWord = true) :
    kind.openingWidth = 0 := by
  cases kind <;> first | rfl | cases h

lemma openingWidth_chunkKind (first : Bool) (stop : ChunkEnd) :
    (chunkKind first stop).openingWidth = 1 := by
  cases first <;> cases stop <;> rfl

lemma chunkKind_ne {kind : TokenKind} (h : kind.openingWidth = 0) (first : Bool) (stop : ChunkEnd) :
    chunkKind first stop ≠ kind := by
  intro heq
  have hwidth := openingWidth_chunkKind first stop
  rw [heq, h] at hwidth
  cases hwidth

lemma isWord_ofWord? (text : String) :
    ((TokenKind.ofWord? text).getD .identifier).isWord = true := by
  unfold TokenKind.ofWord?
  cases ReservedWord.all.find? fun w => w.text == text with
  | some w => rfl
  | none => cases ContextualWord.all.find? fun w => w.text == text <;> rfl

lemma isWord_of_name {start : Nat} {text : List Char} {l : Lexeme} (h : name start text = some l) :
    l.kind.isWord = true := by
  obtain ⟨⟨taken, flaw, rest⟩, _, rfl⟩ := Option.map_eq_some_iff.1 h
  exact isWord_ofWord? _

lemma kind_ne_of_name {start : Nat} {text : List Char} {l : Lexeme} (h : name start text = some l)
    {kind : TokenKind} (hkind : kind.isWord = false) : l.kind ≠ kind := by
  rintro rfl
  cases hkind.symm.trans (isWord_of_name h)

/-! What is read, by the kind of the lexeme. -/

section

variable {start : Nat} {text : List Char} {l : Lexeme}

lemma string_of_read (h : read start text = some l) (hkind : l.kind = .string) :
    ∃ c rest, text = c :: rest ∧ (c = '"' ∨ c = '\'') ∧ l = string start c rest := by
  cases reading_of_read h with
  | string hc rest => exact ⟨_, rest, rfl, hc, rfl⟩
  | chunk rest => exact absurd hkind (chunkKind_ne rfl _ _)
  | name _ hname => exact absurd hkind (kind_ne_of_name hname rfl)
  | _ => cases hkind

lemma number_of_read (h : read start text = some l) (hkind : l.kind = .number) :
    ∃ c rest, text = c :: rest ∧ (c.isDigit = true ∨ (c = '.' ∧ startsWithDigit rest = true)) ∧
      l = number start (c :: rest) := by
  cases reading_of_read h with
  | number hc => exact ⟨_, _, rfl, hc, rfl⟩
  | chunk rest => exact absurd hkind (chunkKind_ne rfl _ _)
  | name _ hname => exact absurd hkind (kind_ne_of_name hname rfl)
  | _ => cases hkind

lemma chunk_of_read (h : read start text = some l) (hkind : l.kind.openingWidth = 1) :
    ∃ rest, text = '\x60' :: rest ∧ l = chunk start true '\x60' rest := by
  cases reading_of_read h with
  | chunk rest => exact ⟨rest, rfl, rfl⟩
  | name _ hname => cases hkind.symm.trans (openingWidth_of_isWord (isWord_of_name hname))
  | _ => cases hkind

lemma word_of_read (h : read start text = some l) (hkind : l.kind.isWord = true) :
    ∃ c rest, text = c :: rest ∧ (isNameStart c = true ∨ c = '\\') ∧
      name start (c :: rest) = some l := by
  cases reading_of_read h with
  | name hc hname => exact ⟨_, _, rfl, hc, hname⟩
  | chunk rest => exact absurd rfl (chunkKind_ne (openingWidth_of_isWord hkind) _ _)
  | _ => cases hkind

end

/-- A digit, and a dot before one, begins a number. -/
lemma read_eq_number {c : Char} {rest : List Char}
    (h : c.isDigit = true ∨ (c = '.' ∧ startsWithDigit rest = true)) (start : Nat) :
    read start (c :: rest) = some (number start (c :: rest)) := by
  have hne : ∀ d : Char, d.isDigit = false → d ≠ '.' → c ≠ d := by
    rintro d hd hdot rfl
    rw [hd] at h
    exact hdot (h.resolve_left Bool.false_ne_true).1
  rw [read, if_neg, if_neg (hne '\x60' rfl (by decide)), if_pos h]
  exact not_or_intro (hne '"' rfl (by decide)) (hne '\'' rfl (by decide))

/-- Of the punctuators that begin with a character, the first one that fits is read. -/
lemma read_eq_punctuator (c : Char) (l : List Punctuator) {rest : List Char} {p : Punctuator}
    (hl : Punctuator.startingWith c = l) (hp : l.find? (punctuatorFits (c :: rest)) = some p)
    (hc : ¬ (c = '"' ∨ c = '\'') ∧ c ≠ '\x60' ∧ ¬ (c.isDigit ∨ (c = '.' ∧ startsWithDigit rest)))
    (start : Nat) : read start (c :: rest) = some (plain (.punctuator p) p.text.toList
      ((c :: rest).drop p.text.toList.length) none) := by
  rw [read, if_neg hc.1, if_neg hc.2.1, if_neg hc.2.2, punctuator?, hl, hp]

end Lexeme

/-! ### Words -/

/-- A text that is read as one name when nothing follows it. -/
def ScansAsName (w : String) : Prop :=
  (Cursor.start w).next? = some (⟨⟨.identifier, 0, w, w, false⟩, []⟩, none)

/-- A token without its place; its value is its text. -/
structure Word where
  kind : TokenKind
  text : String
deriving Repr, DecidableEq, Inhabited

namespace Word

def punctuator (p : Punctuator) : Word := ⟨.punctuator p, p.text⟩

def reserved (w : ReservedWord) : Word := ⟨.reserved w, w.text⟩

/-- A plain name. -/
def name (text : String) : Word := ⟨.identifier, text⟩

/-- A word that is read as one token when a semicolon follows it.  The semicolon ends it: a name
whose last escape is cut short would take it in. -/
def IsToken (w : Word) : Prop :=
  Lexeme.read 0 (w.text.toList ++ [';']) = some (.plain w.kind w.text.toList [';'] none)

instance (w : Word) : Decidable w.IsToken := inferInstanceAs (Decidable (_ = _))

/-- A word that is read as one token, wherever it begins, when the text `tail` follows it. -/
structure Stands (w : Word) (tail : List Char) : Prop where
  ne_nil : w.text.toList ≠ []
  gap (start : Nat) :
    Gap.read start (w.text.toList ++ tail) = ⟨start, false, none, w.text.toList ++ tail⟩
  lexeme (start : Nat) :
    Lexeme.read start (w.text.toList ++ tail) = some (.plain w.kind w.text.toList tail none)

variable {c : Char}

/-- There is no gap before a character that begins neither a blank nor a comment. -/
lemma gap_read (hblank : isBlank c = false) (hslash : c ≠ '/') (hhash : c ≠ '#')
    (start : Nat) (rest : List Char) :
    Gap.read start (c :: rest) = ⟨start, false, none, c :: rest⟩ := by
  have hbreak : isLineTerminator c = false := by
    by_contra hbreak
    rw [isBlank_of_isLineTerminator (eq_true_of_ne_false hbreak)] at hblank
    cases hblank
  rw [Gap.read, Gap.skip.eq_5 _ _ _ _ (fun _ hc => absurd hc hslash)
    (fun _ hc => absurd hc hslash) (fun _ _ hc => absurd hc hhash), hbreak, hblank]
  rfl

/-- The text of a token has a first character. -/
lemma exists_of_append_semicolon {text rest : List Char} (hc : c ≠ ';')
    (h : text ++ [';'] = c :: rest) : ∃ cs, text = c :: cs ∧ rest = cs ++ [';'] := by
  cases text with
  | nil =>
    cases h
    exact absurd rfl hc
  | cons d cs =>
    cases h
    exact ⟨cs, rfl, rfl⟩

/-- Names and words of the language begin with a character of names and are read as names. -/
lemma IsToken.exists_of_isWord {w : Word} (h : w.IsToken) (hkind : w.kind.isWord = true) :
    ∃ c rest, w.text.toList = c :: rest ∧ (isNameStart c = true ∨ c = '\\') ∧
      Lexeme.name 0 (w.text.toList ++ [';']) =
        some (.plain w.kind w.text.toList [';'] none) := by
  obtain ⟨c, rest, htext, hc, hname⟩ := Lexeme.word_of_read h hkind
  obtain ⟨cs, hcs, -⟩ := exists_of_append_semicolon (by rintro rfl; revert hc; decide) htext
  exact ⟨c, cs, hcs, hc, htext ▸ hname⟩

/-- Names and words of the language stand before all that does not go on with a name. -/
lemma IsToken.stands_of_isWord {w : Word} (h : w.IsToken) (hkind : w.kind.isWord = true)
    {tail : List Char} (htail : Lexeme.EndsName tail) : w.Stands tail := by
  obtain ⟨c, cs, hcs, hc, hname⟩ := h.exists_of_isWord hkind
  rw [Lexeme.name] at hname
  obtain ⟨⟨taken, flaw, rest⟩, hrun, heq⟩ := Option.map_eq_some_iff.1 hname
  simp only [Lexeme.plain, Lexeme.mk.injEq] at heq
  obtain ⟨hword, rfl, -, rfl, rfl⟩ := heq
  have hstart : ∀ d, isNameStart d = false → d ≠ '\\' → c ≠ d := by
    rintro d hd hescape rfl
    rw [hd] at hc
    exact hescape (hc.resolve_left Bool.false_ne_true)
  refine ⟨by simp [hcs], ?_, ?_⟩
  · intro start
    have hblank : isBlank c = false := by
      rcases hc with hc | rfl
      · exact isBlank_of_isNameStart hc
      · decide
    rw [hcs, List.cons_append, gap_read hblank (hstart '/' (by decide) (by decide))
      (hstart '#' (by decide) (by decide))]
  · intro start
    have hrun' := Lexeme.nameRun_append rfl hrun start htail
    rw [hcs] at hrun' ⊢
    rw [List.cons_append, Lexeme.read_eq_name hc, Lexeme.name, ← List.cons_append, hrun',
      Option.map_some, ← hcs, ← hword]

lemma isToken_reserved (w : ReservedWord) : (reserved w).IsToken := by
  cases w <;> decide

/-! ### Punctuators -/

lemma text_punctuator_ne_nil (p : Punctuator) : (punctuator p).text.toList ≠ [] := by
  cases p <;> decide

/-- There is no gap before a punctuator, unless a slash is taken for the beginning of a comment. -/
lemma gap_punctuator {p : Punctuator} {tail : List Char}
    (h : p = .slash → ∀ rest, tail ≠ '/' :: rest ∧ tail ≠ '*' :: rest) (start : Nat) :
    Gap.read start ((punctuator p).text.toList ++ tail) =
      ⟨start, false, none, (punctuator p).text.toList ++ tail⟩ := by
  by_cases hslash : p = .slash
  · subst hslash
    exact Gap.skip.eq_5 _ _ _ _ (fun rest _ => (h rfl rest).1) (fun rest _ => (h rfl rest).2)
      (fun _ _ hc => by cases hc)
  · cases p
    case slash => exact absurd rfl hslash
    case slashAssign =>
      exact Gap.skip.eq_5 _ _ _ _ (fun rest _ hc => by cases hc) (fun rest _ hc => by cases hc)
        (fun _ _ hc => by cases hc)
    all_goals exact gap_read (by decide) (by decide) (by decide) _ _

/-- Before a blank, every punctuator stands. -/
lemma stands_punctuator_blank (p : Punctuator) (tail : List Char) :
    (punctuator p).Stands (' ' :: tail) where
  ne_nil := text_punctuator_ne_nil _
  gap := gap_punctuator fun _ rest => ⟨by simp, by simp⟩
  lexeme start := by cases p <;> rfl

/-- The punctuators that no character makes longer. -/
def isFinal : Punctuator → Bool
  | .openBrace | .closeBrace | .openParen | .closeParen | .openBracket | .closeBracket | .comma
  | .semicolon | .colon | .tilde | .plusPlus | .minusMinus | .ellipsis => true
  | _ => false

lemma stands_punctuator_final {p : Punctuator} (h : isFinal p = true) (tail : List Char) :
    (punctuator p).Stands tail where
  ne_nil := text_punctuator_ne_nil _
  gap := gap_punctuator (by rintro rfl; cases h)
  lexeme start := by cases p <;> first | rfl | cases h

/-- A sign before an operand stands before what is neither an equals sign nor the same sign. -/
lemma stands_sign {p : Punctuator} (hp : p ∈ [Punctuator.plus, .minus])
    (hassign : c ≠ '=') (hsame : p.text.toList ≠ [c]) (tail : List Char) :
    (punctuator p).Stands (c :: tail) where
  ne_nil := text_punctuator_ne_nil _
  gap := gap_punctuator (by rintro rfl; simp at hp)
  lexeme start := by
    have hassign' : '=' ≠ c := hassign.symm
    simp only [List.mem_cons, List.not_mem_nil, or_false] at hp
    rcases hp with rfl | rfl
    · have hne : '+' ≠ c := fun h => hsame (h ▸ rfl)
      exact Lexeme.read_eq_punctuator '+' [.plusPlus, .plusAssign, .plus] rfl
        (by simp [Lexeme.punctuatorFits, Punctuator.text, hassign', hne]) (by simp) start
    · have hne : '-' ≠ c := fun h => hsame (h ▸ rfl)
      exact Lexeme.read_eq_punctuator '-' [.minusMinus, .minusAssign, .minus] rfl
        (by simp [Lexeme.punctuatorFits, Punctuator.text, hassign', hne]) (by simp) start

/-- A negation stands before what is no equals sign. -/
lemma stands_bang (hassign : c ≠ '=') (tail : List Char) :
    (punctuator .bang).Stands (c :: tail) where
  ne_nil := text_punctuator_ne_nil _
  gap := gap_punctuator nofun
  lexeme start := by
    have hassign' : '=' ≠ c := hassign.symm
    exact Lexeme.read_eq_punctuator '!' [.strictNotEqual, .notEqual, .bang] rfl
      (by simp [Lexeme.punctuatorFits, Punctuator.text, hassign']) (by simp) start

/-- A dot stands before what is neither a dot nor a digit. -/
lemma stands_dot (hdot : c ≠ '.') (hdigit : c.isDigit = false) (tail : List Char) :
    (punctuator .dot).Stands (c :: tail) where
  ne_nil := text_punctuator_ne_nil _
  gap := gap_punctuator nofun
  lexeme start := by
    have hdot' : '.' ≠ c := hdot.symm
    exact Lexeme.read_eq_punctuator '.' [.ellipsis, .dot] rfl
      (by simp [Lexeme.punctuatorFits, Punctuator.text, hdot'])
      (by simp [Lexeme.startsWithDigit, hdigit]) start

/-- An optional link stands before what is no digit. -/
lemma stands_questionDot (hdigit : c.isDigit = false) (tail : List Char) :
    (punctuator .questionDot).Stands (c :: tail) where
  ne_nil := text_punctuator_ne_nil _
  gap := gap_punctuator nofun
  lexeme start := by
    change Lexeme.read start ('?' :: '.' :: c :: tail) = _
    exact Lexeme.read_eq_punctuator '?'
      [.questionDot, .questionQuestionAssign, .questionQuestion, .question] rfl
      (by simp [Lexeme.punctuatorFits, Lexeme.startsWithDigit, Punctuator.text, hdigit]) (by simp) _

end Word

end BindingProxy
