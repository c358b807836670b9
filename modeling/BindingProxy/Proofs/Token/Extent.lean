import BindingProxy.Proofs.Token.Words

/-!
# The extent of lexemes

A reader of lexemes takes characters from the front of a text and leaves the others.  `Takes` says
that nothing is lost or made up on the way: what is taken and what is left are the text again, and
the value is a part of what is taken.  The value of a template's part begins after the delimiter
that opens it; all other values begin with the lexeme.

Of a text that is not at its end something is taken, so reading goes forwards.
-/

namespace BindingProxy

namespace Lexeme

/-- A lexeme at the front of a text, whose value stands inside it. -/
structure Takes (l : Lexeme) (text : List Char) : Prop where
  split : l.text ++ l.rest = text
  value : ∃ opening closing, l.text = opening ++ l.value ++ closing ∧
    byteWidth opening = l.kind.openingWidth
  punctuator : ∀ p, l.kind = .punctuator p → l.text = p.text.toList

/-! ### The readers lose nothing -/

lemma nameRun_split {mode : NameMode} {start : Nat} {text taken rest : List Char}
    {flaw : Option Flaw} (h : nameRun mode start text = some (taken, flaw, rest)) :
    taken ++ rest = text := by
  fun_induction nameRun mode start text generalizing taken flaw rest with
  | case1 | case6 =>
    cases h
    rfl
  | case9 => cases h
  | _ =>
    rename_i ih
    obtain ⟨⟨taken', flaw', rest'⟩, hrun, heq⟩ := Option.map_eq_some_iff.1 h
    cases heq
    simp [ih hrun]

lemma digits_split (radix : Nat) (text : List Char) :
    (digits radix text).1 ++ (digits radix text).2 = text := by
  rw [digits, List.span_eq_takeWhile_dropWhile, List.takeWhile_append_dropWhile]

lemma fraction_split (whole rest : List Char) :
    (fraction whole rest).1 ++ (fraction whole rest).2 = whole ++ rest := by
  unfold fraction
  split
  · simp [digits_split]
  · rfl

lemma mantissa_split (text : List Char) : (mantissa text).1 ++ (mantissa text).2 = text := by
  rw [mantissa_eq_fraction, fraction_split, digits_split]

lemma sign_split (text : List Char) : (sign text).1 ++ (sign text).2 = text := by
  unfold sign
  split <;> rfl

lemma bigIntMark_split (text : List Char) : (bigIntMark text).1 ++ (bigIntMark text).2 = text := by
  unfold bigIntMark
  split <;> rfl

lemma exponent_split (text : List Char) : (exponent text).1 ++ (exponent text).2.1 = text := by
  cases text with
  | nil => rfl
  | cons c text =>
    simp only [exponent]
    split
    · split
      · simp only [List.cons_append, List.append_assoc, digits_split, sign_split]
      · rfl
    · rfl

lemma magnitude_split (text : List Char) : (magnitude text).1 ++ (magnitude text).2.1 = text := by
  unfold magnitude
  split
  · simp only [List.append_assoc, exponent_split, mantissa_split]
  · simp only [List.append_assoc, digits_split, List.take_append_drop]

lemma stringRun_split (quote : Char) (text : List Char) :
    (stringRun quote text).1 ++ (stringRun quote text).2.2 = text := by
  fun_induction stringRun quote text <;> simp_all

lemma chunkRun_split (text : List Char) :
    (chunkRun text).1 ++ (chunkRun text).2.1.text ++ (chunkRun text).2.2 = text := by
  fun_induction chunkRun text <;> simp_all [ChunkEnd.text]

lemma regExpRun_split (inClass : Bool) (text : List Char) :
    (regExpRun inClass text).1 ++ (regExpRun inClass text).2.2 = text := by
  fun_induction regExpRun inClass text <;> simp_all

/-! ### Lexemes -/

/-- A lexeme whose value is its text. -/
lemma takes_plain {kind : TokenKind} {text taken rest : List Char} (flaw : Option Flaw)
    (hsplit : taken ++ rest = text) (hkind : kind.openingWidth = 0)
    (hpunctuator : ∀ p, kind = .punctuator p → taken = p.text.toList) :
    (plain kind taken rest flaw).Takes text where
  split := hsplit
  value := ⟨[], [], by simp [plain], hkind.symm⟩
  punctuator := hpunctuator

lemma takes_name {start : Nat} {text : List Char} {l : Lexeme} (h : name start text = some l) :
    l.Takes text := by
  have hword := isWord_of_name h
  obtain ⟨⟨taken, flaw, rest⟩, hrun, rfl⟩ := Option.map_eq_some_iff.1 h
  refine takes_plain flaw (nameRun_split hrun) (openingWidth_of_isWord hword) fun p hp => ?_
  have hp : (TokenKind.punctuator p).isWord = true := hp ▸ hword
  cases hp

lemma takes_number (start : Nat) (text : List Char) : (number start text).Takes text := by
  have hsplit : (magnitude text).1 ++ (bigIntMark (magnitude text).2.1).1 ++
      (bigIntMark (magnitude text).2.1).2 = text := by
    rw [List.append_assoc, bigIntMark_split, magnitude_split]
  exact takes_plain _ hsplit rfl nofun

lemma takes_string (start : Nat) (quote : Char) (text : List Char) :
    (string start quote text).Takes (quote :: text) :=
  takes_plain _ (by rw [List.cons_append, stringRun_split]) rfl nofun

lemma takes_chunk (start : Nat) (first : Bool) {opening : Char} (hopening : opening.utf8Size = 1)
    (text : List Char) : (chunk start first opening text).Takes (opening :: text) where
  split := by
    have hsplit := chunkRun_split text
    simp only [chunk, List.cons_append, List.append_assoc] at hsplit ⊢
    rw [hsplit]
  value := by
    refine ⟨[opening], (chunkRun text).2.1.text, rfl, ?_⟩
    rw [byteWidth_cons, hopening]
    exact (openingWidth_chunkKind first _).symm
  punctuator p hp := absurd hp (chunkKind_ne rfl _ _)

lemma takes_regExp (start : Nat) (text : List Char) : (regExp start text).Takes ('/' :: text) := by
  have hsplit := regExpRun_split false text
  unfold regExp
  simp only
  split
  · refine takes_plain _ ?_ rfl nofun
    rw [List.span_eq_takeWhile_dropWhile, List.append_assoc, List.takeWhile_append_dropWhile,
      List.cons_append, hsplit]
  · exact takes_plain _ (by rw [List.cons_append, hsplit]) rfl nofun

lemma takes_punctuator {c : Char} {text : List Char} {p : Punctuator}
    (h : punctuator? c text = some p) :
    (plain (.punctuator p) p.text.toList (text.drop p.text.toList.length) none).Takes text := by
  have hfits := List.find?_some h
  simp only [punctuatorFits, Bool.and_eq_true, List.isPrefixOf_iff_prefix] at hfits
  refine takes_plain none (List.prefix_iff_eq_append.1 hfits.1) rfl ?_
  rintro q hq
  cases hq
  rfl

/-- Every lexeme is taken from the front of the text. -/
theorem takes_read {start : Nat} {text : List Char} {l : Lexeme} (h : read start text = some l) :
    l.Takes text := by
  cases reading_of_read h with
  | endOfText => exact takes_plain none rfl rfl nofun
  | string _ rest => exact takes_string start _ rest
  | chunk rest => exact takes_chunk start true rfl rest
  | number => exact takes_number start _
  | punctuator hp => exact takes_punctuator hp
  | name _ hname => exact takes_name hname
  | unknown => exact takes_plain _ rfl rfl nofun

/-! ### Lexemes take something -/

lemma isDigitIn_ten {c : Char} (h : c.isDigit = true) : isDigitIn 10 c = true := by
  have hle : c.toNat < 58 := by
    simp only [Char.isDigit, Bool.and_eq_true, decide_eq_true_eq, UInt32.le_iff_toNat_le] at h
    exact Nat.lt_succ_of_le h.2
  have hzero : '0'.toNat = 48 := rfl
  simp only [isDigitIn, h, if_true, decide_eq_true_eq, hzero]
  omega

/-- A digit is kept by the digits that begin with it. -/
lemma digits_ne_nil {c : Char} (h : c.isDigit = true) (rest : List Char) :
    (digits 10 (c :: rest)).1 ≠ [] := by
  simp [digits, List.span_eq_takeWhile_dropWhile, isDigitIn_ten h]

/-- A number begins with a digit or a dot, and takes it. -/
lemma magnitude_ne_nil {c : Char} {rest : List Char}
    (h : c.isDigit = true ∨ (c = '.' ∧ startsWithDigit rest = true)) :
    (magnitude (c :: rest)).1 ≠ [] := by
  unfold magnitude
  split
  · have hmantissa : (mantissa (c :: rest)).1 ≠ [] := by
      rw [mantissa_eq_fraction]
      unfold fraction
      split
      · simp
      · next hdot =>
        rcases h with hdigit | ⟨rfl, _⟩
        · exact digits_ne_nil hdigit rest
        · exact absurd rfl (hdot rest)
    simp [hmantissa]
  · simp

lemma nameRun_ne_nil {c : Char} (h : isNameStart c = true ∨ c = '\\') {start : Nat}
    {text taken rest : List Char} {flaw : Option Flaw}
    (hrun : nameRun .parts start (c :: text) = some (taken, flaw, rest)) : taken ≠ [] := by
  rintro rfl
  generalize hfull : c :: text = full at hrun
  rw [nameRun.eq_def] at hrun
  split at hrun
  · cases hfull
  · obtain ⟨_, _, heq⟩ := Option.map_eq_some_iff.1 hrun
    cases heq
  · obtain ⟨_, _, heq⟩ := Option.map_eq_some_iff.1 hrun
    cases heq
  · obtain ⟨_, _, heq⟩ := Option.map_eq_some_iff.1 hrun
    cases heq
  · next hescape _ =>
    cases hfull
    have hpart : isNamePart c = true := by
      rw [isNamePart, h.resolve_right hescape]
      rfl
    rw [if_pos hpart] at hrun
    obtain ⟨_, _, heq⟩ := Option.map_eq_some_iff.1 hrun
    cases heq
  · next hmode => cases hmode
  · next hmode => cases hmode

/-- The lexeme of a text that is not empty is not empty, and it is not the end of the text. -/
theorem ne_nil_of_read {start : Nat} {c : Char} {rest : List Char} {l : Lexeme}
    (h : read start (c :: rest) = some l) : l.text ≠ [] ∧ l.kind ≠ .endOfText := by
  cases reading_of_read h with
  | string => exact ⟨by simp [string, plain], by rintro ⟨⟩⟩
  | chunk => exact ⟨by simp [chunk], chunkKind_ne rfl _ _⟩
  | number hdigit => exact ⟨by simp [number, plain, magnitude_ne_nil hdigit], by rintro ⟨⟩⟩
  | @punctuator _ _ p => exact ⟨Word.text_punctuator_ne_nil p, by rintro ⟨⟩⟩
  | name hstart hname =>
    obtain ⟨⟨taken, flaw, rest'⟩, hrun, rfl⟩ := Option.map_eq_some_iff.1 hname
    exact ⟨nameRun_ne_nil hstart hrun, kind_ne_of_name hname rfl⟩
  | unknown => exact ⟨by simp [plain], by rintro ⟨⟩⟩

end Lexeme

end BindingProxy
