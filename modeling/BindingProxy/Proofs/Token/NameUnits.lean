import BindingProxy.Proofs.Token.Flawless

/-!
# What names are made of

A name is written with the characters that can stand in a name and with escapes: `\u` and four
hexadecimal digits, or `\u` and hexadecimal digits in braces.  The reader of names counts bytes and
looks for the closing brace, but it does not look at what an escape covers.  So its names are made
of looser units: a short escape covers any four bytes, an escape with a brace anything up to the
first closing one, and at the end of the text an escape may be cut short.

The looser units of a name are the only ones it can be cut into.  Therefore a name is proper exactly
if the units it was read with are.
-/

namespace BindingProxy

/-! ### Characters of names -/

/-- No range of numbers has a blank in it. -/
lemma numericRanges_blankCodes :
    (numericRanges.all fun r => blankCodes.all fun n => n.blt r.1 || r.2.blt n) = true := by
  decide

/-- No character of a name is a blank. -/
lemma isBlank_of_isNamePart {c : Char} (h : isNamePart c = true) : isBlank c = false := by
  by_contra hblank
  have hcode := mem_blankCodes (eq_true_of_ne_false hblank)
  have hother : ∀ n ∈ blankCodes, (Char.ofNat n).isDigit = false ∧
      (Char.ofNat n == '\u200c' || Char.ofNat n == '\u200d') = false := by decide
  obtain ⟨hdigit, hjoiner⟩ := hother _ hcode
  rw [Char.ofNat_toNat] at hdigit hjoiner
  rw [isNamePart, Bool.or_assoc, hjoiner, Bool.or_false, Bool.or_eq_true] at h
  rcases h with h | h
  · exact hblank (isBlank_of_isNameStart h)
  · rw [isNumeric, hdigit, Bool.false_or, Bool.and_eq_true, List.any_eq_true] at h
    obtain ⟨r, hr, hbounds⟩ := h.2
    have hout := List.all_eq_true.1 (List.all_eq_true.1 numericRanges_blankCodes r hr) _ hcode
    simp only [Bool.and_eq_true, decide_eq_true_eq, Bool.or_eq_true, Nat.blt_eq] at hbounds hout
    omega

/-- A character that may stand in a name with proper escapes: it does not separate words, begins no
string or template and, unless it is a brace, no punctuator. -/
structure IsNameCharacter (c : Char) : Prop where
  blank : isBlank c = false
  lineTerminator : isLineTerminator c = false
  quote : c ≠ '"' ∧ c ≠ '\'' ∧ c ≠ '\x60'
  punctuator : Punctuator.startingWith c = [] ∨ c = '\x7b' ∨ c = '\x7d'

lemma isNameCharacter_of_isNamePart {c : Char} (h : isNamePart c = true) : IsNameCharacter c := by
  have hne : ∀ d, isNamePart d = false → c ≠ d := by
    rintro d hd rfl
    exact Bool.false_ne_true (hd.symm.trans h)
  have hblank := isBlank_of_isNamePart h
  refine ⟨hblank, ?_, ⟨hne _ (by decide), hne _ (by decide), hne _ (by decide)⟩, .inl ?_⟩
  · by_contra hbreak
    rw [isBlank_of_isLineTerminator (eq_true_of_ne_false hbreak)] at hblank
    exact Bool.false_ne_true hblank.symm
  · unfold Punctuator.startingWith
    split <;> first | rfl | exact absurd rfl (hne _ (by decide))

/-- What escapes are written with besides digits. -/
lemma isNameCharacter_of_mem {c : Char} (h : c ∈ ['\\', '\x7b', '\x7d']) : IsNameCharacter c := by
  simp only [List.mem_cons, List.not_mem_nil, or_false] at h
  rcases h with rfl | rfl | rfl <;> exact ⟨by decide, by decide, by decide, by decide⟩

namespace Lexeme

lemma lt_of_isDigitIn {c : Char} (h : isDigitIn 16 c = true) : c.toNat < 103 := by
  have hle : ∀ {d : Char}, c ≤ d → c.toNat ≤ d.toNat := fun hd => UInt32.le_iff_toNat_le.1 hd
  unfold isDigitIn at h
  split at h
  · next hdigit =>
    simp only [Char.isDigit, Bool.and_eq_true, decide_eq_true_eq, UInt32.le_iff_toNat_le] at hdigit
    have hnine : c.toNat ≤ 57 := hdigit.2
    omega
  · simp only [Bool.and_eq_true, Bool.or_eq_true, decide_eq_true_eq] at h
    rcases h.2 with ⟨_, hf⟩ | ⟨_, hf⟩
    · have hsmall : c.toNat ≤ 102 := hle hf
      omega
    · have hlarge : c.toNat ≤ 70 := hle hf
      omega

/-- Hexadecimal digits can stand in a name, and take one byte. -/
lemma isNamePart_of_isDigitIn {c : Char} (h : isDigitIn 16 c = true) :
    isNamePart c = true ∧ c.utf8Size = 1 := by
  have hall : ∀ n < 103, isDigitIn 16 (Char.ofNat n) = true →
      isNamePart (Char.ofNat n) = true ∧ (Char.ofNat n).utf8Size = 1 := by decide
  have hc := hall c.toNat (lt_of_isDigitIn h)
  rw [Char.ofNat_toNat] at hc
  exact hc h

end Lexeme

/-! ### Units -/

/-- A character of a name or an escape in it. -/
inductive NameUnit where
  | part (c : Char)
  /-- `\u` and the characters that it covers. -/
  | short (covered : List Char)
  /-- `\u` and the characters between braces. -/
  | braced (inside : List Char)
deriving Repr, DecidableEq, Inhabited

namespace NameUnit

/-- How a unit is written. -/
def text : NameUnit → List Char
  | part c => [c]
  | short covered => '\\' :: 'u' :: covered
  | braced inside => '\\' :: 'u' :: '\x7b' :: (inside ++ ['\x7d'])

/-- A unit of a proper name: an escape gives its character in hexadecimal digits, four of them or
some in braces. -/
def isProper : NameUnit → Bool
  | part c => isNamePart c
  | short covered => covered.length == 4 && covered.all (Lexeme.isDigitIn 16)
  | braced inside => !inside.isEmpty && inside.all (Lexeme.isDigitIn 16)

/-- A unit as the reader takes it: a short escape covers four bytes, whatever they are, and one with
a brace runs to the first closing brace. -/
def isLoose : NameUnit → Bool
  | part c => isNamePart c
  | short covered => byteWidth covered == 4 && covered.head? != some '\x7b'
  | braced inside => !inside.contains '\x7d'

variable {u v : NameUnit}

lemma isLoose_of_isProper (h : u.isProper = true) : u.isLoose = true := by
  cases u with
  | part c => exact h
  | short covered =>
    simp only [isProper, Bool.and_eq_true, beq_iff_eq, List.all_eq_true] at h
    obtain ⟨hlength, hdigits⟩ := h
    have hwidth : byteWidth covered = covered.length := by
      clear hlength
      induction covered with
      | nil => rfl
      | cons c covered ih =>
        have hc := (Lexeme.isNamePart_of_isDigitIn (hdigits c List.mem_cons_self)).2
        rw [byteWidth_cons, hc, ih fun d hd => hdigits d (List.mem_cons_of_mem _ hd),
          List.length_cons, Nat.add_comm]
    simp only [isLoose, Bool.and_eq_true, beq_iff_eq, bne_iff_ne, ne_eq]
    refine ⟨hwidth.trans hlength, fun hhead => ?_⟩
    exact absurd (hdigits _ (List.mem_of_mem_head? hhead)) (by decide)
  | braced inside =>
    simp only [isProper, Bool.and_eq_true, List.all_eq_true] at h
    simp only [isLoose, Bool.not_eq_true', List.contains_eq_mem, decide_eq_false_iff_not]
    intro hmem
    exact absurd (h.2 _ hmem) (by decide)

/-- A proper unit is written with characters of names, digits and the marks of escapes. -/
lemma isNameCharacter_of_isProper (h : u.isProper = true) :
    ∀ c ∈ u.text, IsNameCharacter c := by
  have hu : IsNameCharacter 'u' := isNameCharacter_of_isNamePart (by decide)
  have hdigit : ∀ {cs : List Char}, (∀ c ∈ cs, Lexeme.isDigitIn 16 c = true) →
      ∀ c ∈ cs, IsNameCharacter c := fun hcs c hc =>
    isNameCharacter_of_isNamePart (Lexeme.isNamePart_of_isDigitIn (hcs c hc)).1
  intro c hc
  cases u with
  | part d =>
    obtain rfl := List.mem_singleton.1 hc
    exact isNameCharacter_of_isNamePart h
  | short covered =>
    simp only [isProper, Bool.and_eq_true, List.all_eq_true] at h
    simp only [text, List.mem_cons] at hc
    rcases hc with rfl | rfl | hc
    · exact isNameCharacter_of_mem (by decide)
    · exact hu
    · exact hdigit h.2 c hc
  | braced inside =>
    simp only [isProper, Bool.and_eq_true, List.all_eq_true] at h
    simp only [text, List.mem_cons, List.mem_append, List.not_mem_nil, or_false] at hc
    rcases hc with rfl | rfl | rfl | hc | rfl
    · exact isNameCharacter_of_mem (by decide)
    · exact hu
    · exact isNameCharacter_of_mem (by decide)
    · exact hdigit h.2 c hc
    · exact isNameCharacter_of_mem (by decide)

end NameUnit

/-- The characters of a sequence of units. -/
def textOfUnits (units : List NameUnit) : List Char := units.flatMap NameUnit.text

/-- The text of a proper name. -/
def IsNameText (cs : List Char) : Prop :=
  ∃ units, units ≠ [] ∧ (∀ u ∈ units, u.isProper = true) ∧ cs = textOfUnits units

lemma IsNameText.isNameCharacter {cs : List Char} (h : IsNameText cs) :
    ∀ c ∈ cs, IsNameCharacter c := by
  obtain ⟨units, _, hproper, rfl⟩ := h
  intro c hc
  obtain ⟨u, hu, hc⟩ := List.mem_flatMap.1 hc
  exact u.isNameCharacter_of_isProper (hproper u hu) c hc

/-- An escape that is cut short by the end of the text. -/
inductive IsCutShort : List Char → Prop where
  | short {covered : List Char} (hwidth : byteWidth covered < 4)
      (hhead : covered.head? ≠ some '\x7b') : IsCutShort ('\\' :: 'u' :: covered)
  | braced {inside : List Char} (hinside : '\x7d' ∉ inside) :
      IsCutShort ('\\' :: 'u' :: '\x7b' :: inside)

/-! ### A text falls into units in one way -/

lemma eq_nil_of_byteWidth {cs : List Char} (h : byteWidth cs = 0) : cs = [] := by
  cases cs with
  | nil => rfl
  | cons c cs =>
    have hpos := c.utf8Size_pos
    rw [byteWidth_cons] at h
    omega

/-- A text begins with at most one run of a given width. -/
lemma append_inj_of_byteWidth {xs ys us vs : List Char} (h : xs ++ us = ys ++ vs)
    (hwidth : byteWidth xs = byteWidth ys) : xs = ys ∧ us = vs := by
  rcases List.append_eq_append_iff.1 h with ⟨zs, rfl, rfl⟩ | ⟨zs, rfl, rfl⟩
  all_goals
    rw [byteWidth_append] at hwidth
    obtain rfl : zs = [] := eq_nil_of_byteWidth (by omega)
    simp

/-- A text has at most one first place of a character. -/
lemma append_cons_inj_of_notMem {c : Char} {xs ys us vs : List Char} (hxs : c ∉ xs) (hys : c ∉ ys)
    (h : xs ++ c :: us = ys ++ c :: vs) : xs = ys ∧ us = vs := by
  rcases List.append_eq_append_iff.1 h with ⟨zs, rfl, hzs⟩ | ⟨zs, rfl, hzs⟩
  all_goals
    cases zs with
    | nil => simp_all
    | cons z zs =>
      obtain rfl := (List.cons.inj hzs).1
      simp at hxs hys

namespace NameUnit

variable {u v : NameUnit} {xs ys : List Char}

lemma ne_backslash_of_isNamePart {c : Char} (h : isNamePart c = true) : c ≠ '\\' := by
  rintro rfl
  exact absurd h (by decide)

/-- What a short escape covers does not begin with a brace. -/
lemma append_ne_brace {covered : List Char} (h : (short covered).isLoose = true) :
    covered ++ xs ≠ '\x7b' :: ys := by
  simp only [isLoose, Bool.and_eq_true, beq_iff_eq, bne_iff_ne, ne_eq] at h
  cases covered with
  | nil => exact absurd h.1 (by decide)
  | cons c covered =>
    intro heq
    obtain rfl : c = '\x7b' := (List.cons.inj heq).1
    exact h.2 rfl

/-- The first unit of a text can be told from the text. -/
lemma text_append_inj (hu : u.isLoose = true) (hv : v.isLoose = true)
    (h : u.text ++ xs = v.text ++ ys) : u = v ∧ xs = ys := by
  cases u with
  | part c =>
    have hc := ne_backslash_of_isNamePart hu
    cases v with
    | part d =>
      obtain ⟨rfl, hrest⟩ := List.cons.inj h
      exact ⟨rfl, hrest⟩
    | _ => exact absurd (List.cons.inj h).1 hc
  | short covered =>
    cases v with
    | part d => exact absurd (List.cons.inj h).1.symm (ne_backslash_of_isNamePart hv)
    | short covered' =>
      have htail : covered ++ xs = covered' ++ ys := (List.cons.inj (List.cons.inj h).2).2
      simp only [isLoose, Bool.and_eq_true, beq_iff_eq] at hu hv
      obtain ⟨rfl, hrest⟩ := append_inj_of_byteWidth htail (hu.1.trans hv.1.symm)
      exact ⟨rfl, hrest⟩
    | braced inside => exact absurd (List.cons.inj (List.cons.inj h).2).2 (append_ne_brace hu)
  | braced inside =>
    cases v with
    | part d => exact absurd (List.cons.inj h).1.symm (ne_backslash_of_isNamePart hv)
    | short covered =>
      exact absurd (List.cons.inj (List.cons.inj h).2).2.symm (append_ne_brace hv)
    | braced inside' =>
      simp only [isLoose, Bool.not_eq_true', List.contains_eq_mem, decide_eq_false_iff_not] at hu hv
      simp only [text, List.cons_append, List.append_assoc, List.nil_append, List.cons.injEq,
        true_and] at h
      obtain ⟨rfl, hrest⟩ := append_cons_inj_of_notMem hu hv h
      exact ⟨rfl, hrest⟩

/-- An escape that is cut short begins with no unit. -/
lemma not_isCutShort (hu : u.isLoose = true) : ¬ IsCutShort (u.text ++ xs) := by
  generalize htext : u.text ++ xs = text
  rintro (⟨hwidth, hhead⟩ | hinside)
  · cases u with
    | part c => exact ne_backslash_of_isNamePart hu (List.cons.inj htext).1
    | short covered =>
      rw [← (List.cons.inj (List.cons.inj htext).2).2] at hwidth
      simp only [isLoose, Bool.and_eq_true, beq_iff_eq] at hu
      have hsum : byteWidth covered + byteWidth xs < 4 := byteWidth_append covered xs ▸ hwidth
      omega
    | braced inside =>
      obtain rfl := (List.cons.inj (List.cons.inj htext).2).2
      exact hhead rfl
  · cases u with
    | part c => exact ne_backslash_of_isNamePart hu (List.cons.inj htext).1
    | short covered => exact append_ne_brace hu (List.cons.inj (List.cons.inj htext).2).2
    | braced inside =>
      obtain rfl := (List.cons.inj (List.cons.inj (List.cons.inj htext).2).2).2
      simp at hinside

lemma text_ne_nil (u : NameUnit) : u.text ≠ [] := by
  cases u <;> exact List.cons_ne_nil _ _

end NameUnit

/-- Loose units and an escape cut short are the only ones that a text falls into. -/
lemma units_unique {us vs : List NameUnit} {cut : List Char}
    (hus : ∀ u ∈ us, u.isLoose = true) (hvs : ∀ v ∈ vs, v.isLoose = true)
    (hcut : cut = [] ∨ IsCutShort cut) (h : textOfUnits us ++ cut = textOfUnits vs) :
    us = vs ∧ cut = [] := by
  induction vs generalizing us with
  | nil =>
    obtain ⟨hunits, hcut⟩ := List.append_eq_nil_iff.1 h
    cases us with
    | nil => exact ⟨rfl, hcut⟩
    | cons u us => exact absurd (List.append_eq_nil_iff.1 hunits).1 u.text_ne_nil
  | cons v vs ih =>
    have hv := hvs v List.mem_cons_self
    cases us with
    | nil =>
      obtain rfl : cut = v.text ++ textOfUnits vs := h
      rcases hcut with hnil | hcut
      · exact absurd (List.append_eq_nil_iff.1 hnil).1 v.text_ne_nil
      · exact absurd hcut (NameUnit.not_isCutShort hv)
    | cons u us =>
      have hsplit : u.text ++ (textOfUnits us ++ cut) = v.text ++ textOfUnits vs := by
        rw [← List.append_assoc]
        exact h
      obtain ⟨rfl, hrest⟩ := NameUnit.text_append_inj (hus u List.mem_cons_self) hv hsplit
      obtain ⟨rfl, hnil⟩ := ih (fun w hw => hus w (List.mem_cons_of_mem _ hw))
        (fun w hw => hvs w (List.mem_cons_of_mem _ hw)) hrest
      exact ⟨rfl, hnil⟩

/-! ### The units of a name that was read -/

/-- Characters that fall into loose units before the rest of a text.  If nothing is left, an escape
may be cut short. -/
structure FallsInto (taken rest : List Char) (units : List NameUnit) (cut : List Char) : Prop where
  text : taken = textOfUnits units ++ cut
  loose : ∀ u ∈ units, u.isLoose = true
  cut : cut = [] ∨ IsCutShort cut ∧ rest = []

namespace FallsInto

variable {taken rest cut : List Char} {units : List NameUnit}

lemma cons (h : FallsInto taken rest units cut) {u : NameUnit} (hu : u.isLoose = true) :
    FallsInto (u.text ++ taken) rest (u :: units) cut where
  text := by
    rw [h.text, ← List.append_assoc]
    rfl
  loose := List.forall_mem_cons.2 ⟨hu, h.loose⟩
  cut := h.cut

lemma of_isCutShort (h : IsCutShort taken) : FallsInto taken [] [] taken where
  text := rfl
  loose := by simp
  cut := .inr ⟨h, rfl⟩

/-- Whether a text is a proper name can be told from the units it falls into. -/
lemma isNameText_iff (h : FallsInto taken rest units cut) (hne : taken ≠ []) :
    IsNameText taken ↔ cut = [] ∧ ∀ u ∈ units, u.isProper = true := by
  constructor
  · rintro ⟨vs, _, hproper, htext⟩
    obtain ⟨rfl, hcut⟩ := units_unique h.loose
      (fun v hv => NameUnit.isLoose_of_isProper (hproper v hv)) (h.cut.imp_right And.left)
      (h.text.symm.trans htext)
    exact ⟨hcut, hproper⟩
  · rintro ⟨rfl, hproper⟩
    have htext : taken = textOfUnits units := h.text.trans (List.append_nil _)
    refine ⟨units, ?_, hproper, htext⟩
    rintro rfl
    exact hne htext

end FallsInto

namespace Lexeme

/-- What is taken from the middle of a name: inside an escape, first what ends it. -/
def TakenIn (taken rest : List Char) : NameMode → Prop
  | .parts => ∃ units cut, FallsInto taken rest units cut
  | .bracedEscape =>
    (∃ inside more units cut, taken = inside ++ '\x7d' :: more ∧ '\x7d' ∉ inside ∧
      FallsInto more rest units cut) ∨ '\x7d' ∉ taken ∧ rest = []
  | .shortEscape bytes =>
    (∃ covered more units cut, taken = covered ++ more ∧ byteWidth covered = bytes ∧
      FallsInto more rest units cut) ∨ byteWidth taken < bytes ∧ rest = []

/-- What ends an escape with a brace, one character further on. -/
lemma TakenIn.braced {taken rest : List Char} {c : Char}
    (h : TakenIn taken rest (if c = '\x7d' then .parts else .bracedEscape)) :
    TakenIn (c :: taken) rest .bracedEscape := by
  by_cases hc : c = '\x7d'
  · rw [if_pos hc] at h
    obtain ⟨units, cut, h⟩ := h
    exact .inl ⟨[], taken, units, cut, by rw [hc, List.nil_append], by simp, h⟩
  · rw [if_neg hc] at h
    rcases h with ⟨inside, more, units, cut, rfl, hinside, h⟩ | ⟨htaken, hrest⟩
    · refine .inl ⟨c :: inside, more, units, cut, rfl, ?_, h⟩
      simp [hinside, Ne.symm hc]
    · exact .inr ⟨by simp [htaken, Ne.symm hc], hrest⟩

/-- What ends a short escape, one character further on. -/
lemma TakenIn.short {taken rest : List Char} {c : Char} {bytes : Nat} (hwidth : c.utf8Size ≤ bytes)
    (h : TakenIn taken rest
      (if c.utf8Size = bytes then .parts else .shortEscape (bytes - c.utf8Size))) :
    TakenIn (c :: taken) rest (.shortEscape bytes) := by
  by_cases hc : c.utf8Size = bytes
  · rw [if_pos hc] at h
    obtain ⟨units, cut, h⟩ := h
    exact .inl ⟨[c], taken, units, cut, rfl, hc, h⟩
  · rw [if_neg hc] at h
    rcases h with ⟨covered, more, units, cut, rfl, hcovered, h⟩ | ⟨htaken, hrest⟩
    · refine .inl ⟨c :: covered, more, units, cut, rfl, ?_, h⟩
      rw [byteWidth_cons]
      omega
    · refine .inr ⟨?_, hrest⟩
      rw [byteWidth_cons]
      omega

/-- A name that is read without a flaw falls into loose units. -/
lemma takenIn_of_nameRun {mode : NameMode} {start : Nat} {text taken rest : List Char}
    (hmode : ∀ bytes, mode = .shortEscape bytes → 0 < bytes)
    (h : nameRun mode start text = some (taken, none, rest)) : TakenIn taken rest mode := by
  fun_induction nameRun mode start text generalizing taken rest with
  | case1 mode =>
    cases h
    cases mode with
    | parts => exact ⟨[], [], rfl, by simp, .inl rfl⟩
    | bracedEscape => exact .inr ⟨by simp, rfl⟩
    | shortEscape bytes => exact .inr ⟨hmode bytes rfl, rfl⟩
  | case2 start text ih =>
    obtain ⟨taken, rfl, hrun⟩ := exists_of_map_front ['\\', 'u', '\x7b'] h
    rcases ih (by simp) hrun with ⟨inside, more, units, cut, rfl, hinside, h⟩ | ⟨htaken, rfl⟩
    · refine ⟨.braced inside :: units, cut, ?_⟩
      simpa [NameUnit.text] using h.cons (u := .braced inside) (by simpa [NameUnit.isLoose])
    · exact ⟨[], _, .of_isCutShort (.braced htaken)⟩
  | case3 start text hbrace ih =>
    obtain ⟨taken, rfl, hrun⟩ := exists_of_map_front ['\\', 'u'] h
    have hhead : ∀ covered more, taken = covered ++ more → covered.head? ≠ some '\x7b' := by
      rintro covered more rfl hhead
      obtain ⟨covered, rfl⟩ := List.head?_eq_some_iff.1 hhead
      exact hbrace _ (nameRun_split hrun).symm
    rcases ih (by rintro _ ⟨⟩; decide) hrun with
      ⟨covered, more, units, cut, rfl, hcovered, h⟩ | ⟨htaken, rfl⟩
    · refine ⟨.short covered :: units, cut, h.cons (u := .short covered) ?_⟩
      simp [NameUnit.isLoose, hcovered, hhead covered more rfl]
    · exact ⟨[], _, .of_isCutShort (.short htaken (hhead taken [] (List.append_nil _).symm))⟩
  | case4 => exact absurd h ne_of_map_flaw
  | case5 start c text _ _ _ hpart ih =>
    obtain ⟨taken, rfl, hrun⟩ := exists_of_map_front [c] h
    obtain ⟨units, cut, h⟩ := ih (by simp) hrun
    exact ⟨.part c :: units, cut, h.cons (u := .part c) hpart⟩
  | case6 =>
    cases h
    exact ⟨[], [], rfl, by simp, .inl rfl⟩
  | case7 start c text ih =>
    obtain ⟨taken, rfl, hrun⟩ := exists_of_map_front [c] h
    exact .braced (ih (by split <;> simp) hrun)
  | case8 bytes start c text hwidth ih =>
    obtain ⟨taken, rfl, hrun⟩ := exists_of_map_front [c] h
    refine .short hwidth (ih ?_ hrun)
    split
    · simp
    · rintro _ ⟨⟩
      omega
  | case9 => cases h

end Lexeme

/-- A name or a word that is read without a flaw falls into loose units, and an escape is cut short
only at the end of the text.  It is the text of a proper name exactly if its escapes are complete
and hexadecimal, and then it has no character that belongs elsewhere. -/
theorem units_of_word {c c' : Cursor} (h : c.next? = some (c', none))
    (hword : c'.token.kind.isWord = true) :
    c'.token.text.toList ≠ [] ∧
      ∃ units cut, FallsInto c'.token.text.toList c'.rest units cut ∧
        (IsNameText c'.token.text.toList ↔ cut = [] ∧ ∀ u ∈ units, u.isProper = true) ∧
        (cut = [] → (∀ u ∈ units, u.isProper = true) →
          ∀ x ∈ c'.token.text.toList, IsNameCharacter x) := by
  have hread := (Cursor.Flawless.next h).readsWord hword
  have hne : c'.token.text.toList ≠ [] := by
    obtain ⟨x, xs, htext, _⟩ := hread.head
    rw [htext]
    exact List.cons_ne_nil _ _
  obtain ⟨start, hrun⟩ := hread.run
  obtain ⟨units, cut, hunits⟩ := Lexeme.takenIn_of_nameRun (by simp) hrun
  have hiff := hunits.isNameText_iff hne
  refine ⟨hne, units, cut, hunits, hiff, fun hcut hproper => ?_⟩
  exact (hiff.2 ⟨hcut, hproper⟩).isNameCharacter

/-- The word at the beginning of `\u0061\u{62}c = 1;`, and what is left after it. -/
def escapedWord : Cursor :=
  ⟨⟨.identifier, 0, "\\u0061\\u\x7b62\x7dc", "\\u0061\\u\x7b62\x7dc", false⟩, " = 1;".toList⟩

/-- Both forms of escapes and a character that is not escaped. -/
theorem units_of_escapedWord :
    (Cursor.start "\\u0061\\u\x7b62\x7dc = 1;").next? = some (escapedWord, none) ∧
      escapedWord.token.kind.isWord = true ∧
      escapedWord.token.text.toList ≠ [] ∧
      ∃ units cut, FallsInto escapedWord.token.text.toList escapedWord.rest units cut ∧
        (IsNameText escapedWord.token.text.toList ↔ cut = [] ∧ ∀ u ∈ units, u.isProper = true) ∧
        (cut = [] → (∀ u ∈ units, u.isProper = true) →
          ∀ x ∈ escapedWord.token.text.toList, IsNameCharacter x) := by
  have hnext : (Cursor.start "\\u0061\\u\x7b62\x7dc = 1;").next? = some (escapedWord, none) := by
    decide
  exact ⟨hnext, rfl, units_of_word hnext rfl⟩

/-- `\u1 + x` is read as one word, for the escape covers the operator and the blanks around it. -/
theorem word_with_operator :
    (Cursor.start "\\u1 + x;").next? =
        some (⟨⟨.identifier, 0, "\\u1 + x", "\\u1 + x", false⟩, [';']⟩, none) ∧
      '+' ∈ "\\u1 + x".toList ∧ ' ' ∈ "\\u1 + x".toList ∧ ¬ IsNameText "\\u1 + x".toList := by
  refine ⟨by decide, by decide, by decide, fun h => ?_⟩
  have hblank := (h.isNameCharacter ' ' (by decide)).blank
  exact absurd hblank (by decide)

end BindingProxy
