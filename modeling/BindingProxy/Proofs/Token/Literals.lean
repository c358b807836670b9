import BindingProxy.Proofs.Token.Extent
import Mathlib.Data.List.TakeWhile

/-!
# Literals read again

What was once read as a literal is read as the same literal from its first character on, whatever
followed it then.  A number is read to its end where nothing follows (`number_taken`), so it is
before all that does not go on with it.  Strings, parts of templates and regular expressions end with
a delimiter and do not look beyond it.
-/

namespace BindingProxy

namespace Lexeme

/-! ### Numbers -/

/-- A text that goes on with no digits in a radix. -/
def EndsDigits (radix : Nat) (tail : List Char) : Prop :=
  ∀ c ∈ tail.head?, c ≠ '_' ∧ isDigitIn radix c = false

/-- Digits end where no digit follows. -/
lemma digits_taken {radix : Nat} (text : List Char) {tail : List Char}
    (h : EndsDigits radix tail) :
    digits radix ((digits radix text).1 ++ tail) = ((digits radix text).1, tail) := by
  simp only [digits, List.span_eq_takeWhile_dropWhile]
  have hall : ∀ c ∈ text.takeWhile fun c => c == '_' || isDigitIn radix c,
      (c == '_' || isDigitIn radix c) = true := fun c =>
    List.mem_takeWhile_imp (p := fun c => c == '_' || isDigitIn radix c)
  rw [List.takeWhile_append_of_pos hall, List.dropWhile_append_of_pos hall]
  cases tail with
  | nil => simp
  | cons c tail =>
    obtain ⟨hmark, hdigit⟩ := h c rfl
    simp [hmark, hdigit]

/-- A decimal number ends where neither a digit nor a fraction follows. -/
lemma mantissa_taken (text : List Char) {tail : List Char} (h : EndsDigits 10 tail)
    (hdot : ∀ c ∈ tail.head?, c ≠ '.') :
    mantissa ((mantissa text).1 ++ tail) = ((mantissa text).1, tail) := by
  rw [mantissa_eq_fraction text]
  unfold fraction
  split
  · next rest _ =>
    have hwhole : EndsDigits 10 ('.' :: ((digits 10 rest).1 ++ tail)) := by
      rintro c ⟨⟩
      decide
    rw [mantissa_eq_fraction, List.append_assoc, List.cons_append, digits_taken text hwhole]
    simp only [fraction, digits_taken rest h]
  · rw [mantissa_eq_fraction, digits_taken text h, fraction.eq_2]
    rintro rest rfl
    exact hdot _ rfl rfl

/-- Digits are taken from where one stands. -/
lemma startsWithDigit_digits {text : List Char} (h : startsWithDigit text = true)
    (tail : List Char) : startsWithDigit ((digits 10 text).1 ++ tail) = true := by
  cases text with
  | nil => cases h
  | cons c text =>
    simp only [digits, List.span_eq_takeWhile_dropWhile, List.takeWhile_cons,
      isDigitIn_ten h, Bool.or_true, if_true]
    exact h

/-- A sign stands before digits. -/
lemma sign_taken (text : List Char) {tail : List Char} (h : startsWithDigit tail = true) :
    sign ((sign text).1 ++ tail) = ((sign text).1, tail) := by
  have hmark : (sign text).1 = ['+'] ∨ (sign text).1 = ['-'] ∨ (sign text).1 = [] := by
    unfold sign
    split <;> simp
  rcases hmark with hmark | hmark | hmark <;> rw [hmark]
  · rfl
  · rfl
  · exact sign.eq_3 tail (by rintro _ rfl; cases h) (by rintro _ rfl; cases h)

/-- An exponent begins with its letter, and it ends before the mark of a big integer. -/
lemma exponent_taken (text : List Char) (hfull : (exponent text).2.2 = false) {mark : List Char}
    (hmark : mark = [] ∨ mark = ['n']) :
    (∀ c ∈ (exponent text).1.head?, c = 'e' ∨ c = 'E') ∧
      exponent ((exponent text).1 ++ mark) = ((exponent text).1, mark, false) := by
  have hnone : exponent mark = ([], mark, false) := by rcases hmark with rfl | rfl <;> rfl
  have hends : EndsDigits 10 mark := by
    rcases hmark with rfl | rfl <;> rintro c ⟨⟩
    decide
  cases text with
  | nil => exact ⟨by simp [exponent], hnone⟩
  | cons c text =>
    rw [exponent] at hfull ⊢
    split
    · next he =>
      rw [if_pos he] at hfull
      simp only at hfull ⊢
      split
      · next hdigit =>
        have hstart := startsWithDigit_digits hdigit mark
        refine ⟨by simpa using he, ?_⟩
        simp only [List.append_assoc, List.cons_append, exponent, if_pos he, sign_taken text hstart,
          hstart, if_true, digits_taken _ hends]
      · next hdigit => simp [hdigit] at hfull
    · exact ⟨by simp, hnone⟩

/-- Only the characters of a number announce its radix. -/
lemma radix_taken {xs ys mark : List Char} (hten : radix (xs ++ ys) = 10)
    (hmark : mark = [] ∨ mark = ['n']) : radix (xs ++ mark) = 10 := by
  rcases xs with _ | ⟨x, _ | ⟨y, xs⟩⟩
  · rcases hmark with rfl | rfl <;> rfl
  · rcases hmark with rfl | rfl <;> simp [radix]
  · simp only [List.cons_append] at hten ⊢
    unfold radix at hten ⊢
    split <;> simp_all

lemma radix_take {text : List Char} (h : 2 ≤ text.length) (ys : List Char) :
    radix (text.take 2 ++ ys) = radix text := by
  rcases text with _ | ⟨x, _ | ⟨y, text⟩⟩
  · simp at h
  · simp at h
  · simp only [List.take_succ_cons, List.take_zero, List.cons_append, List.nil_append]
    unfold radix
    split <;> simp_all

/-- A number without its last mark ends before the mark. -/
lemma magnitude_taken (text : List Char) (hfull : (magnitude text).2.2 = false) {mark : List Char}
    (hmark : mark = [] ∨ mark = ['n']) :
    magnitude ((magnitude text).1 ++ mark) = ((magnitude text).1, mark, false) := by
  by_cases hten : radix text = 10
  · have hmagnitude : ∀ ys, radix ys = 10 → magnitude ys = ((mantissa ys).1 ++
        (exponent (mantissa ys).2).1, (exponent (mantissa ys).2).2) := by
      intro ys hys
      unfold magnitude
      rw [hys]
      rfl
    have hsplit := magnitude_split text
    rw [hmagnitude text hten] at hfull hsplit ⊢
    obtain ⟨hletter, hpower⟩ := exponent_taken _ hfull hmark
    have hnext : ∀ c ∈ ((exponent (mantissa text).2).1 ++ mark).head?, c ∈ ['e', 'E', 'n'] := by
      intro c hc
      rcases hcs : (exponent (mantissa text).2).1 with _ | ⟨d, cs⟩
      · rw [hcs] at hc
        rcases hmark with rfl | rfl <;> cases hc
        decide
      · rw [hcs] at hletter hc
        cases hc
        rcases hletter c rfl with rfl | rfl <;> decide
    have hall : ∀ c ∈ ['e', 'E', 'n'], c ≠ '.' ∧ c ≠ '_' ∧ isDigitIn 10 c = false := by
      simp only [List.forall_mem_cons, List.not_mem_nil, false_implies, implies_true, and_true]
      decide
    rw [hmagnitude _ (radix_taken (hsplit.symm ▸ hten) hmark), List.append_assoc,
      mantissa_taken text (fun c hc => (hall c (hnext c hc)).2) fun c hc => (hall c (hnext c hc)).1,
      hpower]
  · have hmagnitude : ∀ ys, radix ys = radix text → magnitude ys = (ys.take 2 ++
        (digits (radix text) (ys.drop 2)).1, (digits (radix text) (ys.drop 2)).2, false) := by
      intro ys hys
      unfold magnitude
      rw [hys]
      split
      · next heq => exact absurd heq hten
      · rfl
    have hends : EndsDigits (radix text) mark := by
      rcases hmark with rfl | rfl <;> rintro c ⟨⟩
      exact ⟨by decide, by simp [isDigitIn]⟩
    have hlength := two_le_length_of_radix hten
    have htake : (text.take 2).length = 2 := by simp [hlength]
    rw [hmagnitude text rfl, List.append_assoc, hmagnitude _ (radix_take hlength _),
      List.take_left' htake, List.drop_left' htake, digits_taken _ hends]

/-- A number that was read is read again where nothing follows it. -/
lemma number_taken {start : Nat} {xs after : List Char}
    (h : number start (xs ++ after) = plain .number xs after none) :
    number start xs = plain .number xs [] none := by
  simp only [number, plain, mk.injEq, true_and] at h
  obtain ⟨htaken, -, hflaw, -⟩ := h
  have hfull : (magnitude (xs ++ after)).2.2 = false := by
    by_contra hmissing
    rw [if_pos (eq_true_of_ne_false hmissing)] at hflaw
    cases hflaw
  have hmark : (bigIntMark (magnitude (xs ++ after)).2.1).1 = [] ∨
      (bigIntMark (magnitude (xs ++ after)).2.1).1 = ['n'] := by
    unfold bigIntMark
    split <;> simp
  have hmagnitude := magnitude_taken (xs ++ after) hfull hmark
  rw [htaken] at hmagnitude
  rcases hmark with hmark | hmark <;> rw [hmark] at htaken hmagnitude <;>
    simp [number, hmagnitude, htaken, bigIntMark, startsWithName]

/-- A number that ends where nothing follows ends before anything that does not go on with it. -/
lemma number_append {start : Nat} {xs : List Char} (h : number start xs = plain .number xs [] none)
    (start' : Nat) {tail : List Char} (htail : EndsNumber tail) :
    number start' (xs ++ tail) = plain .number xs tail none := by
  have hname : startsWithName tail = false := startsWithName_append [] htail
  simp only [number, plain, mk.injEq, true_and] at h
  obtain ⟨htaken, -, hflaw, hrest⟩ := h
  have hfull : (magnitude xs).2.2 = false := by
    by_contra hmissing
    rw [if_pos (eq_true_of_ne_false hmissing)] at hflaw
    cases hflaw
  simp only [number, magnitude_append xs htail, cuts_bigIntMark _ htail, htaken, hrest, hfull, hname,
    List.nil_append, Bool.false_eq_true, if_false]

/-- The dot that begins a number is not all of it. -/
lemma text_number_dot {rest : List Char} (h : startsWithDigit rest = true) (start : Nat) :
    (number start ('.' :: rest)).text ≠ ['.'] := by
  cases rest with
  | nil => cases h
  | cons d rest =>
    intro htext
    have hten : radix ('.' :: d :: rest) = 10 := by simp [radix]
    have hwhole : digits 10 ('.' :: d :: rest) = ([], '.' :: d :: rest) := rfl
    simp only [number, plain, magnitude, hten, mantissa, hwhole, List.nil_append, List.append_assoc,
      List.cons_append, List.cons.injEq, List.append_eq_nil_iff, true_and] at htext
    exact digits_ne_nil h rest htext.1

/-! ### Strings, parts of templates and regular expressions -/

lemma string_eq (start : Nat) (quote : Char) (text : List Char) :
    string start quote text =
      plain .string (quote :: (stringRun quote text).1) (stringRun quote text).2.2
        (if (stringRun quote text).2.1 then none else some ⟨.unclosedString, start⟩) :=
  rfl

/-- A string that was closed ends with its quote, and it is closed before anything. -/
lemma stringRun_taken {quote : Char} (hquote : quote ≠ '\\') {text taken after : List Char}
    (h : stringRun quote text = (taken, true, after)) :
    (∃ front, taken = front ++ [quote]) ∧
      ∀ tail, stringRun quote (taken ++ tail) = (taken, true, tail) := by
  have hplain : ∀ {c : Char} (rest : List Char), c ≠ '\\' → stringRun quote (c :: rest) =
      if c = quote then ([c], true, rest) else if isLineFeed c then ([], false, c :: rest)
      else (c :: (stringRun quote rest).1, (stringRun quote rest).2) := fun {c} rest hc =>
    stringRun.eq_4 quote c rest (fun _ heq => absurd heq hc) fun _ _ heq => absurd heq hc
  fun_induction stringRun quote text generalizing taken with
  | case1 => cases h
  | case2 rest taken closed rest' hrun ih =>
    cases h
    obtain ⟨⟨front, rfl⟩, htail⟩ := ih hrun
    refine ⟨⟨'\\' :: '\r' :: '\n' :: front, rfl⟩, fun tail => ?_⟩
    rw [List.cons_append, List.cons_append, List.cons_append, stringRun, htail]
  | case3 c rest hbreak taken closed rest' hrun ih =>
    cases h
    obtain ⟨⟨front, rfl⟩, htail⟩ := ih hrun
    refine ⟨⟨'\\' :: c :: front, rfl⟩, fun tail => ?_⟩
    have hsplit := stringRun_split quote rest
    rw [hrun] at hsplit
    have hbreak' : ∀ rest', c = '\r' → front ++ [quote] ++ tail = '\n' :: rest' → False := by
      rintro rest' hc heq
      obtain ⟨xs, hxs⟩ : ∃ xs, front ++ [quote] = '\n' :: xs := by
        cases front <;> cases heq <;> exact ⟨_, rfl⟩
      rw [hxs] at hsplit
      exact hbreak _ hc hsplit.symm
    rw [List.cons_append, List.cons_append, stringRun.eq_3 quote _ _ hbreak', htail]
  | case4 rest _ hescape =>
    cases h
    refine ⟨⟨[], rfl⟩, fun tail => ?_⟩
    rw [List.cons_append, List.nil_append, hplain _ hquote, if_pos rfl]
  | case5 => cases h
  | case6 c rest _ hescape hc hfeed taken closed rest' hrun ih =>
    cases h
    have hescape' : c ≠ '\\' := by
      rintro rfl
      cases rest with
      | nil => cases hrun
      | cons d rest => exact hescape _ _ rfl rfl
    obtain ⟨⟨front, rfl⟩, htail⟩ := ih hrun
    refine ⟨⟨c :: front, rfl⟩, fun tail => ?_⟩
    rw [List.cons_append, hplain _ hescape', if_neg hc, if_neg hfeed, htail]

/-- A part of a template that was read is read again before either of its ends. -/
lemma chunkRun_taken {text value after : List Char} {stop : ChunkEnd}
    (h : chunkRun text = (value, stop, after)) (hstop : stop ≠ .unclosed) {stop' : ChunkEnd}
    (hstop' : stop' ≠ .unclosed) (tail : List Char) :
    chunkRun (value ++ stop'.text ++ tail) = (value, stop', tail) := by
  have hend : chunkRun (stop'.text ++ tail) = ([], stop', tail) := by
    cases stop' with
    | closed => simp [ChunkEnd.text, chunkRun]
    | substitution => simp [ChunkEnd.text, chunkRun]
    | unclosed => exact absurd rfl hstop'
  fun_induction chunkRun text generalizing value with
  | case1 =>
    cases h
    exact absurd rfl hstop
  | case2 | case3 =>
    cases h
    exact hend
  | case4 c rest taken stop rest' hrun ih =>
    cases h
    simp only [List.cons_append, chunkRun, ih hrun]
  | case5 c rest htick hdollar hescape taken stop rest' hrun ih =>
    cases h
    have hsplit := chunkRun_split rest
    rw [hrun] at hsplit
    have hdollar' : ∀ after, c = '$' → taken ++ stop'.text ++ tail = '\x7b' :: after → False := by
      rintro after hc heq
      cases taken with
      | nil => cases stop' <;> simp_all [ChunkEnd.text]
      | cons x taken =>
        cases heq
        exact hdollar _ hc hsplit.symm
    have hescape' : c ≠ '\\' := by
      rintro rfl
      cases rest with
      | nil =>
        cases hrun
        exact hstop rfl
      | cons x rest => exact hescape x rest rfl rfl
    rw [List.cons_append, List.cons_append, chunkRun.eq_5 _ _ htick hdollar'
      fun _ _ heq => absurd heq hescape', ih hrun]

/-- A regular expression that was closed ends with a slash, and it is closed before anything. -/
lemma regExpRun_taken {inClass : Bool} {text taken after : List Char}
    (h : regExpRun inClass text = (taken, true, after)) :
    (∃ front, taken = front ++ ['/']) ∧
      ∀ tail, regExpRun inClass (taken ++ tail) = (taken, true, tail) := by
  fun_induction regExpRun inClass text generalizing taken with
  | case1 => cases h
  | case2 => cases h
  | case3 inClass c rest hline taken closed rest' hrun ih =>
    cases h
    obtain ⟨⟨front, rfl⟩, htail⟩ := ih hrun
    refine ⟨⟨'\\' :: c :: front, rfl⟩, fun tail => ?_⟩
    rw [List.cons_append, List.cons_append, regExpRun, if_neg hline, htail]
  | case4 => cases h
  | case5 inClass c rest hescape hline hclose =>
    cases h
    refine ⟨⟨[], rfl⟩, fun tail => ?_⟩
    rw [List.cons_append, regExpRun.eq_3 _ _ _ (by rintro _ _ ⟨⟩), if_neg (by decide),
      if_pos ⟨rfl, hclose.2⟩]
    rfl
  | case6 inClass c rest hescape hline hclose inClass' taken closed rest' hrun =>
    rename_i ih
    cases h
    have hescape' : c ≠ '\\' := by
      rintro rfl
      cases rest with
      | nil => cases hrun
      | cons d rest => exact hescape d rest rfl rfl
    obtain ⟨⟨front, rfl⟩, htail⟩ := ih hrun
    refine ⟨⟨c :: front, rfl⟩, fun tail => ?_⟩
    rw [List.cons_append, regExpRun.eq_3 _ _ _ (fun _ _ heq => absurd heq hescape'), if_neg hline,
      if_neg hclose]
    simp only [inClass'] at htail
    simp only [htail]

end Lexeme

namespace Word

/-- The text of a token that was read has a first character. -/
lemma exists_of_append {w : Word} {start : Nat} {after rest : List Char} {c : Char}
    (h : Lexeme.read start (w.text.toList ++ after) = some (.plain w.kind w.text.toList after none))
    (htext : w.text.toList ++ after = c :: rest) :
    ∃ cs, w.text.toList = c :: cs ∧ rest = cs ++ after := by
  have hne : w.text.toList ≠ [] := (Lexeme.ne_nil_of_read (htext ▸ h)).1
  obtain ⟨d, cs, hcs⟩ := List.exists_cons_of_ne_nil hne
  rw [hcs] at htext
  cases htext
  exact ⟨cs, hcs, rfl⟩

/-- A number that was read stands before all that does not go on with it. -/
lemma stands_of_number {w : Word} {start : Nat} {after : List Char}
    (h : Lexeme.read start (w.text.toList ++ after) = some (.plain w.kind w.text.toList after none))
    (hkind : w.kind = .number) {tail : List Char} (htail : Lexeme.EndsNumber tail) :
    w.Stands tail := by
  obtain ⟨c, rest, htext, hc, hl⟩ := Lexeme.number_of_read h hkind
  obtain ⟨cs, hcs, rfl⟩ := exists_of_append h htext
  have hne : ∀ d : Char, d.isDigit = false → d ≠ '.' → c ≠ d := by
    rintro d hd hdot rfl
    rw [hd] at hc
    exact hdot (hc.resolve_left Bool.false_ne_true).1
  refine ⟨by simp [hcs], ?_, ?_⟩
  · intro start
    have hblank : isBlank c = false := by
      by_contra hblank
      have hall : ∀ n ∈ blankCodes, (Char.ofNat n).isDigit = false ∧ Char.ofNat n ≠ '.' := by
        decide
      obtain ⟨hdigit, hdot⟩ := hall _ (mem_blankCodes (eq_true_of_ne_false hblank))
      rw [Char.ofNat_toNat] at hdigit hdot
      exact hne c hdigit hdot rfl
    rw [hcs, List.cons_append, gap_read hblank (hne '/' rfl (by decide)) (hne '#' rfl (by decide))]
  · intro start'
    rw [hkind, ← htext] at hl
    have hnumber := Lexeme.number_append (Lexeme.number_taken hl.symm) start' htail
    have hstart : c.isDigit = true ∨ (c = '.' ∧ Lexeme.startsWithDigit (cs ++ tail) = true) := by
      refine hc.imp_right ?_
      rintro ⟨rfl, hdigit⟩
      cases cs with
      | cons x cs => exact ⟨rfl, hdigit⟩
      | nil =>
        refine absurd ?_ (Lexeme.text_number_dot hdigit start)
        rw [← htext, ← hl, ← hcs]
        rfl
    rw [hkind, ← hnumber, hcs, List.cons_append, Lexeme.read_eq_number hstart]

/-- A string that was read stands before anything. -/
lemma stands_of_string {w : Word} {start : Nat} {after : List Char}
    (h : Lexeme.read start (w.text.toList ++ after) = some (.plain w.kind w.text.toList after none))
    (hkind : w.kind = .string) (tail : List Char) : w.Stands tail := by
  obtain ⟨c, rest, htext, hc, hl⟩ := Lexeme.string_of_read h hkind
  obtain ⟨cs, hcs, rfl⟩ := exists_of_append h htext
  refine ⟨by simp [hcs], ?_, ?_⟩
  · intro start
    rw [hcs, List.cons_append]
    rcases hc with rfl | rfl <;> exact gap_read (by decide) (by decide) (by decide) _ _
  · intro start
    rw [hcs] at hl ⊢
    simp only [Lexeme.string_eq, Lexeme.plain, Lexeme.mk.injEq, List.cons.injEq, true_and] at hl
    obtain ⟨-, htaken, -, hflaw, hrest⟩ := hl
    have hclosed : (Lexeme.stringRun c (cs ++ after)).2.1 = true := by
      by_contra hopen
      rw [if_neg hopen] at hflaw
      cases hflaw
    have hrun : Lexeme.stringRun c (cs ++ after) = (cs, true, after) :=
      Prod.ext htaken.symm (Prod.ext hclosed hrest.symm)
    have hescape : c ≠ '\\' := by rcases hc with rfl | rfl <;> decide
    rw [List.cons_append, Lexeme.read, if_pos hc, Lexeme.string_eq,
      (Lexeme.stringRun_taken hescape hrun).2 tail, hkind]
    rfl

end Word

end BindingProxy
