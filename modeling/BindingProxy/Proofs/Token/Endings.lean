import BindingProxy.Proofs.Token.Literals
import BindingProxy.Proofs.Token.Tiling

/-!
# Texts with different ends

A text is read with a semicolon after it, and with a closing parenthesis and a semicolon.  Up to the
end all tokens are the same.  The end itself is not touched, unless it is taken in by the last token:
by an unclosed literal, which is a flaw, or by an escape that has no end of its own, or by a comment.
-/

namespace BindingProxy

/-- The two ends of a text. -/
inductive IsEnd : List Char → Prop where
  | semicolon : IsEnd [';']
  | closeParen : IsEnd [')', ';']

namespace IsEnd

variable {tail : List Char}

lemma endsNumber (h : IsEnd tail) : Lexeme.EndsNumber tail := by
  cases h
  · exact .semicolon _
  · exact .closeParen _

lemma endsName (h : IsEnd tail) : Lexeme.EndsName tail := by
  cases h <;> exact ⟨by decide, by decide⟩

lemma mem {c : Char} (h : IsEnd tail) (hc : c ∈ tail) : c = ';' ∨ c = ')' := by
  cases h <;> simp at hc <;> tauto

/-- The first character of a text before an end is not another one because of the end. -/
lemma of_append_eq_cons {xs rest : List Char} {c : Char} (h : IsEnd tail)
    (hc : c ≠ ';' ∧ c ≠ ')') (heq : xs ++ tail = c :: rest) : ∃ xs', xs = c :: xs' := by
  cases xs with
  | nil =>
    cases h
    · exact absurd (List.cons.inj heq).1.symm hc.1
    · exact absurd (List.cons.inj heq).1.symm hc.2
  | cons x xs => exact ⟨xs, by rw [(List.cons.inj heq).1]⟩

end IsEnd

namespace Lexeme

/-! ### Names -/

/-- A part of the end is in a name. -/
structure TakesEnd (tail taken rest : List Char) : Prop where
  mem : ';' ∈ taken ∨ ')' ∈ taken
  rest : rest = [] ∨ tail = [')', ';'] ∧ rest = [';']

/-- How a name is read with either end after it. -/
inductive NameEnds (mode : NameMode) (xs : List Char) : Prop where
  | unreadable (h : ∀ start tail, IsEnd tail → nameRun mode start (xs ++ tail) = none)
  | before (taken : List Char) (flawed : Bool) (rest : List Char)
      (h : ∀ start tail, IsEnd tail → ∃ flaw, nameRun mode start (xs ++ tail) =
        some (taken, flaw, rest ++ tail) ∧ flaw.isSome = flawed)
  | within (flawed : Bool)
      (h : ∀ start tail, IsEnd tail → ∃ taken flaw rest, nameRun mode start (xs ++ tail) =
        some (taken, flaw, rest) ∧ flaw.isSome = flawed ∧ TakesEnd tail taken rest)

/-- A name from its first characters on, which may have a flaw of their own. -/
lemma NameEnds.of_map_flaw {mode mode' : NameMode} {xs : List Char} (front : List Char)
    (width : Nat) (mark : Nat → Option Flaw → Option Flaw) (marked : Bool → Bool)
    (hmark : ∀ start flaw, (mark start flaw).isSome = marked flaw.isSome) (h : NameEnds mode' xs)
    (hrun : ∀ start tail, IsEnd tail → nameRun mode start (front ++ xs ++ tail) =
      (nameRun mode' (start + width) (xs ++ tail)).map fun (taken, flaw, rest) =>
        (front ++ taken, mark start flaw, rest)) : NameEnds mode (front ++ xs) := by
  cases h with
  | unreadable h =>
    refine .unreadable fun start tail htail => ?_
    rw [hrun start tail htail, h _ tail htail]
    rfl
  | before taken flawed rest h =>
    refine .before (front ++ taken) (marked flawed) rest fun start tail htail => ?_
    obtain ⟨flaw, hread, hflaw⟩ := h (start + width) tail htail
    refine ⟨mark start flaw, ?_, by rw [hmark, hflaw]⟩
    rw [hrun start tail htail, hread]
    rfl
  | within flawed h =>
    refine .within (marked flawed) fun start tail htail => ?_
    obtain ⟨taken, flaw, rest, hread, hflaw, hend⟩ := h (start + width) tail htail
    refine ⟨front ++ taken, mark start flaw, rest, ?_, by rw [hmark, hflaw], ?_, hend.rest⟩
    · rw [hrun start tail htail, hread]
      rfl
    · exact hend.mem.imp (List.mem_append_right _) (List.mem_append_right _)

lemma NameEnds.of_map {mode mode' : NameMode} {xs : List Char} (front : List Char) (width : Nat)
    (h : NameEnds mode' xs)
    (hrun : ∀ start tail, IsEnd tail → nameRun mode start (front ++ xs ++ tail) =
      (nameRun mode' (start + width) (xs ++ tail)).map fun (taken, flaw, rest) =>
        (front ++ taken, flaw, rest)) : NameEnds mode (front ++ xs) :=
  h.of_map_flaw front width (fun _ flaw => flaw) id (fun _ _ => rfl) hrun

/-- A name that is at its end, or in an escape, which takes in the end or a part of it. -/
lemma nameEnds_nil (mode : NameMode) : NameEnds mode [] := by
  cases mode with
  | parts =>
    refine .before [] false [] fun start tail htail => ⟨none, ?_, rfl⟩
    rw [List.nil_append, nameRun_of_endsName htail.endsName]
  | bracedEscape =>
    refine .within false fun start tail htail => ⟨tail, none, [], ?_, rfl, ?_, .inl rfl⟩
    · cases htail <;> simp [nameRun]
    · cases htail <;> simp
  | shortEscape bytes =>
    have hsemicolon : ';'.utf8Size = 1 := rfl
    have hparen : ')'.utf8Size = 1 := rfl
    rcases bytes with _ | _ | bytes
    · refine .unreadable fun start tail htail => ?_
      cases htail <;> simp [nameRun, hsemicolon, hparen]
    · refine .within false fun start tail htail => ?_
      cases htail with
      | semicolon =>
        refine ⟨[';'], none, [], ?_, rfl, by simp, .inl rfl⟩
        simp [nameRun, hsemicolon]
      | closeParen =>
        refine ⟨[')'], none, [';'], ?_, rfl, by simp, .inr ⟨rfl, rfl⟩⟩
        rw [List.nil_append, nameRun, if_pos (by simp [hparen]), if_pos (by simp [hparen]),
          nameRun_of_endsName IsEnd.semicolon.endsName]
        rfl
    · refine .within false fun start tail htail => ⟨tail, none, [], ?_, rfl, ?_, .inl rfl⟩
      · cases htail <;> simp [nameRun, hsemicolon, hparen]
      · cases htail <;> simp

lemma nameEnds (mode : NameMode) (start : Nat) (xs : List Char) : NameEnds mode xs := by
  fun_induction nameRun mode start xs with
  | case1 mode start => exact nameEnds_nil mode
  | case2 start rest ih =>
    refine ih.of_map ['\\', 'u', '\x7b'] 3 fun start tail _ => ?_
    rw [List.append_assoc, List.cons_append, List.cons_append, List.cons_append, nameRun]
    rfl
  | case3 start rest hbrace ih =>
    refine ih.of_map ['\\', 'u'] 2 fun start tail htail => ?_
    rw [List.append_assoc, List.cons_append, List.cons_append, nameRun.eq_3]
    · rfl
    · intro rest' heq
      obtain ⟨xs, rfl⟩ := htail.of_append_eq_cons (by decide) heq
      exact hbrace xs rfl
  | case4 start rest hbrace hescape ih =>
    refine ih.of_map_flaw ['\\'] 1 (fun start _ => some ⟨.strayBackslash, start⟩)
      (fun _ => true) (fun _ _ => rfl) fun start tail htail => ?_
    have hnot : ∀ rest', rest ++ tail = 'u' :: rest' → False := by
      intro rest' heq
      obtain ⟨xs, rfl⟩ := htail.of_append_eq_cons (by decide) heq
      exact hescape xs rfl
    rw [List.append_assoc, List.cons_append, List.nil_append,
      nameRun.eq_4 _ _ (fun rest' => hnot _) hnot]
    rfl
  | case5 start c rest hbrace hshort hescape hpart ih =>
    refine ih.of_map [c] c.utf8Size fun start tail _ => ?_
    rw [List.append_assoc, List.cons_append, List.nil_append, nameRun.eq_5 _ _ _
      (fun _ hc => absurd hc hescape) (fun _ hc => absurd hc hescape) hescape, if_pos hpart]
    rfl
  | case6 start c rest hbrace hshort hescape hpart =>
    refine .before [] false (c :: rest) fun start tail _ => ⟨none, ?_, rfl⟩
    rw [List.cons_append, nameRun.eq_5 _ _ _ (fun _ hc => absurd hc hescape)
      (fun _ hc => absurd hc hescape) hescape, if_neg hpart]
  | case7 start c rest ih =>
    refine ih.of_map [c] c.utf8Size fun start tail _ => ?_
    rw [List.append_assoc, List.cons_append, List.nil_append, nameRun]
    rfl
  | case8 bytes start c rest hwidth ih =>
    refine ih.of_map [c] c.utf8Size fun start tail _ => ?_
    rw [List.append_assoc, List.cons_append, List.nil_append, nameRun, if_pos hwidth]
    rfl
  | case9 bytes start c rest hwidth =>
    refine .unreadable fun start tail _ => ?_
    rw [List.cons_append, nameRun, if_neg hwidth]

/-! ### Any lexeme -/

/-- A lexeme that leaves the end alone, up to the place of a flaw. -/
structure Before (l base : Lexeme) (tail : List Char) : Prop where
  kind : l.kind = base.kind
  text : l.text = base.text
  value : l.value = base.value
  flaw : l.flaw.isSome = base.flaw.isSome
  rest : l.rest = base.rest ++ tail

/-- How a lexeme is read with either end after it. -/
inductive Ends (read : Nat → List Char → Option Lexeme) (xs : List Char) : Prop where
  | unreadable (h : ∀ start tail, IsEnd tail → read start (xs ++ tail) = none)
  | before (base : Lexeme)
      (h : ∀ start tail, IsEnd tail → ∃ l, read start (xs ++ tail) = some l ∧ l.Before base tail)
  | flawed (kind : TokenKind)
      (h : ∀ start tail, IsEnd tail → ∃ l, read start (xs ++ tail) = some l ∧ l.kind = kind ∧
        l.flaw.isSome = true)
  | within (h : ∀ start tail, IsEnd tail → ∃ l, read start (xs ++ tail) = some l ∧
      l.kind = .identifier ∧ l.flaw = none ∧ (l.rest = [] ∨ tail = [')', ';'] ∧ l.rest = [';']))

lemma ofWord?_of_mem {taken : List Char} (h : ';' ∈ taken ∨ ')' ∈ taken) :
    TokenKind.ofWord? (String.ofList taken) = none := by
  have hreserved : ∀ w ∈ ReservedWord.all, ';' ∉ w.text.toList ∧ ')' ∉ w.text.toList := by decide
  have hcontextual : ∀ w ∈ ContextualWord.all, ';' ∉ w.text.toList ∧ ')' ∉ w.text.toList := by decide
  have hne : ∀ text : String, ';' ∉ text.toList ∧ ')' ∉ text.toList → text ≠ String.ofList taken := by
    rintro text hnot rfl
    rw [String.toList_ofList] at hnot
    exact h.elim hnot.1 hnot.2
  unfold TokenKind.ofWord?
  rw [List.find?_eq_none.2, List.find?_eq_none.2]
  · rfl
  · intro w hw
    simpa using hne _ (hcontextual w hw)
  · intro w hw
    simpa using hne _ (hreserved w hw)

lemma name_of_run {start : Nat} {text taken rest : List Char} {flaw : Option Flaw}
    (h : nameRun .parts start text = some (taken, flaw, rest)) : name start text =
      some (plain ((TokenKind.ofWord? (String.ofList taken)).getD .identifier) taken rest flaw) := by
  rw [name, h]
  rfl

lemma ends_name (xs : List Char) : Ends name xs := by
  cases nameEnds .parts 0 xs with
  | unreadable h =>
    refine .unreadable fun start tail htail => ?_
    rw [name, h start tail htail]
    rfl
  | before taken flawed rest h =>
    refine .before (plain ((TokenKind.ofWord? (String.ofList taken)).getD .identifier) taken rest
      (if flawed then some ⟨.strayBackslash, 0⟩ else none)) fun start tail htail => ?_
    obtain ⟨flaw, hread, hflaw⟩ := h start tail htail
    refine ⟨_, name_of_run hread, rfl, rfl, rfl, ?_, rfl⟩
    rw [plain, plain, hflaw]
    cases flawed <;> rfl
  | within flawed h =>
    cases flawed with
    | true =>
      refine .flawed .identifier fun start tail htail => ?_
      obtain ⟨taken, flaw, rest, hread, hflaw, hend⟩ := h start tail htail
      refine ⟨_, name_of_run hread, ?_, hflaw⟩
      rw [plain, ofWord?_of_mem hend.mem]
      rfl
    | false =>
      refine .within fun start tail htail => ?_
      obtain ⟨taken, flaw, rest, hread, hflaw, hend⟩ := h start tail htail
      refine ⟨_, name_of_run hread, ?_, Option.not_isSome_iff_eq_none.1 (by simp [plain, hflaw]),
        hend.rest⟩
      rw [plain, ofWord?_of_mem hend.mem]
      rfl

lemma ends_number (xs : List Char) : Ends (fun start text => some (number start text)) xs := by
  refine .before (number 0 xs) fun start tail htail => ⟨_, rfl, ?_⟩
  have hnumber : number start (xs ++ tail) = plain .number ((magnitude xs).1 ++
      (bigIntMark (magnitude xs).2.1).1) ((bigIntMark (magnitude xs).2.1).2 ++ tail)
      (if (magnitude xs).2.2 then some ⟨.missingExponent, start + byteWidth (magnitude xs).1⟩
      else if startsWithName (bigIntMark (magnitude xs).2.1).2 then
        some ⟨.nameAfterNumber, start + byteWidth ((magnitude xs).1 ++
          (bigIntMark (magnitude xs).2.1).1)⟩
      else none) := by
    simp only [number, magnitude_append xs htail.endsNumber, cuts_bigIntMark _ htail.endsNumber,
      startsWithName_append _ htail.endsNumber]
  rw [hnumber]
  refine ⟨rfl, rfl, rfl, ?_, rfl⟩
  simp only [plain, number]
  split
  · rfl
  · split <;> rfl

/-! ### Strings, templates and regular expressions -/

/-- A literal is closed before the end, or it is not closed. -/
def RunEnds {β : Type} (run : List Char → List Char × β × List Char) (unclosed : β)
    (xs : List Char) : Prop :=
  (∃ taken stop rest, stop ≠ unclosed ∧ ∀ tail, run (xs ++ tail) = (taken, stop, rest ++ tail)) ∨
    ∀ tail, IsEnd tail → (run (xs ++ tail)).2.1 = unclosed

/-- A literal that does not look beyond its delimiter leaves the end alone. -/
lemma runEnds_of_taken {β : Type} {run : List Char → List Char × β × List Char} {unclosed : β}
    (htaken : ∀ {text taken stop after}, run text = (taken, stop, after) → stop ≠ unclosed →
      ∃ front d, (d ≠ ';' ∧ d ≠ ')') ∧ text = front ++ [d] ++ after ∧
        ∀ tail, run (front ++ [d] ++ tail) = (taken, stop, tail))
    (xs : List Char) : RunEnds run unclosed xs := by
  by_cases h : ∀ tail, IsEnd tail → (run (xs ++ tail)).2.1 = unclosed
  · exact .inr h
  · simp only [not_forall] at h
    obtain ⟨tail, htail, hclosed⟩ := h
    rcases hrun : run (xs ++ tail) with ⟨taken, stop, after⟩
    rw [hrun] at hclosed
    obtain ⟨front, d, hd, hsplit, hall⟩ := htaken hrun hclosed
    -- The delimiter is no character of the end.
    have hrest : ∃ rest, xs = front ++ [d] ++ rest := by
      rcases List.append_eq_append_iff.1 hsplit with ⟨rest, hfront, htail'⟩ | ⟨rest, hxs, -⟩
      · rcases List.eq_nil_or_concat rest with rfl | ⟨init, e, rfl⟩
        · exact ⟨[], by rw [hfront, List.append_nil, List.append_nil]⟩
        · rw [List.concat_eq_append] at hfront htail'
          rw [← List.append_assoc] at hfront
          obtain ⟨-, hde⟩ := List.append_inj' hfront rfl
          cases hde
          exact absurd (htail.mem (htail' ▸ by simp : d ∈ tail)) (not_or_intro hd.1 hd.2)
      · exact ⟨rest, hxs⟩
    obtain ⟨rest, rfl⟩ := hrest
    refine .inl ⟨taken, stop, rest, hclosed, fun tail => ?_⟩
    rw [List.append_assoc, hall]

lemma stringRun_ends {quote : Char} (hquote : quote = '"' ∨ quote = '\'') (xs : List Char) :
    RunEnds (stringRun quote) false xs := by
  refine runEnds_of_taken (fun {text taken stop after} hrun hclosed => ?_) xs
  obtain rfl := eq_true_of_ne_false hclosed
  have hsplit := stringRun_split quote text
  obtain ⟨⟨front, rfl⟩, hall⟩ := stringRun_taken (by rcases hquote with rfl | rfl <;> decide) hrun
  rw [hrun] at hsplit
  exact ⟨front, quote, by rcases hquote with rfl | rfl <;> decide, hsplit.symm, hall⟩

lemma chunkRun_ends (xs : List Char) : RunEnds chunkRun .unclosed xs := by
  refine runEnds_of_taken (fun {text value stop after} hrun hclosed => ?_) xs
  have hsplit := chunkRun_split text
  rw [hrun] at hsplit
  have hall := chunkRun_taken hrun hclosed hclosed
  cases stop with
  | closed => exact ⟨value, '\x60', by decide, by simpa [ChunkEnd.text] using hsplit.symm, hall⟩
  | substitution =>
    refine ⟨value ++ ['$'], '\x7b', by decide, by simpa [ChunkEnd.text] using hsplit.symm, ?_⟩
    rwa [List.append_assoc]
  | unclosed => exact absurd rfl hclosed

lemma regExpRun_ends (inClass : Bool) (xs : List Char) : RunEnds (regExpRun inClass) false xs := by
  refine runEnds_of_taken (fun {text taken stop after} hrun hclosed => ?_) xs
  obtain rfl := eq_true_of_ne_false hclosed
  have hsplit := regExpRun_split inClass text
  obtain ⟨⟨front, rfl⟩, hall⟩ := regExpRun_taken hrun
  rw [hrun] at hsplit
  exact ⟨front, '/', by decide, hsplit.symm, hall⟩

lemma ends_string {quote : Char} (hquote : quote = '"' ∨ quote = '\'') (xs : List Char) :
    Ends (fun start text => some (string start quote text)) xs := by
  rcases stringRun_ends hquote xs with ⟨taken, closed, rest, hclosed, h⟩ | h
  · refine .before (plain .string (quote :: taken) rest none) fun start tail _ => ⟨_, rfl, ?_⟩
    rw [string_eq, h tail, if_pos (eq_true_of_ne_false hclosed)]
    exact ⟨rfl, rfl, rfl, rfl, rfl⟩
  · refine .flawed .string fun start tail htail => ⟨_, rfl, rfl, ?_⟩
    rw [string_eq, h tail htail]
    rfl

lemma ends_chunk (first : Bool) (opening : Char) (xs : List Char) :
    Ends (fun start text => some (chunk start first opening text)) xs := by
  rcases chunkRun_ends xs with ⟨value, stop, rest, hstop, h⟩ | h
  · refine .before ⟨chunkKind first stop, opening :: value ++ stop.text, value, none, rest⟩
      fun start tail _ => ⟨_, rfl, ?_⟩
    simp only [chunk, h tail, if_neg hstop]
    exact ⟨rfl, rfl, rfl, rfl, rfl⟩
  · refine .flawed (chunkKind first .unclosed) fun start tail htail => ⟨_, rfl, ?_, ?_⟩
    · exact congrArg (chunkKind first) (h tail htail)
    · change (if (chunkRun (xs ++ tail)).2.1 = .unclosed then
        some (⟨.unclosedTemplate, start⟩ : Flaw) else none).isSome = true
      rw [if_pos (h tail htail)]
      rfl

lemma span_isNamePart_append (xs : List Char) {tail : List Char} (h : IsEnd tail) :
    (xs ++ tail).span isNamePart = ((xs.span isNamePart).1, (xs.span isNamePart).2 ++ tail) := by
  simp only [List.span_eq_takeWhile_dropWhile]
  induction xs with
  | nil =>
    have hpart : isNamePart ';' = false ∧ isNamePart ')' = false := ⟨by decide, by decide⟩
    cases h <;> simp [hpart]
  | cons x xs ih =>
    simp only [Prod.mk.injEq] at ih
    by_cases hx : isNamePart x = true
    · simp only [List.cons_append, List.takeWhile_cons, List.dropWhile_cons, hx, if_true, ih]
    · simp only [List.cons_append, List.takeWhile_cons, List.dropWhile_cons, hx]
      rfl

lemma regExp_of_run {start : Nat} {text taken rest : List Char} {closed : Bool}
    (h : regExpRun false text = (taken, closed, rest)) : regExp start text =
      if closed then plain .regExp ('/' :: taken ++ (rest.span isNamePart).1) (rest.span isNamePart).2
        none
      else plain .regExp ('/' :: taken) rest (some ⟨.unclosedRegExp, start⟩) := by
  rw [regExp, h]

lemma ends_regExp (xs : List Char) : Ends (fun start text => some (regExp start text)) xs := by
  rcases regExpRun_ends false xs with ⟨taken, closed, rest, hclosed, h⟩ | h
  · refine .before (plain .regExp ('/' :: taken ++ (rest.span isNamePart).1)
      (rest.span isNamePart).2 none) fun start tail htail => ⟨_, rfl, ?_⟩
    rw [regExp_of_run (h tail), if_pos (eq_true_of_ne_false hclosed),
      span_isNamePart_append rest htail]
    exact ⟨rfl, rfl, rfl, rfl, rfl⟩
  · refine .flawed .regExp fun start tail htail => ⟨_, rfl, ?_⟩
    rw [regExp_of_run rfl, h tail htail, if_neg (by simp)]
    exact ⟨rfl, rfl⟩

/-! ### Punctuators -/

lemma isPrefixOf_append {ys : List Char} (xs : List Char) {tail : List Char}
    (hys : ';' ∉ ys ∧ ')' ∉ ys) (h : IsEnd tail) : ys.isPrefixOf (xs ++ tail) = ys.isPrefixOf xs := by
  induction ys generalizing xs with
  | nil => rw [List.isPrefixOf_nil_left, List.isPrefixOf_nil_left]
  | cons y ys ih =>
    simp only [List.mem_cons, not_or] at hys
    cases xs with
    | nil =>
      have hne : (y == ';') = false ∧ (y == ')') = false :=
        ⟨beq_eq_false_iff_ne.2 (Ne.symm hys.1.1), beq_eq_false_iff_ne.2 (Ne.symm hys.2.1)⟩
      cases h <;> simp [List.isPrefixOf, hne]
    | cons x xs =>
      rw [List.cons_append, List.isPrefixOf, List.isPrefixOf, ih xs ⟨hys.1.2, hys.2.2⟩]

/-- A punctuator fits before an end where it fits without one. -/
lemma punctuatorFits_append (p : Punctuator) (x : Char) (xs : List Char) {tail : List Char}
    (h : IsEnd tail) : punctuatorFits (x :: xs ++ tail) p = punctuatorFits (x :: xs) p := by
  have hsplit : ∃ y ys, p.text.toList = y :: ys ∧ ';' ∉ ys ∧ ')' ∉ ys := by
    cases p <;> exact ⟨_, _, rfl, by decide, by decide⟩
  obtain ⟨y, ys, htext, hys⟩ := hsplit
  have hfront : p.text.toList.isPrefixOf (x :: xs ++ tail) = p.text.toList.isPrefixOf (x :: xs) := by
    rw [htext, List.cons_append, List.isPrefixOf, List.isPrefixOf, isPrefixOf_append xs hys h]
  unfold punctuatorFits
  rw [hfront]
  by_cases hp : p = .questionDot
  · subst hp
    cases xs with
    | nil => simp [Punctuator.text, List.isPrefixOf]
    | cons x' xs =>
      rw [List.cons_append, List.cons_append, List.drop_succ_cons, List.drop_succ_cons, List.drop_zero,
        List.drop_succ_cons, List.drop_succ_cons, List.drop_zero,
        startsWithDigit_append xs h.endsNumber]
  · rw [beq_eq_false_iff_ne.2 hp, Bool.false_and, Bool.false_and]

lemma punctuator?_append (x : Char) (xs : List Char) {tail : List Char} (h : IsEnd tail) :
    punctuator? x (x :: xs ++ tail) = punctuator? x (x :: xs) := by
  unfold punctuator?
  exact congrArg (List.find? · _) (funext fun p => punctuatorFits_append p x xs h)

lemma Ends.congr {reader reader' : Nat → List Char → Option Lexeme} {xs ys : List Char}
    (h : Ends reader xs)
    (heq : ∀ start tail, IsEnd tail → reader' start (ys ++ tail) = reader start (xs ++ tail)) :
    Ends reader' ys := by
  cases h with
  | unreadable h => exact .unreadable fun start tail htail => (heq start tail htail).trans (h start tail htail)
  | before base h =>
    refine .before base fun start tail htail => ?_
    rw [heq start tail htail]
    exact h start tail htail
  | flawed kind h =>
    refine .flawed kind fun start tail htail => ?_
    rw [heq start tail htail]
    exact h start tail htail
  | within h =>
    refine .within fun start tail htail => ?_
    rw [heq start tail htail]
    exact h start tail htail

/-- A lexeme that begins before the end. -/
lemma ends_read (x : Char) (xs : List Char) : Ends read (x :: xs) := by
  by_cases hquote : x = '"' ∨ x = '\''
  · exact (ends_string hquote xs).congr fun start tail _ => by rw [List.cons_append, read, if_pos hquote]
  by_cases htick : x = '\x60'
  · exact (ends_chunk true x xs).congr fun start tail _ => by
      rw [List.cons_append, read, if_neg hquote, if_pos htick]
  by_cases hdigit : x.isDigit ∨ (x = '.' ∧ startsWithDigit xs)
  · refine (ends_number (x :: xs)).congr fun start tail htail => ?_
    rw [List.cons_append, read, if_neg hquote, if_neg htick, startsWithDigit_append xs htail.endsNumber,
      if_pos hdigit]
  have hnumber : ∀ tail, IsEnd tail → ¬ (x.isDigit ∨ (x = '.' ∧ startsWithDigit (xs ++ tail))) :=
    fun tail htail => by rwa [startsWithDigit_append xs htail.endsNumber]
  cases hp : punctuator? x (x :: xs) with
  | some p =>
    have hlength : p.text.toList.length ≤ (x :: xs).length := by
      have hfits := List.find?_some hp
      rw [punctuatorFits, Bool.and_eq_true, List.isPrefixOf_iff_prefix] at hfits
      exact hfits.1.length_le
    have hread : ∀ start tail, IsEnd tail → read start (x :: xs ++ tail) =
        some (plain (.punctuator p) p.text.toList ((x :: xs).drop p.text.toList.length ++ tail) none) := by
      intro start tail htail
      rw [List.cons_append, read, if_neg hquote, if_neg htick, if_neg (hnumber tail htail),
        ← List.cons_append, punctuator?_append x xs htail, hp, ← List.drop_append_of_le_length hlength]
    exact .before (plain (.punctuator p) p.text.toList ((x :: xs).drop p.text.toList.length) none)
      fun start tail htail => ⟨_, hread start tail htail, rfl, rfl, rfl, rfl, rfl⟩
  | none =>
    by_cases hname : isNameStart x ∨ x = '\\'
    · refine (ends_name (x :: xs)).congr fun start tail htail => ?_
      rw [List.cons_append, read, if_neg hquote, if_neg htick, if_neg (hnumber tail htail),
        ← List.cons_append, punctuator?_append x xs htail, hp]
      exact if_pos hname
    · have hread : ∀ start tail, IsEnd tail → read start (x :: xs ++ tail) =
          some (plain .unknown [x] (xs ++ tail) (some ⟨.invalidCharacter x, start⟩)) := by
        intro start tail htail
        rw [List.cons_append, read, if_neg hquote, if_neg htick, if_neg (hnumber tail htail),
          ← List.cons_append, punctuator?_append x xs htail, hp]
        exact if_neg hname
      exact .before (plain .unknown [x] xs (some ⟨.invalidCharacter x, 0⟩)) fun start tail htail =>
        ⟨_, hread start tail htail, rfl, rfl, rfl, rfl, rfl⟩

end Lexeme

/-! ### Gaps -/

namespace Gap

/-- Modes that differ at most in where a comment began. -/
def Mode.Alike : Mode → Mode → Prop
  | .between, .between | .lineComment, .lineComment => True
  | .blockComment _ inner, .blockComment _ inner' => inner' = inner
  | _, _ => False

/-- How a gap is skipped with either end after it: it is left before the end, or the end is in a
comment. -/
inductive Ends (mode : Mode) (lineBreak : Bool) (xs : List Char) : Prop where
  | before (broken : Bool) (rest : List Char)
      (h : ∀ mode' offset tail, mode.Alike mode' → 0 < offset → IsEnd tail →
        ∃ offset', skip mode' offset lineBreak (xs ++ tail) = ⟨offset', broken, none, rest ++ tail⟩)
  | within (broken flawed : Bool)
      (h : ∀ mode' offset tail, mode.Alike mode' → 0 < offset → IsEnd tail →
        ∃ offset' flaw, skip mode' offset lineBreak (xs ++ tail) = ⟨offset', broken, flaw, []⟩ ∧
          flaw.isSome = flawed)

/-- A gap from its first characters on. -/
lemma Ends.of_front {mode next : Mode} {lineBreak lineBreak' : Bool} {xs : List Char}
    (front : List Char) (h : Ends next lineBreak' xs)
    (hskip : ∀ mode' offset tail, mode.Alike mode' → 0 < offset → IsEnd tail →
      ∃ next' offset', next.Alike next' ∧ 0 < offset' ∧
        skip mode' offset lineBreak (front ++ xs ++ tail) = skip next' offset' lineBreak' (xs ++ tail)) :
    Ends mode lineBreak (front ++ xs) := by
  cases h with
  | before broken rest h =>
    refine .before broken rest fun mode' offset tail hmode hoffset htail => ?_
    obtain ⟨next', offset', hnext, hoffset', heq⟩ := hskip mode' offset tail hmode hoffset htail
    rw [heq]
    exact h next' offset' tail hnext hoffset' htail
  | within broken flawed h =>
    refine .within broken flawed fun mode' offset tail hmode hoffset htail => ?_
    obtain ⟨next', offset', hnext, hoffset', heq⟩ := hskip mode' offset tail hmode hoffset htail
    rw [heq]
    exact h next' offset' tail hnext hoffset' htail

lemma Mode.Alike.between_eq {mode : Mode} (h : Mode.between.Alike mode) : mode = .between := by
  cases mode <;> first | rfl | exact h.elim

lemma Mode.Alike.lineComment_eq {mode : Mode} (h : Mode.lineComment.Alike mode) :
    mode = .lineComment := by
  cases mode <;> first | rfl | exact h.elim

lemma Mode.Alike.blockComment_eq {mode : Mode} {start : Nat} {inner : Bool}
    (h : (Mode.blockComment start inner).Alike mode) : ∃ start', mode = .blockComment start' inner := by
  cases mode with
  | between | lineComment => exact h.elim
  | blockComment start' inner' => exact ⟨start', by rw [show inner' = inner from h]⟩

/-- A character that begins no comment, between tokens. -/
lemma skip_between {c : Char} {rest : List Char} {offset : Nat} (lineBreak : Bool) (hoffset : 0 < offset)
    (hslash : c = '/' → ∀ rest', rest ≠ '/' :: rest' ∧ rest ≠ '*' :: rest') :
    skip .between offset lineBreak (c :: rest) =
      if isLineTerminator c then skip .between (offset + c.utf8Size) true rest
      else if isBlank c then skip .between (offset + c.utf8Size) lineBreak rest
      else ⟨offset, lineBreak, none, c :: rest⟩ := by
  refine skip.eq_5 offset lineBreak c rest (fun rest' hc heq => (hslash hc rest').1 heq)
    (fun rest' hc heq => (hslash hc rest').2 heq) fun rest' hzero => absurd hzero (by omega)

/-- What begins no comment does not begin one because of an end. -/
lemma noComment {c : Char} {xs tail : List Char} (hline : ∀ rest, c = '/' → xs = '/' :: rest → False)
    (hblock : ∀ rest, c = '/' → xs = '*' :: rest → False) (htail : IsEnd tail) (hc : c = '/')
    (rest : List Char) : xs ++ tail ≠ '/' :: rest ∧ xs ++ tail ≠ '*' :: rest := by
  constructor
  · intro heq
    obtain ⟨xs, rfl⟩ := htail.of_append_eq_cons (by decide) heq
    exact hline xs hc rfl
  · intro heq
    obtain ⟨xs, rfl⟩ := htail.of_append_eq_cons (by decide) heq
    exact hblock xs hc rfl

lemma ends_skip (mode : Mode) (offset : Nat) (lineBreak : Bool) (xs : List Char) :
    Ends mode lineBreak xs := by
  have hsemicolon : ';'.utf8Size = 1 := rfl
  have hparen : ')'.utf8Size = 1 := rfl
  fun_induction skip mode offset lineBreak xs with
  | case1 offset lineBreak =>
    refine .before lineBreak [] fun mode' offset tail hmode hoffset htail => ?_
    rw [hmode.between_eq]
    cases htail <;> exact ⟨offset, skip_between lineBreak hoffset (by rintro ⟨⟩)⟩
  | case2 offset lineBreak rest ih =>
    refine ih.of_front ['/', '/'] fun mode' offset tail hmode hoffset htail => ?_
    rw [hmode.between_eq]
    exact ⟨.lineComment, offset + 2, trivial, by omega, by
      rw [List.append_assoc, List.cons_append, List.cons_append, skip, List.nil_append]⟩
  | case3 offset lineBreak rest ih =>
    refine ih.of_front ['/', '*'] fun mode' offset tail hmode hoffset htail => ?_
    rw [hmode.between_eq]
    exact ⟨.blockComment offset false, offset + 2, rfl, by omega, by
      rw [List.append_assoc, List.cons_append, List.cons_append, skip, List.nil_append]⟩
  | case4 lineBreak rest ih =>
    -- Only at the very beginning of a text is this a comment.
    refine .before lineBreak ('#' :: '!' :: rest) fun mode' offset tail hmode hoffset htail => ?_
    rw [hmode.between_eq]
    exact ⟨offset, skip_between lineBreak hoffset (by rintro ⟨⟩)⟩
  | case5 offset lineBreak c rest hline hblock hhash hbreak ih =>
    refine ih.of_front [c] fun mode' offset tail hmode hoffset htail => ?_
    rw [hmode.between_eq]
    refine ⟨.between, offset + c.utf8Size, trivial, by omega, ?_⟩
    rw [List.append_assoc, List.cons_append, List.nil_append,
      skip_between lineBreak hoffset (noComment hline hblock htail), if_pos hbreak]
  | case6 offset lineBreak c rest hline hblock hhash hbreak hblank ih =>
    refine ih.of_front [c] fun mode' offset tail hmode hoffset htail => ?_
    rw [hmode.between_eq]
    refine ⟨.between, offset + c.utf8Size, trivial, by omega, ?_⟩
    rw [List.append_assoc, List.cons_append, List.nil_append,
      skip_between lineBreak hoffset (noComment hline hblock htail), if_neg hbreak, if_pos hblank]
  | case7 offset lineBreak c rest hline hblock hhash hbreak hblank =>
    refine .before lineBreak (c :: rest) fun mode' offset tail hmode hoffset htail => ⟨offset, ?_⟩
    rw [hmode.between_eq, List.cons_append,
      skip_between lineBreak hoffset (noComment hline hblock htail), if_neg hbreak, if_neg hblank]
  | case8 offset lineBreak =>
    refine .within lineBreak false fun mode' offset tail hmode hoffset htail => ?_
    rw [hmode.lineComment_eq]
    cases htail
    · exact ⟨offset + 1, none, by simp [skip, isLineFeed, hsemicolon], rfl⟩
    · exact ⟨offset + 1 + 1, none, by simp [skip, isLineFeed, hsemicolon, hparen], rfl⟩
  | case9 offset lineBreak c rest hfeed ih =>
    refine ih.of_front [c] fun mode' offset tail hmode hoffset htail => ?_
    rw [hmode.lineComment_eq]
    refine ⟨.between, offset + c.utf8Size, trivial, by omega, ?_⟩
    rw [List.append_assoc, List.cons_append, List.nil_append, skip, if_pos hfeed]
  | case10 offset lineBreak c rest hfeed ih =>
    refine ih.of_front [c] fun mode' offset tail hmode hoffset htail => ?_
    rw [hmode.lineComment_eq]
    refine ⟨.lineComment, offset + c.utf8Size, trivial, by omega, ?_⟩
    rw [List.append_assoc, List.cons_append, List.nil_append, skip, if_neg hfeed]
  | case11 start inner offset lineBreak =>
    refine .within lineBreak true fun mode' offset tail hmode hoffset htail => ?_
    obtain ⟨start', rfl⟩ := hmode.blockComment_eq
    cases htail
    · exact ⟨offset + 1, some ⟨.unclosedComment, start'⟩, by simp [skip, hsemicolon], rfl⟩
    · exact ⟨offset + 1 + 1, some ⟨.unclosedComment, start'⟩, by simp [skip, hsemicolon, hparen], rfl⟩
  | case12 start inner offset lineBreak rest ih =>
    refine ih.of_front ['*', '/'] fun mode' offset tail hmode hoffset htail => ?_
    obtain ⟨start', rfl⟩ := hmode.blockComment_eq
    exact ⟨.between, offset + 2, trivial, by omega, by
      rw [List.append_assoc, List.cons_append, List.cons_append, skip, List.nil_append]⟩
  | case13 start inner offset lineBreak c rest hclose ih =>
    refine ih.of_front [c] fun mode' offset tail hmode hoffset htail => ?_
    obtain ⟨start', rfl⟩ := hmode.blockComment_eq
    refine ⟨.blockComment start' (inner || isLineFeed c), offset + c.utf8Size, rfl, by omega, ?_⟩
    rw [List.append_assoc, List.cons_append, List.nil_append, skip.eq_10]
    intro rest' hc heq
    obtain ⟨xs, rfl⟩ := htail.of_append_eq_cons (by decide) heq
    exact hclose xs hc rfl

end Gap

end BindingProxy
