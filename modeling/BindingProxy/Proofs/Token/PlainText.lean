import BindingProxy.Proofs.Token.Flawless

/-!
# Plain texts

How a text falls into tokens depends on how its slashes and closing braces are read, which is for
the grammar to say.  A text is plain if no reading of it, from its beginning up to its end, finds a
comment between two tokens or a backslash in a name.  Then a semicolon at its end is a token, and not
a part of something else.
-/

namespace BindingProxy

open Relation (ReflTransGen)

/-- A step to the next token in a reading of a whole text. -/
structure Cursor.StepIn (text : String) (c c' : Cursor) : Prop where
  reached : ReflTransGen Cursor.Moves (Cursor.start text) c
  next : c.next? = some (c', none)
  ends : ∃ last, ReflTransGen Cursor.Moves c' last ∧ last.token.kind = .endOfText

/-- Between the tokens of a text there are only blanks, and no name in it holds a backslash. -/
structure IsPlain (text : String) : Prop where
  blank {c c' : Cursor} (h : c.StepIn text c') :
    ∃ gap, c.rest = gap ++ c'.ahead ∧ ∀ x ∈ gap, isBlank x = true
  name {c c' : Cursor} (h : c.StepIn text c') (hkind : c'.token.kind.isWord = true) :
    '\\' ∉ c'.token.text.toList

/-! ### The end of a plain text -/

namespace Lexeme

/-- A name without a backslash is made of the characters that can stand in a name. -/
lemma isNamePart_of_nameRun {start : Nat} {text taken rest : List Char} {flaw : Option Flaw}
    (h : nameRun .parts start text = some (taken, flaw, rest)) (hescape : '\\' ∉ taken) :
    ∀ x ∈ taken, isNamePart x = true := by
  induction text generalizing start taken flaw rest with
  | nil =>
    cases h
    exact fun x hx => absurd hx (by simp)
  | cons c text ih =>
    have hc : c ≠ '\\' := by
      rintro rfl
      obtain ⟨y, ys, rfl⟩ := List.exists_cons_of_ne_nil (nameRun_ne_nil (.inr rfl) h)
      rw [(List.cons.inj (nameRun_split h)).1] at hescape
      exact hescape List.mem_cons_self
    rw [nameRun.eq_5 _ _ _ (fun _ heq => absurd heq hc) (fun _ heq => absurd heq hc) hc] at h
    by_cases hpart : isNamePart c = true
    · rw [if_pos hpart] at h
      obtain ⟨⟨taken, flaw, rest⟩, hrun, heq⟩ := Option.map_eq_some_iff.1 h
      cases heq
      simp only [List.mem_cons, not_or] at hescape
      rintro x (_ | ⟨_, hx⟩)
      · exact hpart
      · exact ih hrun hescape.2 x hx
    · rw [if_neg hpart] at h
      cases h
      exact fun x hx => absurd hx (by simp)

end Lexeme

/-- A semicolon at the end of a plain text is no part of a gap or of a name. -/
lemma IsPlain.not_passed {text : String} (h : IsPlain text) {c c' : Cursor} (hstep : c.StepIn text c')
    {xs : List Char} (hrest : c.rest = xs ++ [';']) (hrest' : c'.rest = []) :
    c'.token.kind ≠ .endOfText ∧ c'.token.kind.isWord = false := by
  obtain ⟨gap, hgap, hblank⟩ := h.blank hstep
  have hatToken := Cursor.atToken_of_next? hstep.next
  have hnot : c'.token.kind ≠ .endOfText := by
    intro hkind
    rw [hatToken.at_end hkind, List.append_nil, hrest] at hgap
    have hsemicolon := hblank ';' (hgap ▸ by simp)
    exact absurd hsemicolon (by decide)
  refine ⟨hnot, Bool.not_eq_true _ ▸ fun hword => ?_⟩
  have htext : c'.token.text.toList ≠ [] := fun hnil =>
    hatToken.text_ne hnot (String.toList_eq_nil_iff.1 hnil)
  have hlast : ';' ∈ c'.token.text.toList := by
    rw [Cursor.ahead, hrest', List.append_nil, hrest] at hgap
    have hconcat : (gap ++ c'.token.text.toList).getLast? = some ';' := by
      rw [← hgap, List.getLast?_concat]
    rw [List.getLast?_append, List.getLast?_eq_some_getLast htext, Option.some_or] at hconcat
    exact Option.some.inj hconcat ▸ List.getLast_mem htext
  obtain ⟨_, hrun⟩ := (Cursor.Flawless.next hstep.next).readsWord hword |>.run
  have hpart := Lexeme.isNamePart_of_nameRun hrun (h.name hstep hword) ';' hlast
  exact absurd hpart (by decide)

/-! ### Texts that are plain -/

lemma isBlank_of_gapText {offset : Nat} {gap rest : List Char} {flaw : Option Flaw}
    (h : GapText offset gap rest flaw) (hslash : '/' ∉ gap) (hhash : '#' ∉ gap) :
    ∀ x ∈ gap, isBlank x = true := by
  induction h with
  | nil => exact fun x hx => absurd hx (by simp)
  | unclosed => exact absurd List.mem_cons_self hslash
  | cons hitem _ ih =>
    rw [List.mem_append, not_or] at hslash hhash
    intro x hx
    rcases List.mem_append.1 hx with hx | hx
    · cases hitem with
      | blank hc =>
        obtain rfl := List.mem_singleton.1 hx
        refine hc.elim (fun hline => ?_) id
        simp only [isLineTerminator, Bool.or_eq_true, beq_iff_eq] at hline
        rcases hline with ((rfl | rfl) | rfl) | rfl <;> decide
      | lineComment => exact absurd List.mem_cons_self hslash.1
      | blockComment => exact absurd List.mem_cons_self hslash.1
      | scriptLine => exact absurd List.mem_cons_self hhash.1
    · exact ih hslash.2 hhash.2 x hx

lemma standsIn_of_moves {text : String} {c : Cursor}
    (h : ReflTransGen Cursor.Moves (Cursor.start text) c) : c.StandsIn text := by
  induction h with
  | refl => exact Cursor.standsIn_start text
  | tail _ hmove ih =>
    cases hmove with
    | next h => exact ih.next? h
    | slash h =>
      have hstands := ih.rereadSlash
      rwa [h] at hstands
    | brace h =>
      have hstands := ih.rereadBrace
      rwa [h] at hstands

/-- A text without slashes, backslashes and number signs is plain. -/
lemma isPlain_of_not_mem {text : String}
    (h : '/' ∉ text.toList ∧ '#' ∉ text.toList ∧ '\\' ∉ text.toList) : IsPlain text := by
  have hmem : ∀ {c c' : Cursor} {gap : List Char} {x : Char}, c.StepIn text c' →
      c.rest = gap ++ c'.ahead → x ∈ gap ++ c'.ahead → x ∈ text.toList := by
    intro c c' gap x hstep hsplit hx
    obtain ⟨before, htext, _⟩ := (standsIn_of_moves hstep.reached).exists_before
    rw [htext, hsplit]
    exact List.mem_append_right _ hx
  constructor
  · intro c c' hstep
    obtain ⟨gap, hsplit, _, hgap⟩ := Cursor.exists_gap_of_next? hstep.next
    have hin : ∀ {x}, x ∈ gap → x ∈ text.toList := fun hx =>
      hmem hstep hsplit (List.mem_append_left _ hx)
    refine ⟨gap, hsplit, ?_⟩
    rcases hgap with ⟨_, _, _, hgap⟩ | ⟨_, _, hgap⟩ <;>
      exact isBlank_of_gapText hgap (fun hx => h.1 (hin hx)) fun hx => h.2.1 (hin hx)
  · intro c c' hstep _ hx
    obtain ⟨gap, hsplit, _⟩ := Cursor.exists_gap_of_next? hstep.next
    refine h.2.2 (hmem hstep hsplit (List.mem_append_right _ ?_))
    exact List.mem_append_left _ hx

end BindingProxy
