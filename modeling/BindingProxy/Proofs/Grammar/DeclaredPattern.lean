import BindingProxy.Proofs.Grammar.Extension
import BindingProxy.Proofs.Grammar.SharedText
import BindingProxy.Proofs.Token.PlainText
import BindingProxy.Proofs.Tree.Shape

/-!
# Declared patterns as assigned ones

The same text is read after `var` and in parentheses: once with a pattern that declares, and once
with a literal that becomes a pattern when the `=` shows up.  Both come to the same pattern and to the
same value.  Reading the literal takes more levels, so that it can be refused where the declaration is
not; it never is with twice as many levels.
-/

namespace BindingProxy

open Relation (ReflTransGen)

/-- The text as what a `var` declares. -/
def declaringScript (m : String) : String := "var " ++ m ++ ";"

/-- The text as an expression in parentheses. -/
def assigningScript (m : String) : String := "(" ++ m ++ ");"

namespace Cursor

/-- The cursor at the `var` before a text. -/
def atVar (m : String) : Cursor :=
  ⟨⟨.reserved .kwVar, 0, "var", "var", false⟩, ' ' :: (m.toList ++ [';'])⟩

/-- The cursor at the parenthesis before a text. -/
def atParen (m : String) : Cursor :=
  ⟨⟨.punctuator .openParen, 0, "(", "(", false⟩, m.toList ++ [')', ';']⟩

lemma next?_start_declaring (m : String) :
    (start (declaringScript m)).next? = some (atVar m, none) := by
  have hstands : (Word.reserved .kwVar).Stands (' ' :: (m.toList ++ [';'])) :=
    Word.IsToken.stands_of_isWord (by decide) rfl ⟨by decide, by decide⟩
  have htext : (declaringScript m).toList =
      (Word.reserved .kwVar).text.toList ++ ' ' :: (m.toList ++ [';']) := by
    rw [declaringScript, String.toList_append, String.toList_append, List.append_assoc]
    rfl
  rw [next?_eq, start, htext]
  exact nextAfter_word hstands false 0

lemma next?_start_assigning (m : String) :
    (start (assigningScript m)).next? = some (atParen m, none) := by
  have hstands : (Word.punctuator .openParen).Stands (m.toList ++ [')', ';']) :=
    Word.stands_punctuator_final rfl _
  have htext : (assigningScript m).toList =
      (Word.punctuator .openParen).text.toList ++ (m.toList ++ [')', ';']) := by
    rw [assigningScript, String.toList_append, String.toList_append, List.append_assoc]
    rfl
  rw [next?_eq, start, htext]
  exact nextAfter_word hstands false 0

end Cursor

namespace Likeness

/-- The text begins alike in both scripts. -/
lemma nextAlike_first (m : String) : NextAlike (Cursor.atVar m) (Cursor.atParen m) := by
  -- A cursor from which the blank after `var` has been passed.
  let c : Cursor := ⟨⟨.unknown, 4, "", "", false⟩, m.toList ++ [';']⟩
  have hvar : (Cursor.atVar m).offset = 3 := by
    change 0 + byteWidth "var".toList = 3
    decide
  have hc : c.offset = 4 := rfl
  have hparen : (Cursor.atParen m).offset = 1 := by
    change 0 + byteWidth "(".toList = 1
    decide
  have hnext : (Cursor.atVar m).next? = c.next? := by
    rw [Cursor.next?_eq, Cursor.next?_eq, hvar, hc]
    exact Cursor.nextAfter_blank false 3 _
  have h : NextAlike c (Cursor.atParen m) := nextAlike rfl rfl (by omega) (by omega)
  cases h with
  | unreadable hc hd => exact .unreadable (hnext.trans hc) hd
  | flawed hc hd h => exact .flawed (hnext.trans hc) hd h
  | inText hc hd h => exact .inText (hnext.trans hc) hd h
  | afterText hc hd h => exact .afterText (hnext.trans hc) hd h
  | past hc hd h h' hseen => exact .past (hnext.trans hc) hd h h' hseen

/-- The next token on the left is met on the right too, unless it runs into the end. -/
lemma NextAlike.of_next {c c' d : Cursor} (h : NextAlike c d) (hnext : c.next? = some (c', none)) :
    AtLeftEnd c' ∨ ∃ d', d.next? = some (d', none) ∧ (InText c' d' ∨ AfterText c' d') := by
  cases h with
  | unreadable hc | flawed hc => cases hc.symm.trans hnext
  | inText hc hd h =>
    cases hc.symm.trans hnext
    exact .inr ⟨_, hd, .inl h⟩
  | afterText hc hd h =>
    cases hc.symm.trans hnext
    exact .inr ⟨_, hd, .inr h⟩
  | past hc _ h =>
    cases hc.symm.trans hnext
    exact .inl h

/-- What is read on the left is read on the right too, unless it runs into the end. -/
lemma Agree.of_ok {α : Type} {a : α} {c : Cursor} {r : Reply α} (h : sharedText.Agree (.ok a c) r)
    (hc : ¬ AtLeftEnd c) (hr : r ≠ .fail .stalled) :
    ∃ d, r = .ok a d ∧ (InText c d ∨ AfterText c d) := by
  cases h with
  | stalledRight => exact absurd rfl hr
  | lost h _ => exact absurd h hc
  | alike _ h => exact ⟨_, rfl, .inl h⟩
  | last _ h => exact ⟨_, rfl, .inr h⟩

end Likeness

namespace Grammar

open Parse Likeness

/-! ### Scripts and declarations with one part -/

lemma statement_of_program {g : Grammar} {c c' : Cursor} {n : Node}
    (h : g.program c = .ok (.program [n]) c') : ∃ first last, c.next? = some (first, none) ∧
      g.statement {} first = .ok n last ∧ last.token.kind = .endOfText := by
  obtain ⟨_, first, hadvance, h⟩ := exists_of_bind_eq_ok h
  obtain ⟨body, last, hbody, h⟩ := exists_of_bind_eq_ok h
  cases h
  have hnext := (Goes.advance.of_ok hadvance).2
  -- After two statements there are at least two.
  have hmany : ∀ bound found, 2 ≤ found.length → Yields (repeatWithin (fun found => do
      if ← isAt .endOfText then return Turn.done found.reverse
      return Turn.again ((← g.statement {}) :: found)) bound found) fun body : List Node =>
        2 ≤ body.length := by
    intro bound found hfound
    refine Yields.repeatWithin (I := fun found => 2 ≤ found.length) (fun found h => ?_) bound hfound
    refine .after fun _ => .ite (.pure ?_) (.after fun _ => .pure ?_)
    · change 2 ≤ found.reverse.length
      rwa [List.length_reverse]
    · change 2 ≤ (_ :: found).length
      rw [List.length_cons]
      omega
  obtain ⟨t, next, hturn, h⟩ := exists_of_bind_eq_ok hbody
  dsimp only at hturn
  rw [isAt_bind] at hturn
  split at hturn
  · cases hturn
    cases h
  obtain ⟨x, next, hstatement, hturn⟩ := exists_of_bind_eq_ok hturn
  cases hturn
  obtain ⟨t, next', hturn, h⟩ := exists_of_bind_eq_ok h
  dsimp only at hturn
  rw [isAt_bind] at hturn
  split at hturn
  · next hend =>
    cases hturn
    cases h
    exact ⟨first, _, hnext, hstatement, beq_iff_eq.1 hend⟩
  · obtain ⟨y, next', _, hturn⟩ := exists_of_bind_eq_ok hturn
    cases hturn
    have hlength := hmany _ _ (by simp) _ _ _ h
    simp at hlength

/-- A declaration of one target with a value. -/
lemma declarator_of_declaration {g : Grammar} {ctx : Context} {c c₃ : Cursor} {kind : VariableKind}
    {p e : Node} (h : declaration g ctx c = .ok (.declaration kind [.declarator p (some e)]) c₃) :
    ∃ c₀ c₁ c₂, c.next? = some (c₀, none) ∧ g.target ctx c₀ = .ok p c₁ ∧
      c₁.token.kind = .punctuator .assign ∧ c₁.next? = some (c₂, none) ∧
      g.assignment ctx c₂ = .ok e c₃ := by
  unfold declaration at h
  rw [bind_of_ok (p := Parse.kind) rfl] at h
  cases hkind : variableKind? c.token.kind with
  | none =>
    rw [hkind] at h
    exact (Yields.unexpected (Q := fun _ => False) _ _ _ h).elim
  | some variableKind =>
  rw [hkind] at h
  obtain ⟨_, c₀, hadvance, h⟩ := exists_of_bind_eq_ok h
  obtain ⟨declarators, _, hdeclarators, h⟩ := exists_of_bind_eq_ok h
  cases h
  have hnext := (Goes.advance.of_ok hadvance).2
  have hmany : ∀ bound found, 1 ≤ found.length → Yields (repeatWithin (fun found => do
      let found := (← declarator g ctx) :: found
      if ← accept .comma then return Turn.again found else return Turn.done found.reverse)
        bound found) fun declarators : List Node => 2 ≤ declarators.length := by
    intro bound found hfound
    refine Yields.repeatWithin (I := fun found => 1 ≤ found.length) (fun found h => ?_) bound hfound
    refine .after fun x => .after fun _ => .ite (.pure ?_) (.pure ?_)
    · change 1 ≤ (x :: found).length
      rw [List.length_cons]
      omega
    · change 2 ≤ (x :: found).reverse.length
      rw [List.length_reverse, List.length_cons]
      omega
  obtain ⟨t, next, hturn, h⟩ := exists_of_bind_eq_ok hdeclarators
  obtain ⟨d, next, hdeclarator, hturn⟩ := exists_of_bind_eq_ok hturn
  by_cases hcomma : next.token.kind = .punctuator .comma
  · rw [accept_bind_of_at hcomma] at hturn
    obtain ⟨_, next', _, hturn⟩ := exists_of_bind_eq_ok hturn
    cases hturn
    have hlength := hmany _ _ (by simp) _ _ _ h
    simp at hlength
  rw [accept_bind_of_not hcomma] at hturn
  cases hturn
  cases h
  obtain ⟨id, c₁, htarget, hvalue⟩ := exists_of_bind_eq_ok hdeclarator
  by_cases hassign : c₁.token.kind = .punctuator .assign
  swap
  · rw [accept_bind_of_not hassign] at hvalue
    cases hvalue
  rw [accept_bind_of_at hassign] at hvalue
  obtain ⟨_, c₂, hadvance', hvalue⟩ := exists_of_bind_eq_ok hvalue
  obtain ⟨value, c₃, hassignment, hvalue⟩ := exists_of_bind_eq_ok hvalue
  cases hvalue
  have hnext' := (Goes.advance.of_ok hadvance').2
  exact ⟨c₀, c₁, c₂, hnext, htarget, hassign, hnext', hassignment⟩

/-- A target that is a pattern begins with a bracket. -/
lemma bracket_of_target {n : Nat} {ctx : Context} {c c' : Cursor} {p : Node} (hp : p.isPattern = true)
    (h : (level n).target ctx c = .ok p c') :
    c.token.kind = .punctuator .openBracket ∨ c.token.kind = .punctuator .openBrace := by
  cases n with
  | zero => cases h
  | succ n =>
    by_contra hkind
    rw [not_or] at hkind
    change bindingTarget (level n) ctx c = _ at h
    unfold bindingTarget at h
    rw [kind_bind] at h
    have hname : namedTarget c = .ok p c' := by
      cases hk : c.token.kind with
      | punctuator q =>
        rw [hk] at h
        cases q
        case openBracket => exact absurd hk hkind.1
        case openBrace => exact absurd hk hkind.2
        all_goals exact h
      | _ =>
        rw [hk] at h
        exact h
    obtain ⟨_, _, _, hname⟩ := exists_of_bind_eq_ok hname
    cases hname
    cases hp

/-! ### What is read in the declaration -/

/-- The semicolon after the text is a token, and the declaration is read up to it. -/
def SemicolonStands (m : String) : Prop :=
  ∃ k declared c, declaration (level k) {} (Cursor.atVar m) = .ok declared c ∧
    c.token.kind = .punctuator .semicolon ∧ c.rest = []

/-- Levels that read the declaration at all read it alike. -/
lemma declaration_unique {m : String} {k k' : Nat} {n n' : Node} {c c' : Cursor}
    (h : declaration (level k) {} (Cursor.atVar m) = .ok n c)
    (h' : declaration (level k') {} (Cursor.atVar m) = .ok n' c') :
    (Reply.ok n c : Reply Node) = .ok n' c' := by
  have hc : (Cursor.atVar m).AtToken := Cursor.atToken_of_next? (Cursor.next?_start_declaring m)
  have hcomes := comes_of_levels (p := fun k => declaration (level k) {})
    (fun i j hle => corresponds_declaration (extends_level i j hle) {})
    (fun i => (advances_declaration (advancing_level i) {} _ hc).ne_stalled) hc h k'
  rcases hcomes with hok | ⟨_, error, hrefused⟩
  · exact hok.symm.trans h'
  · cases hrefused.symm.trans h'

/-- A script that is one declaration. -/
lemma declaration_of_program {m : String} {k : Nat} {n : Node} {c' : Cursor}
    (h : (level (k + 1)).program (.start (declaringScript m)) = .ok (.program [n]) c') :
    ∃ c last, declaration (level k) {} (Cursor.atVar m) = .ok n c ∧
      endStatement c = .ok () last ∧ last.token.kind = .endOfText := by
  obtain ⟨first, last, hnext, hstatement, hend⟩ := statement_of_program h
  cases (Cursor.next?_start_declaring m).symm.trans hnext
  have hvariable : variableStatement (level k) {} (Cursor.atVar m) = .ok n last :=
    hstatement
  obtain ⟨declared, c, hdeclaration, hvariable⟩ := exists_of_bind_eq_ok hvariable
  obtain ⟨_, _, hends, hvariable⟩ := exists_of_bind_eq_ok hvariable
  cases hvariable
  exact ⟨c, _, hdeclaration, hends, hend⟩

/-- The statement ends at a semicolon that it passes, or where it stands. -/
lemma endStatement_cases {c last : Cursor} (h : endStatement c = .ok () last) :
    (c.token.kind = .punctuator .semicolon ∧ c.next? = some (last, none)) ∨ last = c := by
  by_cases hkind : c.token.kind = .punctuator .semicolon
  · unfold endStatement at h
    rw [accept_bind_of_at hkind] at h
    obtain ⟨_, next, hadvance, h⟩ := exists_of_bind_eq_ok h
    cases h
    exact .inl ⟨hkind, (Goes.advance.of_ok hadvance).2⟩
  · right
    unfold endStatement at h
    rw [accept_bind_of_not hkind, if_neg (by simp)] at h
    obtain ⟨canEnd, next, hcan, h⟩ := exists_of_bind_eq_ok h
    cases hcan
    split at h
    · cases h
      rfl
    · cases h

/-- Where a reading of the whole declaring script can be. -/
inductive Standing (m : String) (c : Cursor) : Prop
  | first (h : c = Cursor.atVar m)
  | inText {d : Cursor} (h : InText c d)
  | after (hkind : c.token.kind = .punctuator .semicolon ∨ c.token.kind = .endOfText) (hrest : c.rest = [])

lemma Standing.of_reread {m : String} {c c' : Cursor} (h : Standing m c)
    (hreread : c.rereadSlash = (c', none) ∨ c.rereadBrace = (c', none)) : Standing m c' := by
  have hsame : c.rereadSlash = (c, none) ∧ c.rereadBrace = (c, none) → c' = c := by
    rintro ⟨hslash, hbrace⟩
    rcases hreread with heq | heq
    · exact (Prod.ext_iff.1 (heq.symm.trans hslash)).1
    · exact (Prod.ext_iff.1 (heq.symm.trans hbrace)).1
  have halike : ∀ {reached reached' : Cursor × Option Flaw}, sharedText.RereadAlike reached reached' →
      reached = (c', none) → Standing m c' := by
    rintro reached reached' (⟨hflaw, _⟩ | ⟨_, _, heq, _, hin⟩) hreached
    · rw [hreached] at hflaw
      exact absurd rfl hflaw
    · cases heq.symm.trans hreached
      exact .inText hin
  cases h with
  | first h =>
    subst h
    rw [hsame ⟨rfl, rfl⟩]
    exact .first rfl
  | inText h =>
    rcases hreread with hreread | hreread
    · exact halike h.rereadSlash hreread
    · exact halike h.rereadBrace hreread
  | after hkind hrest =>
    rw [hsame (rereads_of_ending (.inl (hkind.imp_right .inr)))]
    exact .after hkind hrest

section

variable {m : String} (hplain : IsPlain (declaringScript m))

include hplain

/-- The next token in a plain text is one of the text or the semicolon after it. -/
lemma nextAlike_of_plain {c c' d : Cursor} {xs : List Char} (halike : NextAlike c d)
    (hstep : c.StepIn (declaringScript m) c') (hrest : c.rest = xs ++ [';']) :
    (∃ d', InText c' d') ∨ (c'.token.kind = .punctuator .semicolon ∧ c'.rest = []) := by
  rcases halike.of_next hstep.next with h | ⟨d', _, h | h⟩
  · have hnot := hplain.not_passed hstep hrest h.rest
    rcases h.kind with hkind | hkind
    · exact absurd hkind hnot.1
    · rw [hkind] at hnot
      cases hnot.2
  · exact .inl ⟨d', h⟩
  · exact .inr ⟨h.kind_left, h.rest_left⟩

lemma Standing.of_next {c c' last : Cursor} (h : Standing m c)
    (hreached : ReflTransGen Cursor.Moves (Cursor.atVar m) c) (hnext : c.next? = some (c', none))
    (hlast : ReflTransGen Cursor.Moves c' last) (hend : last.token.kind = .endOfText) :
    (∃ d, InText c' d) ∨ c'.token.kind = .punctuator .semicolon ∧ c'.rest = [] ∨
      c.rest = [] ∧ c'.token.kind = .endOfText ∧ c'.rest = [] := by
  have hstart : ReflTransGen Cursor.Moves (Cursor.start (declaringScript m)) c :=
    .head (.next (Cursor.next?_start_declaring m)) hreached
  have hstep : c.StepIn (declaringScript m) c' := ⟨hstart, hnext, last, hlast, hend⟩
  cases h with
  | first h =>
    subst h
    have hrest : (Cursor.atVar m).rest = (' ' :: m.toList) ++ [';'] := rfl
    exact (nextAlike_of_plain hplain (nextAlike_first m) hstep hrest).imp_right .inl
  | inText h =>
    obtain ⟨xs, hrest, _⟩ := h.rest
    exact (nextAlike_of_plain hplain h.nextAlike hstep hrest).imp_right .inl
  | after _ hrest =>
    obtain ⟨c'', hnext', hkind, hrest'⟩ := next?_of_rest_nil hrest
    cases hnext'.symm.trans hnext
    exact .inr (.inr ⟨hrest, hkind, hrest'⟩)

lemma standing_of_moves {c last : Cursor} (hmoves : ReflTransGen Cursor.Moves (Cursor.atVar m) c)
    (hlast : ReflTransGen Cursor.Moves c last) (hend : last.token.kind = .endOfText) :
    Standing m c := by
  induction hmoves with
  | refl => exact .first rfl
  | tail hreached hmove ih =>
    have hstanding := ih (.head hmove hlast)
    cases hmove with
    | next hnext =>
      rcases hstanding.of_next hplain hreached hnext hlast hend with
        ⟨d, h⟩ | ⟨hkind, hrest⟩ | ⟨_, hkind, hrest⟩
      · exact .inText h
      · exact .after (.inl hkind) hrest
      · exact .after (.inr hkind) hrest
    | slash hreread => exact hstanding.of_reread (.inl hreread)
    | brace hreread => exact hstanding.of_reread (.inr hreread)

/-- In a plain text the semicolon after a declaration with a value is a token. -/
lemma semicolonStands_of_plain {k : Nat} {p e : Node} {c' : Cursor}
    (h : (level (k + 1)).program (.start (declaringScript m)) =
      .ok (.program [.declaration .functionScoped [.declarator p (some e)]]) c') :
    SemicolonStands m := by
  obtain ⟨c₃, last, hdeclaration, hends, hend⟩ := declaration_of_program h
  obtain ⟨c₀, c₁, c₂, hnext₀, htarget, hassign, hnext₂, hassignment⟩ :=
    declarator_of_declaration hdeclaration
  have hvar : (Cursor.atVar m).AtToken := Cursor.atToken_of_next? (Cursor.next?_start_declaring m)
  have hmoves₀ : ReflTransGen Cursor.Moves (Cursor.atVar m) c₀ := .single (.next hnext₀)
  have hmoves₁ : ReflTransGen Cursor.Moves (Cursor.atVar m) c₁ :=
    hmoves₀.trans (((advancing_level _).target {} c₀ (hvar.follows hmoves₀).atToken).of_ok htarget).1
  have hmoves₂ : ReflTransGen Cursor.Moves (Cursor.atVar m) c₂ := hmoves₁.tail (.next hnext₂)
  -- The value ends with a token before which the semicolon has not been passed.
  have hclosed : c₂.Closed c₃ :=
    (((advancing_level _).closesAssignment {} c₂ (hvar.follows hmoves₂).atToken).of_ok hassignment).2
  obtain ⟨before, hmoves, hnext, hcloses⟩ := hclosed.of_moves hmoves₂
  have hlast : ReflTransGen Cursor.Moves c₃ last := by
    rcases endStatement_cases hends with ⟨_, hnext'⟩ | rfl
    · exact .single (.next hnext')
    · exact .refl
  have hbefore := standing_of_moves hplain hmoves (.head (.next hnext) hlast) hend
  refine ⟨k, _, c₃, hdeclaration, ?_⟩
  rcases hbefore.of_next hplain hmoves hnext hlast hend with ⟨d, hin⟩ | hafter | ⟨hrest, _⟩
  · -- A semicolon in the text would have to be followed by the end.
    exfalso
    rcases endStatement_cases hends with ⟨_, hnext'⟩ | rfl
    · rcases (Standing.inText hin).of_next hplain (hmoves.tail (.next hnext)) hnext' .refl hend with
        ⟨_, hin'⟩ | ⟨hkind, _⟩ | ⟨hrest, _⟩
      · exact hin'.ne_end hend
      · cases hkind.symm.trans hend
      · obtain ⟨xs, hxs, _⟩ := hin.rest
        simp [hxs] at hrest
    · exact hin.ne_end hend
  · exact hafter
  · exfalso
    cases hbefore with
    | first h =>
      rw [h] at hrest
      cases hrest
    | inText h =>
      obtain ⟨xs, hxs, _⟩ := h.rest
      simp [hxs] at hrest
    | after hkind _ => exact hkind.elim hcloses.1 hcloses.2

end

/-! ### What is read in parentheses -/

/-- The pattern, the `=` and the value as they are read in parentheses with the levels that the
parts of the declaration have. -/
structure ReadAlike (m : String) (k : Nat) (p e : Node) (d₀ d₁ d₂ d₃ : Cursor) : Prop where
  next₀ : (Cursor.atParen m).next? = some (d₀, none)
  bracket : d₀.token.kind = .punctuator .openBracket ∨ d₀.token.kind = .punctuator .openBrace
  target : (level k).target {} d₀ = .ok p d₁
  assign : d₁.token.kind = .punctuator .assign
  next₂ : d₁.next? = some (d₂, none)
  value : (level k).assignment {} d₂ = .ok e d₃
  paren : d₃.token.kind = .punctuator .closeParen
  rest : d₃.rest = [';']

lemma exists_readAlike {m : String} {k : Nat} {p e : Node} {c' : Cursor} (hp : p.isPattern = true)
    (h : (level (k + 1)).program (.start (declaringScript m)) =
      .ok (.program [.declaration .functionScoped [.declarator p (some e)]]) c')
    (hstands : SemicolonStands m) : ∃ d₀ d₁ d₂ d₃, ReadAlike m k p e d₀ d₁ d₂ d₃ := by
  obtain ⟨c₃, _, hdeclaration, _⟩ := declaration_of_program h
  obtain ⟨k', _, _, hdeclaration', hkind₃, hrest₃⟩ := hstands
  cases declaration_unique hdeclaration hdeclaration'
  obtain ⟨c₀, c₁, c₂, hnext₀, htarget, hassign, hnext₂, hassignment⟩ :=
    declarator_of_declaration hdeclaration
  have hbracket := bracket_of_target hp htarget
  have hlevel := corresponding_level k
  have hadvancing := advancing_level k
  have hlost₃ : ¬ AtLeftEnd c₃ := by
    rintro ⟨hkind | hkind, _⟩ <;> cases hkind.symm.trans hkind₃
  -- The text begins with the bracket in both scripts.
  obtain ⟨d₀, hnext₀', halike₀⟩ : ∃ d₀, (Cursor.atParen m).next? = some (d₀, none) ∧ InText c₀ d₀ := by
    rcases (nextAlike_first m).of_next hnext₀ with ⟨hkind | hkind, _⟩ | ⟨d₀, hnext₀', h | h⟩
    · rw [hkind] at hbracket
      rcases hbracket with h | h <;> cases h
    · rw [hkind] at hbracket
      rcases hbracket with h | h <;> cases h
    · exact ⟨d₀, hnext₀', h⟩
    · rw [h.kind_left] at hbracket
      rcases hbracket with h | h <;> cases h
  -- The pattern ends before the `=`.
  obtain ⟨d₁, htarget', halike₁⟩ : ∃ d₁, (level k).target {} d₀ = .ok p d₁ ∧
      InText c₁ d₁ := by
    have hagree := (hlevel.target {}).agree halike₀
    rw [htarget] at hagree
    have hlost₁ : ¬ AtLeftEnd c₁ := by
      rintro ⟨hkind | hkind, _⟩ <;> cases hkind.symm.trans hassign
    obtain ⟨d₁, htarget', h | h⟩ :=
      hagree.of_ok hlost₁ (hadvancing.target {} d₀ halike₀.atToken_right).ne_stalled
    · exact ⟨d₁, htarget', h⟩
    · cases h.kind_left.symm.trans hassign
  -- The value begins in the text and ends with it.
  obtain ⟨d₂, hnext₂', halike₂⟩ : ∃ d₂, d₁.next? = some (d₂, none) ∧ InText c₂ d₂ := by
    rcases halike₁.nextAlike.of_next hnext₂ with h | ⟨d₂, hnext₂', h | h⟩
    · have hleft := (hlevel.assignment {}).left h
      rw [hassignment] at hleft
      exact absurd hleft hlost₃
    · exact ⟨d₂, hnext₂', h⟩
    · have hagree := (hlevel.assignment {}).last h
      obtain ⟨error, hrefused⟩ :=
        assignment_refused {} k (c := d₂) (by rw [h.kind_right]; rfl)
      rw [hassignment, hrefused] at hagree
      obtain ⟨_, hok, _⟩ := hagree.of_ok hlost₃ (by rintro ⟨⟩)
      cases hok
  have hagree := (hlevel.assignment {}).agree halike₂
  rw [hassignment] at hagree
  obtain ⟨d₃, hvalue, h | h⟩ :=
    hagree.of_ok hlost₃ (hadvancing.assignment {} d₂ halike₂.atToken_right).ne_stalled
  · obtain ⟨xs, hxs, _⟩ := h.rest
    simp [hxs] at hrest₃
  · have hkind₀ := halike₀.token.kind_eq
    have hkind₁ := halike₁.token.kind_eq
    exact ⟨d₀, d₁, d₂, d₃, hnext₀', by rwa [hkind₀], htarget', hkind₁.trans hassign, hnext₂', hvalue,
      h.kind_right, h.rest_right⟩

end Grammar

end BindingProxy
