import BindingProxy.Proofs.Grammar.DeclaredPattern
import BindingProxy.Proofs.Grammar.ErrorPlaces
import BindingProxy.Proofs.Grammar.WellFormed

/-!
# Assigned patterns

What a `var` declares is read again in parentheses, as an assignment.  On the way there the
parentheses are first tried as parameters, then the pattern is read as a literal, five levels below
the script.  Each step comes to what the declaration has come to or is refused, and with enough levels
none is refused.
-/

namespace BindingProxy

open Relation (ReflTransGen)

namespace Grammar

open Parse Likeness

variable {c c' : Cursor}

lemma comes_assignment (hc : c.AtToken) {n : Nat} {ctx : Context} {a : Node}
    (h : (level n).assignment ctx c = .ok a c') (m : Nat) :
    Comes (n ≤ m) ((level m).assignment ctx) c a c' :=
  comes_of_levels (p := fun n => (level n).assignment ctx)
    (fun n m hle => (extends_level n m hle).assignment ctx)
    (fun n => ((advancing_level n).assignment ctx c hc).ne_stalled) hc h m

lemma comes_parameters (hc : c.AtToken) {n : Nat} {ctx : Context} {params : List Node}
    (h : parameters (level n) ctx c = .ok params c') (m : Nat) :
    Comes (n ≤ m) (parameters (level m) ctx) c params c' :=
  comes_of_levels (p := fun n => parameters (level n) ctx)
    (fun n m hle => corresponds_parameters (extends_level n m hle) ctx)
    (fun n => (advances_parameters (advancing_level n) ctx c hc).ne_stalled) hc h m

/-- An expression that no comma follows. -/
lemma expression_of_ok {g : Grammar} {ctx : Context} {x : Node} (h : g.assignment ctx c = .ok x c')
    (hcomma : c'.token.kind ≠ .punctuator .comma) : expression g ctx c = .ok x c' := by
  unfold expression
  rw [bind_of_ok h, isAt_bind, beq_eq_false_iff_ne.2 hcomma]
  rfl

lemma Comes.expression {strict : Prop} {g : Grammar} {ctx : Context} {x : Node}
    (h : Comes strict (g.assignment ctx) c x c') (hcomma : c'.token.kind ≠ .punctuator .comma) :
    Comes strict (expression g ctx) c x c' := by
  rcases h with h | ⟨hs, e, he⟩
  · exact .inl (expression_of_ok h hcomma)
  · exact .inr ⟨hs, e, bind_of_fail he⟩

lemma atToken_atParen (m : String) : (Cursor.atParen m).AtToken :=
  Cursor.atToken_of_next? (Cursor.next?_start_assigning m)

namespace ReadAlike

variable {m : String} {k : Nat} {p e : Node} {d₀ d₁ d₂ d₃ d₄ d₅ : Cursor} (h : ReadAlike m k p e d₀ d₁ d₂ d₃)

include h

lemma ne_punctuator {q : Punctuator} (hbracket : q ≠ .openBracket) (hbrace : q ≠ .openBrace) :
    d₀.token.kind ≠ .punctuator q := by
  intro heq
  rcases h.bracket with hkind | hkind
  · exact hbracket (TokenKind.punctuator.inj (heq.symm.trans hkind))
  · exact hbrace (TokenKind.punctuator.inj (heq.symm.trans hkind))

lemma opens : expect .openParen (Cursor.atParen m) = .ok () d₀ :=
  (expect_of_at rfl).trans (advance_of_next? h.next₀)

lemma closes (hnext : d₃.next? = some (d₄, none)) : expect .closeParen d₃ = .ok () d₄ :=
  (expect_of_at h.paren).trans (advance_of_next? hnext)

/-- As parameters, what stands in the parentheses is one target with a default. -/
lemma parameters (hnext : d₃.next? = some (d₄, none)) :
    parameters (level k) {} (Cursor.atParen m) = .ok [.defaulted p e] d₄ := by
  have helement : bindingElement (level k) {} d₀ = .ok (.defaulted p e) d₃ := by
    unfold bindingElement withDefault
    rw [bind_of_ok h.target, accept_bind_of_at h.assign, bind_of_ok (advance_of_next? h.next₂)]
    exact bind_of_ok h.value
  unfold Grammar.parameters
  rw [bind_of_ok h.opens]
  change parametersWithin (level k) {} (tokenBound d₀) [] d₀ = _
  rw [tokenBound, parametersWithin_cons _ _ _ _ (h.ne_punctuator (by decide) (by decide))
    (h.ne_punctuator (by decide) (by decide)), bind_of_ok helement,
    accept_bind_of_not (by rw [h.paren]; decide), if_neg (by simp),
    bind_of_ok (h.closes hnext)]
  rfl

/-- No level takes the parentheses for those of an arrow function. -/
lemma isArrowAhead (hnext : d₃.next? = some (d₄, none))
    (hkind : d₄.token.kind = .punctuator .semicolon) (n : Nat) :
    isArrowAhead (level n) {} (Cursor.atParen m) = .ok false (Cursor.atParen m) := by
  rw [isArrowAhead_of_openParen rfl, lookAhead]
  rcases comes_parameters (atToken_atParen m) (h.parameters hnext) n with hok | ⟨_, error, hrefused⟩
  · rw [bind_of_ok hok, token_bind, hkind]
    rfl
  · rw [bind_of_fail hrefused]

/-- The inside of the parentheses as an assignment. -/
lemma comes_inner (n : Nat) :
    Comes (2 * k ≤ n) ((level (n + 2)).assignment {}) d₀ (.assignment .assign p e) d₃ := by
  have hd₀ : d₀.AtToken := Cursor.atToken_of_next? h.next₀
  have hd₂ : d₂.AtToken := Cursor.atToken_of_next? h.next₂
  obtain ⟨i, rfl⟩ : ∃ i, k = i + 1 := by
    cases k with
    | zero => cases h.target
    | succ i => exact ⟨i, rfl⟩
  have hm : Mirroring (2 * (i + 1) ≤ n) {} (level i) (level n) (level i) :=
    mirroring_level rfl (Nat.min_le_left _ _) (fun j _ => extends_level j) fun hs =>
      ⟨hs, rfl, rfl⟩
  have htarget : bindingTarget (level i) {} d₀ = .ok p d₁ := h.target
  have hmirror := mirror_bracket hm hd₀ h.bracket
  rw [htarget] at hmirror
  have hname : d₀.token.kind.isName = false := by
    rcases h.bracket with hkind | hkind <;> rw [hkind] <;> rfl
  have hnot : ∀ g, assignmentExpression g {} d₀ = conditionalOrAssignment g {} d₀ := fun g =>
    assignmentExpression_of_not hname (h.ne_punctuator (by decide) (by decide))
  refine Comes.congr (p := conditionalExpression (level (n + 1)) {} >>= assignmentRest (level (n + 1)) {})
    ?_ (hnot _)
  rcases hmirror (.inr h.assign) with hshort | ⟨_, x, hconditional, _, hx⟩
  · rcases hshort with hstalled | ⟨hs, ⟨error, he⟩ | ⟨_, _, _, hno⟩⟩
    · exact absurd hstalled
        (closes_conditionalExpression (advancing_level (n + 1)) {} d₀ hd₀).ne_stalled
    · exact .inr ⟨hs, error, bind_of_fail he⟩
    · exact hno.elim
  · refine Comes.bind (.of_ok hconditional) ?_
    refine Comes.congr ?_ (assignmentRest_of_ok h.assign (hx rfl).1)
    refine Comes.bind (.of_ok (advance_of_next? h.next₂)) (Comes.bind ?_ (.pure _ _))
    exact (comes_assignment hd₂ h.value (n + 1)).mono fun hs => by omega

/-- The parentheses as a whole. -/
lemma comes_parenthesized (hnext : d₃.next? = some (d₄, none)) (n : Nat) :
    Comes (2 * k ≤ n) (parenthesized (level (n + 2)) {}) (Cursor.atParen m)
      (.assignment .assign p e) d₄ := by
  have hinner : Comes (2 * k ≤ n) (expression (level (n + 2)) {}) d₀
      (.assignment .assign p e) d₃ :=
    Comes.expression (h.comes_inner n) (by rw [h.paren]; decide)
  exact Comes.bind (.of_ok h.opens)
    (Comes.bind hinner (Comes.bind (.of_ok (h.closes hnext)) (.pure _ _)))

lemma comes_outer (hnext : d₃.next? = some (d₄, none))
    (hkind : d₄.token.kind = .punctuator .semicolon) (n : Nat) :
    Comes (2 * k ≤ n) ((level (n + 4)).assignment {}) (Cursor.atParen m)
      (.assignment .assign p e) d₄ := by
  have hnone : assignmentExpression (level (n + 3)) {} (Cursor.atParen m) =
      conditionalOrAssignment (level (n + 3)) {} (Cursor.atParen m) :=
    assignmentExpression_of_none rfl rfl (h.isArrowAhead hnext hkind (n + 3))
  refine Comes.congr ?_ hnone
  have hcontinues : Continues (primaryWith (level (n + 2)) {} (leftHandSideWithin (level (n + 2)) {}
      (' ' :: (Cursor.atParen m).rest))) (conditionalExpression (level (n + 2)).above {})
        (Cursor.atParen m) :=
    continues_conditionalExpression ⟨rfl, rfl, by rintro ⟨⟩⟩ (by rintro ⟨⟨⟩, _⟩)
  have hprimary : ∀ heritage, primaryWith (level (n + 2)) {} heritage (Cursor.atParen m) =
    parenthesized (level (n + 2)) {} (Cursor.atParen m) := fun _ => rfl
  rw [Continues, hprimary] at hcontinues
  have hconditional : Comes (2 * k ≤ n) (conditionalExpression (level (n + 3)) {})
      (Cursor.atParen m) (.assignment .assign p e) d₄ := by
    rcases h.comes_parenthesized hnext n with hok | ⟨hs, error, he⟩
    · rw [hok] at hcontinues
      exact .inl (hcontinues (.inr hkind))
    · rw [he] at hcontinues
      exact .inr ⟨hs, error, hcontinues⟩
  have hrest : assignmentRest (level (n + 3)) {} (.assignment .assign p e) d₄ =
      .ok (.assignment .assign p e) d₄ := by
    rw [assignmentRest, kind_bind, hkind]
    rfl
  exact Comes.bind hconditional (.of_ok hrest)

/-- The script has one statement, which is the assignment. -/
lemma comes_program (n : Nat) : ∃ c, Comes (2 * k ≤ n) (level (n + 5)).program
    (Cursor.start (assigningScript m)) (.program [.expressionStatement (.assignment .assign p e)]) c := by
  obtain ⟨d₄, hnext₄, hkind₄, hrest₄⟩ := next?_of_rest_semicolon h.rest
  obtain ⟨d₅, hnext₅, hkind₅, _⟩ := next?_of_rest_nil hrest₄
  have hends : endStatement d₄ = .ok () d₅ := by
    rw [endStatement, accept_bind_of_at hkind₄, bind_of_ok (advance_of_next? hnext₅)]
    rfl
  have hexpression : Comes (2 * k ≤ n) (expression (level (n + 4)) {}) (Cursor.atParen m)
      (.assignment .assign p e) d₄ :=
    Comes.expression (h.comes_outer hnext₄ hkind₄ n) (by rw [hkind₄]; decide)
  have hstatement : Comes (2 * k ≤ n) (expressionStatement (level (n + 4)) {})
      (Cursor.atParen m) (.expressionStatement (.assignment .assign p e)) d₅ :=
    Comes.bind hexpression (Comes.bind (.of_ok hends) (.pure _ _))
  replace hstatement : Comes (2 * k ≤ n) ((level (n + 5)).statement {})
      (Cursor.atParen m) (.expressionStatement (.assignment .assign p e)) d₅ := hstatement.congr rfl
  -- After the statement the text is at its end.
  have hbody : Comes (2 * k ≤ n) (repeatFrom [] fun found => do
      if ← isAt .endOfText then return .done found.reverse
      return .again ((← (level (n + 5)).statement {}) :: found)) (Cursor.atParen m)
        [.expressionStatement (.assignment .assign p e)] d₅ := by
    refine Comes.bind (a := Turn.again [.expressionStatement (.assignment .assign p e)])
      (Comes.bind (.of_ok (a := false) rfl) (Comes.bind hstatement (.pure _ _))) ?_
    refine Comes.bind (a := Turn.done [.expressionStatement (.assignment .assign p e)]) ?_ (.pure _ d₅)
    refine Comes.bind (.of_ok (a := true) ?_) (.pure _ d₅)
    rw [isAt, hkind₅]
    rfl
  exact ⟨d₅, Comes.bind (.of_ok (advance_of_next? (Cursor.next?_start_assigning m)))
    (Comes.bind hbody (.pure _ _))⟩

end ReadAlike

end Grammar

open Grammar Parse

/-- Whether a script is one declaration of one pattern with a value. -/
def Node.declaresPattern : Node → Bool
  | program [declaration .functionScoped [declarator p (some _)]] => p.isPattern
  | _ => false

lemma Node.exists_of_declaresPattern {n : Node} (h : n.declaresPattern = true) :
    ∃ p e, p.isPattern = true ∧
      n = program [declaration .functionScoped [declarator p (some e)]] := by
  unfold declaresPattern at h
  split at h
  · exact ⟨_, _, h, rfl⟩
  · cases h

/-- If what a `var` declares is a pattern with a value, then the same text in parentheses is the
assignment of that value to that pattern.  It takes more levels, so that it can be refused, but with
twice the levels of the declaration, and three more, it never is.  The semicolon after the text must
be a token, which it is unless a comment or an escape takes it in. -/
theorem assignment_of_declaration {m : String} {p e : Node} (hp : p.isPattern = true)
    (h : parse (declaringScript m) =
      .ok (.program [.declaration .functionScoped [.declarator p (some e)]]))
    (hplain : IsPlain (declaringScript m) ∨ SemicolonStands m) :
    (parse (assigningScript m) = .ok (.program [.expressionStatement (.assignment .assign p e)]) ∨
      ∃ error, parse (assigningScript m) = .error (.refused error)) ∧
    ∀ k j, (∃ c, (level k).program (.start (declaringScript m)) =
        .ok (.program [.declaration .functionScoped [.declarator p (some e)]]) c) →
      2 * k + 3 ≤ j → ∃ c, (level j).program (.start (assigningScript m)) =
        .ok (.program [.expressionStatement (.assignment .assign p e)]) c := by
  obtain ⟨last, hlast⟩ : ∃ c, (level maxNesting).program (.start (declaringScript m)) =
      .ok (.program [.declaration .functionScoped [.declarator p (some e)]]) c := by
    unfold parse at h
    split at h
    · next heq => exact ⟨_, Except.ok.inj h ▸ heq⟩
    · cases h
  have hstands : SemicolonStands m :=
    hplain.elim (fun hplain => semicolonStands_of_plain hplain (k := maxNesting - 1) hlast) id
  have hcomes : ∀ k j, (∃ c, (level (k + 1)).program (.start (declaringScript m)) =
        .ok (.program [.declaration .functionScoped [.declarator p (some e)]]) c) →
      ∃ c, Comes (2 * k ≤ j) (level (j + 5)).program (.start (assigningScript m))
        (.program [.expressionStatement (.assignment .assign p e)]) c := by
    rintro k j ⟨c, hc⟩
    obtain ⟨d₀, d₁, d₂, d₃, hread⟩ := exists_readAlike hp hc hstands
    exact hread.comes_program j
  constructor
  · obtain ⟨c, hok | ⟨_, error, hrefused⟩⟩ := hcomes (maxNesting - 1) (maxNesting - 5) ⟨last, hlast⟩
    · left
      unfold parse
      rw [show (level maxNesting).program _ = _ from hok]
    · right
      refine ⟨error, ?_⟩
      unfold parse
      rw [show (level maxNesting).program _ = _ from hrefused]
  · rintro (_ | k) j ⟨c, hc⟩ hle
    · obtain ⟨_, _, _, hstatement, _⟩ := statement_of_program hc
      cases hstatement
    · obtain ⟨j, rfl⟩ : ∃ i, j = i + 5 := ⟨j - 5, by omega⟩
      obtain ⟨c', hok | ⟨hnot, _⟩⟩ := hcomes k j ⟨c, hc⟩
      · exact ⟨c', hok⟩
      · exact absurd (by omega) hnot

lemma toList_declaringScript (chars : List Char) :
    (declaringScript (.ofList chars)).toList = "var ".toList ++ chars ++ ";".toList := by
  simp only [declaringScript, String.toList_append, String.toList_ofList]

lemma toList_assigningScript (chars : List Char) :
    (assigningScript (.ofList chars)).toList = "(".toList ++ chars ++ ");".toList := by
  simp only [assigningScript, String.toList_append, String.toList_ofList]

/-- In `{a, b: [c = 1, , ...d], [f(g)]: h = i => j, ...e} = k` all parts of patterns occur. -/
theorem assignment_of_declaration_nested :
    ∃ p e, p.isPattern = true ∧
      parse (declaringScript "\x7ba, b: [c = 1, , ...d], [f(g)]: h = i => j, ...e\x7d = k") =
        .ok (.program [.declaration .functionScoped [.declarator p (some e)]]) ∧
      parse (assigningScript "\x7ba, b: [c = 1, , ...d], [f(g)]: h = i => j, ...e\x7d = k") =
        .ok (.program [.expressionStatement (.assignment .assign p e)]) := by
  obtain ⟨n, hparse, hn⟩ := exists_of_parse_any
    (show (parse (declaringScript "\x7ba, b: [c = 1, , ...d], [f(g)]: h = i => j, ...e\x7d = k")).toOption.any
      Node.declaresPattern = true by
        rw [parse_eq_parseChars (toList_declaringScript _)]
        decide +kernel)
  obtain ⟨p, e, hp, rfl⟩ := Node.exists_of_declaresPattern hn
  have hread : (parse
      (assigningScript "\x7ba, b: [c = 1, , ...d], [f(g)]: h = i => j, ...e\x7d = k")).toOption.isSome =
        true := by
    rw [parse_eq_parseChars (toList_assigningScript _)]
    decide +kernel
  have hplain : IsPlain
      (declaringScript "\x7ba, b: [c = 1, , ...d], [f(g)]: h = i => j, ...e\x7d = k") :=
    isPlain_of_not_mem (by decide)
  refine ⟨p, e, hp, hparse, ((assignment_of_declaration hp hparse (.inl hplain)).1.resolve_right ?_)⟩
  rintro ⟨error, hrefused⟩
  rw [hrefused] at hread
  cases hread

/-! ### A refusal with another cause

Where the levels do not suffice for the parameters of an arrow function, these are taken for an
expression in parentheses, in which `...` is not expected. -/

/-- Arrays around `a = (...[[[x]]]) => y`, as many as a declaration can have there. -/
def deepPattern : List Char :=
  List.replicate 252 '[' ++ "a = (...[[[x]]]) => y".toList ++ List.replicate 252 ']' ++ " = z".toList

/-- The declaration of a deep pattern is read, and the same text in parentheses is refused, but not
for being nested too deeply. -/
theorem declared_pattern_refused_at_ellipsis :
    IsPlain (declaringScript (.ofList deepPattern)) ∧
      (∃ p e, p.isPattern = true ∧ parse (declaringScript (.ofList deepPattern)) =
        .ok (.program [.declaration .functionScoped [.declarator p (some e)]])) ∧
      parse (assigningScript (.ofList deepPattern)) =
        .error (.refused ⟨.unexpectedToken "...", ⟨258, 261⟩⟩) := by
  have hplain : IsPlain (declaringScript (.ofList deepPattern)) := by
    apply isPlain_of_not_mem
    rw [toList_declaringScript]
    simp only [deepPattern, List.mem_append, List.mem_replicate, -List.reduceReplicate]
    decide
  have hdeclared : (parse (declaringScript (.ofList deepPattern))).toOption.any
      Node.declaresPattern = true := by
    rw [parse_eq_parseChars (toList_declaringScript _)]
    decide +kernel
  have hrefused : refusal? (parse (assigningScript (.ofList deepPattern))) =
      some ⟨.unexpectedToken "...", ⟨258, 261⟩⟩ := by
    rw [parse_eq_parseChars (toList_assigningScript _)]
    decide +kernel
  obtain ⟨n, hparse, hn⟩ := exists_of_parse_any hdeclared
  obtain ⟨p, e, hp, rfl⟩ := Node.exists_of_declaresPattern hn
  exact ⟨hplain, ⟨p, e, hp, hparse⟩, eq_of_refusal? hrefused⟩

end BindingProxy
