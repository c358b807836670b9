import BindingProxy.Proofs.Grammar.Cover
import BindingProxy.Proofs.Grammar.Levels

/-!
# Levels and nesting

A reader with more levels reads what one with fewer levels reads.  This is not evident, since an
arrow function is told from a parenthesised expression by reading ahead on a level that may not
suffice.  But then the expression in the parentheses, which takes still more levels, is refused.
-/

namespace BindingProxy

namespace TokenKind

/-- The tokens that can follow a target. -/
def EndsTarget (k : TokenKind) : Prop := k.IsClosing ∨ k = .punctuator .assign

lemma IsClosing.ne_assign {k : TokenKind} (h : k.IsClosing) : k ≠ .punctuator .assign := by
  rcases h with rfl | rfl | rfl | rfl <;> decide

lemma EndsTarget.beginsNothing {k : TokenKind} (h : k.EndsTarget) : k.BeginsNothing = true := by
  rcases h with (rfl | rfl | rfl | rfl) | rfl <;> rfl

/-- The tokens with which an operand does not go on: those that can follow a target, and the
semicolon. -/
def EndsOperand (k : TokenKind) : Prop := k.EndsTarget ∨ k = .punctuator .semicolon

/-- The token stands for no operator before an operand. -/
def IsPlain (k : TokenKind) : Prop :=
  UnaryOperator.ofToken? k = none ∧ UpdateOperator.ofToken? k = none ∧ k ≠ .reserved .kwNew

lemma isPlain_of_beginsNothing {k : TokenKind} (h : k.BeginsNothing = true) : k.IsPlain := by
  unfold BeginsNothing at h
  split at h
  case h_7 => cases h
  all_goals exact ⟨rfl, rfl, by decide⟩

lemma isPlain_of_isName {k : TokenKind} (h : k.isName = true) : k.IsPlain := by
  unfold isName at h
  split at h
  case h_3 => cases h
  all_goals exact ⟨rfl, rfl, by simp⟩

end TokenKind

namespace Grammar

open Parse

variable {strict : Prop} {ctx : Context} {g high low again : Grammar} {c c' : Cursor} {x : Node}

/-! ### Operands without operators -/

lemma leftHandSide_of_plain (h : c.token.kind.IsPlain) : leftHandSide g ctx c =
    (primaryWith g ctx (leftHandSideWithin g ctx (' ' :: c.rest)) >>= links g ctx true) c := by
  rw [leftHandSide, tokenBound, leftHandSideWithin, isAt_bind, beq_eq_false_iff_ne.2 h.2.2]
  rfl

lemma unaryExpression_of_plain (h : c.token.kind.IsPlain)
    (hawait : ¬ (c.token.kind = .contextual .kwAwait ∧ ctx.inAsync = true)) :
    unaryExpression g ctx c = operandWithUpdate g ctx c := by
  unfold unaryExpression
  rw [kind_bind, h.1, h.2.1]
  dsimp only
  rw [if_neg hawait]

/-! ### Tokens with which no expression begins -/

lemma unexpected_refused (c : Cursor) : (unexpected c : Reply Node).IsRefused := by
  unfold unexpected
  rw [token_bind]
  split
  · exact ⟨_, rfl⟩
  · exact ⟨_, rfl⟩

lemma primaryWith_refused (ctx : Context) (h : c.token.kind.BeginsNothing = true) (heritage : Parse Node) :
    (primaryWith g ctx heritage c).IsRefused := by
  have hunexpected : primaryWith g ctx heritage c = unexpected c := by
    unfold primaryWith
    rw [token_bind]
    unfold TokenKind.BeginsNothing at h
    split at h
    case h_7 => cases h
    all_goals next heq => rw [heq]
  exact hunexpected ▸ unexpected_refused c

lemma unaryExpression_refused (h : c.token.kind.BeginsNothing = true) :
    (unaryExpression g ctx c).IsRefused := by
  have hplain := TokenKind.isPlain_of_beginsNothing h
  obtain ⟨e, he⟩ := primaryWith_refused (g := g) ctx h
    (leftHandSideWithin g ctx (' ' :: c.rest))
  have hleft : leftHandSide g ctx c = .fail (.refused e) := by
    rw [leftHandSide_of_plain hplain, bind_of_fail he]
  refine ⟨e, ?_⟩
  rw [unaryExpression_of_plain hplain]
  · exact bind_of_fail hleft
  · rintro ⟨hkind, _⟩
    rw [hkind] at h
    cases h

lemma unary_refused (ctx : Context) (n : Nat) (h : c.token.kind.BeginsNothing = true) :
    ((level n).unary ctx c).IsRefused := by
  cases n with
  | zero => exact ⟨_, rfl⟩
  | succ n => exact unaryExpression_refused h

lemma conditionalOrAssignment_refused (h : (g.unary ctx c).IsRefused) :
    (conditionalOrAssignment g ctx c).IsRefused := by
  obtain ⟨e, he⟩ := h
  exact ⟨e, bind_of_fail (bind_of_fail (bind_of_fail he))⟩

/-- The token begins no arrow function and is not a word. -/
lemma arrowFunction?_of_not (hname : c.token.kind.isName = false)
    (hparen : c.token.kind ≠ .punctuator .openParen) : arrowFunction? g ctx c = .ok none c := by
  have hasync : isAsyncArrowAhead g ctx c = .ok false c := by
    unfold isAsyncArrowAhead
    rw [isAt_bind, beq_eq_false_iff_ne.2 (fun hkind => by rw [hkind] at hname; cases hname)]
    rfl
  have harrow : isArrowAhead g ctx c = .ok false c := by
    unfold isArrowAhead
    rw [kind_bind, hname, if_neg hparen]
    rfl
  unfold arrowFunction?
  rw [bind_of_ok hasync, if_neg (by simp), bind_of_ok harrow]
  rfl

lemma assignmentExpression_of_not (hname : c.token.kind.isName = false)
    (hparen : c.token.kind ≠ .punctuator .openParen) :
    assignmentExpression g ctx c = conditionalOrAssignment g ctx c := by
  unfold assignmentExpression
  rw [isAt_bind, beq_eq_false_iff_ne.2 (fun hkind => by rw [hkind] at hname; cases hname),
    if_neg (by simp), bind_of_ok (arrowFunction?_of_not hname hparen)]

lemma assignment_refused (ctx : Context) (n : Nat) (h : c.token.kind.BeginsNothing = true) :
    ((level n).assignment ctx c).IsRefused := by
  cases n with
  | zero => exact ⟨_, rfl⟩
  | succ n =>
    have hkind : c.token.kind.isName = false ∧ c.token.kind ≠ .punctuator .openParen := by
      unfold TokenKind.BeginsNothing at h
      split at h
      case h_7 => cases h
      all_goals next heq => rw [heq]; exact ⟨rfl, by decide⟩
    change (assignmentExpression (level n) ctx c).IsRefused
    rw [assignmentExpression_of_not hkind.1 hkind.2]
    exact conditionalOrAssignment_refused (unary_refused ctx n h)

/-! ### Expressions that end with an operand -/

/-- What `p` fails with, or reads up to a token that ends an operand, `q` does likewise. -/
def Continues (p q : Parse Node) (c : Cursor) : Prop :=
  match p c with
  | .ok x c' => c'.token.kind.EndsOperand → q c = .ok x c'
  | .fail failure => q c = .fail failure

namespace Continues

variable {p q : Parse Node}

lemma of_eq (h : q c = p c) : Continues p q c := by
  unfold Continues
  split
  · next hread => exact fun _ => h.trans hread
  · next hread => exact h.trans hread

lemma bind {f : Node → Parse Node} (h : Continues p q c)
    (hf : ∀ x c', c'.token.kind.EndsOperand → f x c' = .ok x c') : Continues p (q >>= f) c := by
  unfold Continues at h ⊢
  split at h
  · exact fun hends => (bind_of_ok (h hends)).trans (hf _ _ hends)
  · exact bind_of_fail h

lemma congr {q' : Parse Node} (h : Continues p q c) (heq : q' c = q c) : Continues p q' c := by
  unfold Continues at h ⊢
  rwa [heq]

lemma mirror {V : Node → Node → Prop} {high again : Reply Node} (h : Continues p q c)
    (hp : Mirror strict NoEnd (fun _ c' => c'.token.kind.EndsTarget) V high (p c) again) :
    Mirror strict NoEnd (fun _ c' => c'.token.kind.EndsTarget) V high (q c) again := by
  have hfail : ∀ {failure}, p c = .fail failure → q c = .fail failure := by
    intro failure hread
    rwa [Continues, hread] at h
  have hshort : (p c).FallsShort strict NoEnd → (q c).FallsShort strict NoEnd := by
    rintro (hstalled | ⟨hstrict, ⟨e, he⟩ | ⟨_, _, _, hno⟩⟩)
    · exact .inl (hfail hstalled)
    · exact .inr ⟨hstrict, .inl ⟨e, hfail he⟩⟩
    · exact hno.elim
  cases high with
  | ok a c' =>
    intro hends
    rcases hp hends with hlow | ⟨hc', b, hlow, hagain, hV⟩
    · exact .inl (hshort hlow)
    · rw [Continues, hlow] at h
      exact .inr ⟨hc', b, h (.inl hends), hagain, hV⟩
  | fail failure =>
    cases failure with
    | refused | stalled => trivial
    | unreadable => exact hp.imp hshort hfail

end Continues

lemma links_of_ends (h : c.token.kind.EndsOperand) (calls : Bool) : links g ctx calls x c = .ok x c := by
  have hlink : link g ctx calls x c = .ok (.done x) c := by
    unfold link
    rw [kind_bind]
    rcases h with ((h | h | h | h) | h) | h <;> rw [h] <;> rfl
  exact bind_of_ok hlink

lemma joinNext_of_ends (ctx : Context) (h : c.token.kind.EndsOperand) (limit : Nat) :
    repeatFrom x (joinNext g limit ctx) c = .ok x c := by
  have hoperator : operatorAt? ctx c.token.kind = none := by
    rcases h with ((h | h | h | h) | h) | h <;> rw [h] <;> rfl
  have hjoin : joinNext g limit ctx x c = .ok (.done x) c := by
    unfold joinNext
    rw [kind_bind, hoperator]
    rfl
  exact bind_of_ok hjoin

/-- An operand that does not go on is all of the conditional expression. -/
lemma continues_conditionalExpression (h : c.token.kind.IsPlain)
    (hawait : ¬ (c.token.kind = .contextual .kwAwait ∧ ctx.inAsync = true)) :
    Continues (primaryWith g ctx (leftHandSideWithin g ctx (' ' :: c.rest)))
      (conditionalExpression g.above ctx) c := by
  have hleft : Continues (primaryWith g ctx (leftHandSideWithin g ctx (' ' :: c.rest)))
      (leftHandSide g ctx) c :=
    ((Continues.of_eq rfl).bind fun _ _ hends => links_of_ends hends true).congr
      (leftHandSide_of_plain h)
  have hoperand : Continues (primaryWith g ctx (leftHandSideWithin g ctx (' ' :: c.rest)))
      (operandWithUpdate g ctx) c := by
    unfold operandWithUpdate
    refine hleft.bind fun x c' hends => ?_
    rw [token_bind]
    rcases hends with ((h | h | h | h) | h) | h <;> rw [h] <;> rfl
  have hunary := hoperand.congr (unaryExpression_of_plain h hawait)
  have hbinary := hunary.bind fun x c' hends => joinNext_of_ends (g := g.above) ctx hends 0
  refine hbinary.bind fun x c' hends => ?_
  have hquestion : c'.token.kind ≠ .punctuator .question := by
    rcases hends with ((h | h | h | h) | h) | h <;> rw [h] <;> decide
  rw [accept_bind_of_not hquestion]
  rfl

/-! ### Names -/

/-- A name as a target and as an expression. -/
abbrev namedTarget : Parse Node := do return .identifier (← name)

lemma name_of_not (h : c.token.kind.isName = false) :
    name c = .fail (.refused ⟨.nameExpected, c.token.span⟩) := by
  unfold name
  rw [token_bind, h]
  rfl

lemma namedTarget_eq (h : c.token.kind.isName = true) :
    namedTarget c = (advance >>= fun _ => pure (.identifier c.token.value)) c := by
  have hname : name c = (advance >>= fun _ => pure c.token.value) c := by
    unfold name
    rw [token_bind, h]
    rfl
  unfold namedTarget
  rw [bind_eq_of_eq hname, bind_assoc]
  rfl

lemma namedTarget_of_next? (h : c.token.kind.isName = true) (hnext : c.next? = some (c', none)) :
    namedTarget c = .ok (.identifier c.token.value) c' := by
  rw [namedTarget_eq h, bind_of_ok (advance_of_next? hnext)]
  rfl

lemma namedTarget_cases (h : c.token.kind.isName = true) :
    (c.next? = none ∧ namedTarget c = .fail .unreadable) ∨ (namedTarget c).IsRefused ∨
      ∃ c', c.next? = some (c', none) := by
  cases hnext : c.next? with
  | none =>
    refine .inl ⟨rfl, ?_⟩
    rw [namedTarget_eq h]
    exact bind_of_fail (by rw [advance, hnext])
  | some reached =>
    obtain ⟨c', flaw⟩ := reached
    cases flaw with
    | none => exact .inr (.inr ⟨c', rfl⟩)
    | some flaw =>
      have hadvance : advance c = .fail (.refused ⟨.flawed flaw.cause, .point flaw.offset⟩) := by
        rw [advance, hnext]
        rfl
      refine .inr (.inl ⟨⟨.flawed flaw.cause, .point flaw.offset⟩, ?_⟩)
      rw [namedTarget_eq h, bind_of_fail hadvance]

lemma peek_of_next? {flaw : Option Flaw} (hnext : c.next? = some (c', flaw)) :
    peek c = .ok c'.token c := by
  rw [peek, hnext]

lemma bindingTarget_of_isName (h : c.token.kind.isName = true) :
    bindingTarget g ctx c = namedTarget c := by
  unfold bindingTarget
  rw [kind_bind]
  unfold TokenKind.isName at h
  split at h
  case h_3 => cases h
  all_goals next heq => rw [heq]

lemma primaryWith_of_isName (h : c.token.kind.isName = true) (hnext : c.next? = some (c', none))
    (hends : c'.token.kind.EndsTarget) (heritage : Parse Node) :
    primaryWith g ctx heritage c = namedTarget c := by
  have hfunction : isFunctionAhead c = .ok false c := by
    unfold isFunctionAhead
    rw [bind_of_ok (peek_of_next? hnext)]
    rcases hends with (h | h | h | h) | h <;> rw [h] <;> rfl
  unfold primaryWith
  rw [token_bind]
  unfold TokenKind.isName at h
  split at h
  case h_3 => cases h
  · next heq => rw [heq]
  · next w heq =>
    rw [heq]
    by_cases hasync : w = .kwAsync
    · subst hasync
      dsimp only
      rw [bind_of_ok hfunction]
      rfl
    · cases w <;> first | rfl | exact absurd rfl hasync

/-- A name before the end of a target begins no arrow function. -/
lemma arrowFunction?_of_isName (h : c.token.kind.isName = true) (hnext : c.next? = some (c', none))
    (hends : c'.token.kind.EndsTarget) : arrowFunction? g ctx c = .ok none c := by
  have hafter : isArrowAhead g ctx c' = .ok false c' := by
    unfold isArrowAhead
    rw [kind_bind]
    rcases hends with (h | h | h | h) | h <;> rw [h] <;> rfl
  have hasync : isAsyncArrowAhead g ctx c = .ok false c := by
    unfold isAsyncArrowAhead
    rw [isAt_bind]
    split
    · rw [lookAhead, bind_of_ok (advance_of_next? hnext), afterLineBreak_bind]
      cases c'.token.afterLineBreak with
      | true => rfl
      | false => rw [if_neg (by simp), hafter]
    · rfl
  have harrow : isArrowAhead g ctx c = .ok false c := by
    unfold isArrowAhead
    rw [kind_bind, if_pos h, bind_of_ok (peek_of_next? hnext)]
    rcases hends with (h | h | h | h) | h <;> rw [h] <;> rfl
  unfold arrowFunction?
  rw [bind_of_ok hasync, if_neg (by simp), bind_of_ok harrow]
  rfl

lemma assignmentExpression_unreadable (h : c.token.kind.isName = true) (hnext : c.next? = none) :
    assignmentExpression g ctx c = .fail .unreadable := by
  have hadvance : advance c = .fail .unreadable := by rw [advance, hnext]
  have hpeek : peek c = .fail .unreadable := by rw [peek, hnext]
  have harrow : isArrowAhead g ctx c = .fail .unreadable := by
    unfold isArrowAhead
    rw [kind_bind, if_pos h]
    exact bind_of_fail hpeek
  unfold assignmentExpression
  rw [isAt_bind]
  split
  · exact bind_of_fail hadvance
  · refine bind_of_fail ?_
    unfold arrowFunction? isAsyncArrowAhead
    rw [bind_assoc, isAt_bind]
    split
    · have hahead : lookAhead (do
          advance
          if ← afterLineBreak then return false
          isArrowAhead g ctx) c = .fail .unreadable := by
        rw [lookAhead, bind_of_fail hadvance]
      exact bind_of_fail hahead
    · rw [pure_bind]
      exact bind_of_fail harrow

/-! ### Targets as expressions -/

/-- What an expression and the target that it covers have to do with each other.  In a generator the
name `yield` is an operator, so nothing can be said. -/
abbrev CoversIn (ctx : Context) (b x : Node) : Prop :=
  ctx.inGenerator = false → x.toTarget = .ok b ∧ b.IsTarget

/-- What follows the left side of an assignment. -/
def assignmentRest (g : Grammar) (ctx : Context) (left : Node) : Parse Node := do
  match AssignmentOperator.ofToken? (← kind) with
  | none => return left
  | some operator =>
    match assignmentTarget operator left with
    | .error cause => reject cause
    | .ok target =>
      advance
      return .assignment operator target (← g.assignment ctx)

lemma conditionalOrAssignment_eq (g : Grammar) (ctx : Context) :
    conditionalOrAssignment g ctx = conditionalExpression g ctx >>= assignmentRest g ctx := rfl

lemma mirror_bracket (hm : Mirroring strict ctx high low again) (hc : c.AtToken)
    (hkind : c.token.kind = .punctuator .openBracket ∨ c.token.kind = .punctuator .openBrace) :
    Mirror strict NoEnd (fun _ c' => c'.token.kind.EndsTarget) (CoversIn ctx)
      (bindingTarget high ctx c) (conditionalExpression low.above ctx c)
      (bindingTarget again ctx c) := by
  have hcontinues : Continues (primaryWith low ctx (leftHandSideWithin low ctx (' ' :: c.rest)))
      (conditionalExpression low.above ctx) c := by
    apply continues_conditionalExpression
    · rcases hkind with h | h <;> rw [h] <;> exact ⟨rfl, rfl, by simp⟩
    · rcases hkind with h | h <;> rw [h] <;> simp
  refine hcontinues.mirror ?_
  refine Mirror.mono (A := fun _ _ => True) ?_ (fun _ _ _ => trivial) fun _ _ h => h
  rcases hkind with h | h
  · have hhigh : ∀ g, bindingTarget g ctx c = arrayPattern g ctx c := by
      intro g
      unfold bindingTarget
      rw [kind_bind, h]
    have hlow : ∀ heritage, primaryWith low ctx heritage c = arrayLiteral low ctx c := by
      intro heritage
      unfold primaryWith
      rw [token_bind, h]
    rw [hhigh, hhigh, hlow]
    exact mirror_array hm hc
  · have hhigh : ∀ g, bindingTarget g ctx c = objectPattern g ctx c := by
      intro g
      unfold bindingTarget
      rw [kind_bind, h]
    have hlow : ∀ heritage, primaryWith low ctx heritage c = objectLiteral low ctx c := by
      intro heritage
      unfold primaryWith
      rw [token_bind, h]
    rw [hhigh, hhigh, hlow]
    exact mirror_object hm hc

lemma conditionalExpression_of_isName (l : Nat) (h : c.token.kind.isName = true)
    (hnext : c.next? = some (c', none)) (hends : c'.token.kind.EndsTarget)
    (hstrict : strict → 1 ≤ l ∧ ctx.inAsync = false) :
    (conditionalExpression (level l) ctx c).FallsShort strict NoEnd ∨
      conditionalExpression (level l) ctx c = .ok (.identifier c.token.value) c' := by
  cases l with
  | zero =>
    have hunary : (level 0).unary ctx c = .fail (.refused ⟨.nestedTooDeeply, c.token.span⟩) := rfl
    exact .inl (.inr ⟨fun hs => absurd (hstrict hs).1 (by simp),
      .inl ⟨_, bind_of_fail (bind_of_fail hunary)⟩⟩)
  | succ l =>
    by_cases hawait : c.token.kind = .contextual .kwAwait ∧ ctx.inAsync = true
    · obtain ⟨e, he⟩ := unary_refused ctx l hends.beginsNothing
      refine .inl (.inr ⟨fun hs => ?_, .inl ⟨e, bind_of_fail (bind_of_fail ?_)⟩⟩)
      · rw [(hstrict hs).2] at hawait
        cases hawait.2
      · change unaryExpression (level l) ctx c = _
        unfold unaryExpression
        rw [kind_bind, hawait.1]
        dsimp only [UnaryOperator.ofToken?, UpdateOperator.ofToken?]
        rw [if_pos ⟨rfl, hawait.2⟩, bind_of_ok (advance_of_next? hnext)]
        exact bind_of_fail he
    · right
      have hcontinues := continues_conditionalExpression (g := level l)
        (TokenKind.isPlain_of_isName h) hawait
      rw [Continues, primaryWith_of_isName h hnext hends, namedTarget_of_next? h hnext] at hcontinues
      exact hcontinues (.inl hends)

lemma yielding_of_ends (n : Nat) (hnext : c.next? = some (c', none)) (hends : c'.token.kind.EndsTarget) :
    yielding (level n) ctx c = .ok (.yielding none false) c' ∨
      c'.token.kind = .punctuator .assign ∧ (yielding (level n) ctx c).IsRefused := by
  unfold yielding
  rw [bind_of_ok (advance_of_next? hnext), token_bind]
  split
  · exact .inl rfl
  · next hnot =>
    rcases hends with hclosing | hassign
    · refine absurd ?_ hnot
      rcases hclosing with h | h | h | h <;> rw [h] <;> simp [canYield]
    · obtain ⟨e, he⟩ := assignment_refused ctx n (c := c') (by rw [hassign]; rfl)
      refine .inr ⟨hassign, e, ?_⟩
      rw [accept_bind_of_not (by rw [hassign]; decide), bind_of_fail he]

/-- What may follow a target, for the readers of patterns, and the left side of an assignment. -/
structure Following (strict : Prop) (ctx : Context) (g : Grammar) (D : Node → Cursor → Prop)
    (W : Node → Node → Prop) (k k' : Node → Parse Node) : Prop where
  not {b : Node} {c : Cursor} {low again : Reply Node} (h : ¬ c.token.kind.EndsTarget) :
    Mirror strict D (fun _ c' => c'.token.kind.IsClosing) W (k b c) low again
  ends {b x : Node} {c : Cursor} (hc : c.AtToken) (h : c.token.kind.EndsTarget)
    (hx : CoversIn ctx b x) :
    Mirror strict D (fun _ c' => c'.token.kind.IsClosing) W (k b c) (assignmentRest g ctx x c) (k' b c)
  yielded {b : Node} {c : Cursor} {low : Reply Node} (hc : c.AtToken) (h : ctx.inGenerator = true)
    (hlow : low = .ok (.yielding none false) c ∨
      c.token.kind = .punctuator .assign ∧ low.IsRefused) (hstrict : ¬ strict) :
    Mirror strict D (fun _ c' => c'.token.kind.IsClosing) W (k b c) low (k' b c)

section

variable {k k' : Node → Parse Node} {D : Node → Cursor → Prop} {W : Node → Node → Prop}

/-- A name as an expression without commas, with what may follow it. -/
lemma mirror_assignment_name (l : Nat) (hname : c.token.kind.isName = true)
    (hstrict : strict → 1 ≤ l ∧ ctx.inAsync = false ∧ ctx.inGenerator = false)
    (hk : Following strict ctx (level l) D W k k') :
    Mirror strict D (fun _ c' => c'.token.kind.IsClosing) W ((namedTarget >>= k) c)
      (assignmentExpression (level l) ctx c) ((namedTarget >>= k') c) := by
  rcases namedTarget_cases hname with ⟨hnone, hread⟩ | ⟨e, he⟩ | ⟨c', hnext⟩
  · rw [bind_of_fail hread]
    exact .inr (assignmentExpression_unreadable hname hnone)
  · exact .of_refused ⟨e, bind_of_fail he⟩
  have hc' : c'.AtToken := Cursor.atToken_of_next? hnext
  rw [bind_of_ok (namedTarget_of_next? hname hnext), bind_of_ok (namedTarget_of_next? hname hnext)]
  by_cases hafter : c'.token.kind.EndsTarget
  swap
  · exact hk.not hafter
  unfold assignmentExpression
  rw [isAt_bind]
  split
  · next h =>
    rw [Bool.and_eq_true] at h
    refine hk.yielded hc' h.2 (yielding_of_ends l hnext hafter) fun hs => ?_
    rw [(hstrict hs).2.2] at h
    cases h.2
  rw [bind_of_ok (arrowFunction?_of_isName hname hnext hafter)]
  dsimp only
  rw [conditionalOrAssignment_eq]
  rcases conditionalExpression_of_isName l hname hnext hafter fun hs =>
    ⟨(hstrict hs).1, (hstrict hs).2.1⟩ with hshort | hok
  · refine .of_low ?_
    rcases hshort with hstalled | ⟨hs, ⟨e, he⟩ | ⟨_, _, _, hno⟩⟩
    · exact .inl (bind_of_fail hstalled)
    · exact .inr ⟨hs, .inl ⟨e, bind_of_fail he⟩⟩
    · exact hno.elim
  · rw [bind_of_ok hok]
    exact hk.ends hc' hafter fun _ => ⟨rfl, trivial⟩

/-- A target as an expression without commas, with what may follow it. -/
lemma mirror_assignment_target (l : Nat) (hc : c.AtToken)
    (hstrict : strict → 1 ≤ l ∧ ctx.inAsync = false ∧ ctx.inGenerator = false)
    (hm : ∀ l', l = l' + 1 → Mirroring strict ctx high (level l') again)
    (hk : Following strict ctx (level l) D W k k') :
    Mirror strict D (fun _ c' => c'.token.kind.IsClosing) W ((bindingTarget high ctx >>= k) c)
      (assignmentExpression (level l) ctx c) ((bindingTarget again ctx >>= k') c) := by
  by_cases hname : c.token.kind.isName = true
  · rw [bind_eq_of_eq (bindingTarget_of_isName hname), bind_eq_of_eq (bindingTarget_of_isName hname)]
    exact mirror_assignment_name l hname hstrict hk
  rw [Bool.not_eq_true] at hname
  by_cases hkind : c.token.kind = .punctuator .openBracket ∨ c.token.kind = .punctuator .openBrace
  · rw [assignmentExpression_of_not hname (by rcases hkind with h | h <;> rw [h] <;> decide)]
    cases l with
    | zero =>
      refine .of_low (.inr ⟨fun hs => absurd (hstrict hs).1 (by simp), .inl ?_⟩)
      exact conditionalOrAssignment_refused ⟨_, rfl⟩
    | succ l =>
      rw [conditionalOrAssignment_eq]
      exact (mirror_bracket (hm l rfl) hc hkind).bind (fun b x c' => hk.ends) fun b c' _ _ => hk.not
  · rw [not_or] at hkind
    have hrefused : bindingTarget high ctx c = .fail (.refused ⟨.nameExpected, c.token.span⟩) := by
      unfold bindingTarget
      rw [kind_bind]
      have hread : namedTarget c = .fail (.refused ⟨.nameExpected, c.token.span⟩) :=
        bind_of_fail (name_of_not hname)
      cases hk : c.token.kind with
      | punctuator p =>
        cases p
        case openBracket => exact absurd hk hkind.1
        case openBrace => exact absurd hk hkind.2
        all_goals exact hread
      | _ => exact hread
    exact .of_refused ⟨_, bind_of_fail hrefused⟩

end

/-! ### What a level mirrors -/

lemma assignmentRest_of_closing (h : c.token.kind.IsClosing) : assignmentRest g ctx x c = .ok x c := by
  unfold assignmentRest
  rw [kind_bind]
  rcases h with h | h | h | h <;> rw [h] <;> rfl

lemma assignmentRest_of_error {cause : SyntaxCause} (h : c.token.kind = .punctuator .assign)
    (hx : x.toTarget = .error cause) :
    assignmentRest g ctx x c = .fail (.refused ⟨cause, c.token.span⟩) := by
  have htarget : assignmentTarget .assign x = .error cause := hx
  unfold assignmentRest
  rw [kind_bind, h]
  dsimp only [AssignmentOperator.ofToken?]
  rw [htarget]
  rfl

lemma assignmentRest_of_ok {target : Node} (h : c.token.kind = .punctuator .assign)
    (hx : x.toTarget = .ok target) :
    assignmentRest g ctx x c = (advance >>= fun _ => g.assignment ctx >>= fun value =>
      Pure.pure (Node.assignment .assign target value)) c := by
  have htarget : assignmentTarget .assign x = .ok target := hx
  unfold assignmentRest
  rw [kind_bind, h]
  dsimp only [AssignmentOperator.ofToken?]
  rw [htarget]

lemma withDefault_of_not (b : Node) (h : c.token.kind ≠ .punctuator .assign) :
    withDefault g ctx b c = .ok b c := by
  unfold withDefault
  rw [accept_bind_of_not h]
  rfl

lemma mirror_level_assignment {h l m : Nat} (hlevels : min h l ≤ m) (hextends : Extends (min h l))
    (hstrict : strict → h ≤ l) (hc : c.AtToken) :
    Mirror strict NoEnd (fun _ _ => True) Eq ((level h).assignment ctx c)
      ((level l).assignment ctx c) ((level m).assignment ctx c) := by
  have hsame : ∀ n, min h l ≤ n → (level n).assignment ctx c = (level (min h l)).assignment ctx c ∨
      ((level (min h l)).assignment ctx c).IsRefused := fun n hn => hextends.assignment hn ctx hc
  by_cases hrefused : ((level (min h l)).assignment ctx c).IsRefused
  · rcases Nat.le_total h l with hle | hle
    · rw [Nat.min_eq_left hle] at hrefused
      exact .of_refused hrefused
    · rw [Nat.min_eq_right hle] at hrefused
      by_cases hs : strict
      · rw [Nat.le_antisymm (hstrict hs) hle]
        exact .of_refused hrefused
      · exact .of_low (.inr ⟨hs, .inl hrefused⟩)
  · rw [(hsame h (Nat.min_le_left _ _)).resolve_right hrefused,
      (hsame l (Nat.min_le_right _ _)).resolve_right hrefused, (hsame m hlevels).resolve_right hrefused]
    exact .same ((advancing_level _).assignment ctx).follows hc

/-- Nothing follows a target. -/
lemma following_pure (g : Grammar) :
    Following strict ctx g NoEnd (CoversIn ctx) Pure.pure Pure.pure where
  not h := .unwanted fun hclosing => h (.inl hclosing)
  ends hc h hx := by
    rcases h with hclosing | hassign
    · rw [assignmentRest_of_closing hclosing]
      exact .ok hc fun _ => hx
    · exact .unwanted fun hclosing => hclosing.ne_assign hassign
  yielded hc h hlow _ := by
    rcases hlow with rfl | ⟨hassign, _⟩
    · refine .ok hc fun _ hplain => ?_
      rw [hplain] at h
      cases h
    · exact .unwanted fun hclosing => hclosing.ne_assign hassign

/-- A default may follow a target. -/
lemma following_withDefault {h l m : Nat} (hctx : ctx.allowIn = ctx) (hlevels : min h l ≤ m)
    (hextends : Extends (min h l)) (hstrict : strict → h ≤ l ∧ ctx.inGenerator = false) :
    Following strict ctx (level l) AtAssign (fun b x => ctx.inGenerator = false → x.Covers b)
      (withDefault (level h) ctx) (withDefault (level m) ctx) where
  not h := by
    rw [withDefault_of_not _ fun hkind => h (.inr hkind)]
    exact .unwanted fun hclosing => h (.inl hclosing)
  ends {b x c} hc hends hx := by
    rcases hends with hclosing | hassign
    · rw [withDefault_of_not _ hclosing.ne_assign, withDefault_of_not _ hclosing.ne_assign,
        assignmentRest_of_closing hclosing]
      exact .ok hc fun _ hplain => .inl (hx hplain)
    have hdefault : ∀ n, withDefault (level n) ctx b c = (advance >>= fun _ =>
        (level n).assignment ctx >>= fun value => Pure.pure (.defaulted b value)) c := by
      intro n
      unfold withDefault
      rw [accept_bind_of_at hassign, hctx]
      rfl
    rw [hdefault, hdefault]
    cases htarget : x.toTarget with
    | error cause =>
      refine .of_low (.inr ⟨fun hs => ?_, .inl ⟨_, assignmentRest_of_error hassign htarget⟩⟩)
      rw [(hx (hstrict hs).2).1] at htarget
      cases htarget
    | ok target =>
      rw [assignmentRest_of_ok hassign htarget]
      refine .sameThen .advance hc fun _ c1 hc1 _ => ?_
      refine ((mirror_level_assignment hlevels hextends (fun hs => (hstrict hs).1) hc1).bind
        fun value value' c2 hc2 _ heq => ?_) fun _ _ _ _ hnot => absurd trivial hnot
      subst heq
      refine .ok hc2 fun _ hplain => .inr ⟨target, value, rfl, ?_⟩
      rw [(hx hplain).1] at htarget
      cases htarget
      rfl
  yielded {b c low} hc hgenerator hlow hstrict := by
    rcases hlow with rfl | ⟨hassign, hrefused⟩
    · by_cases hassign : c.token.kind = .punctuator .assign
      · exact .of_low (.inr ⟨hstrict, .inr ⟨_, _, rfl, hassign⟩⟩)
      · rw [withDefault_of_not _ hassign, withDefault_of_not _ hassign]
        refine .ok hc fun _ hplain => ?_
        rw [hplain] at hgenerator
        cases hgenerator
    · exact .of_low (.inr ⟨hstrict, .inl hrefused⟩)

/-- A name without a default. -/
lemma mirror_level_name (l : Nat)
    (hstrict : strict → 1 ≤ l ∧ ctx.inAsync = false ∧ ctx.inGenerator = false) :
    Mirror strict NoEnd (fun _ c' => c'.token.kind.IsClosing)
      (fun n x => ctx.inGenerator = false → x.toTarget = .ok (.identifier n)) (name c)
      (assignmentExpression (level l) ctx c) (name c) := by
  by_cases hname : c.token.kind.isName = true
  swap
  · exact .of_refused ⟨_, name_of_not (Bool.not_eq_true _ ▸ hname)⟩
  have hmirror := mirror_assignment_name l hname hstrict (following_pure (level l))
  rw [bind_pure] at hmirror
  cases hread : name c with
  | ok n c' =>
    have htarget : namedTarget c = .ok (.identifier n) c' := bind_of_ok hread
    rw [htarget] at hmirror
    intro hclosing
    refine (hmirror hclosing).imp_right fun ⟨hc', x, hlow, _, hx⟩ => ?_
    exact ⟨hc', x, hlow, rfl, fun hplain => (hx hplain).1⟩
  | fail failure =>
    have htarget : namedTarget c = .fail failure := bind_of_fail hread
    rw [htarget] at hmirror
    cases failure with
    | refused | stalled => trivial
    | unreadable => exact hmirror

/-- A level mirrors another one if the ones further in do. -/
lemma mirroring_succ {h l m : Nat} (hctx : ctx.allowIn = ctx) (hlevels : min h l ≤ m)
    (hextends : ∀ n ≤ min h l + 1, Extends n)
    (hstrict : strict → 2 * h + 3 ≤ l ∧ ctx.inAsync = false ∧ ctx.inGenerator = false)
    (hm : ∀ l', l = l' + 1 → Mirroring strict ctx (level h) (level l') (level m)) :
    Mirroring strict ctx (level (h + 1)) (level (l + 1)) (level (m + 1)) where
  context := hctx
  element hc := mirror_assignment_target l hc (fun hs => ⟨by have := (hstrict hs).1; omega, (hstrict hs).2⟩) hm
    (following_withDefault hctx (by omega) (hextends _ (by omega)) fun hs =>
      ⟨by have := (hstrict hs).1; omega, (hstrict hs).2.2⟩)
  rest hc := by
    have hmirror := mirror_assignment_target l hc
      (fun hs => ⟨by have := (hstrict hs).1; omega, (hstrict hs).2⟩) hm (following_pure (level l))
    rw [bind_pure, bind_pure] at hmirror
    exact hmirror.mono (fun _ _ h => h) fun b x h hplain => (h hplain).1
  name _ := mirror_level_name l fun hs => ⟨by have := (hstrict hs).1; omega, (hstrict hs).2⟩
  key hc := mirror_level_assignment (by omega) (hextends _ (by omega))
    (fun hs => by have := (hstrict hs).1; omega) hc
  refuses hkind := ⟨assignment_refused _ _ hkind, unary_refused _ _ hkind⟩

/-- Without levels for patterns there are only names. -/
lemma mirroring_zero (l m : Nat) (hctx : ctx.allowIn = ctx)
    (hstrict : strict → 2 ≤ l ∧ ctx.inAsync = false ∧ ctx.inGenerator = false) :
    Mirroring strict ctx (level 0) (level l) (level m) where
  context := hctx
  element {c} _ := by
    have htarget : (level 0).target ctx c = .fail (.refused ⟨.nestedTooDeeply, c.token.span⟩) := rfl
    exact .of_refused ⟨_, bind_of_fail htarget⟩
  rest _ := .of_refused ⟨_, rfl⟩
  name {c} _ := by
    cases l with
    | zero => exact .of_low (.inr ⟨fun hs => by have := (hstrict hs).1; omega, .inl ⟨_, rfl⟩⟩)
    | succ l => exact mirror_level_name l fun hs => ⟨by have := (hstrict hs).1; omega, (hstrict hs).2⟩
  key _ := .of_refused ⟨_, rfl⟩
  refuses hkind := ⟨assignment_refused _ _ hkind, unary_refused _ _ hkind⟩

/-- Without levels for expressions all is refused. -/
lemma mirroring_refused (h m : Nat) (hctx : ctx.allowIn = ctx) (hstrict : ¬ strict) :
    Mirroring strict ctx (level h) (level 0) (level m) where
  context := hctx
  element _ := .of_low (.inr ⟨hstrict, .inl ⟨_, rfl⟩⟩)
  rest _ := .of_low (.inr ⟨hstrict, .inl ⟨_, rfl⟩⟩)
  name _ := .of_low (.inr ⟨hstrict, .inl ⟨_, rfl⟩⟩)
  key _ := .of_low (.inr ⟨hstrict, .inl ⟨_, rfl⟩⟩)
  refuses hkind := ⟨assignment_refused _ _ hkind, unary_refused _ _ hkind⟩

/-- Twice as many levels for expressions as for patterns rule out that they do not suffice. -/
lemma mirroring_level {h l m : Nat} (hctx : ctx.allowIn = ctx) (hlevels : min h l ≤ m)
    (hextends : ∀ n ≤ min h l, Extends n)
    (hstrict : strict → 2 * h + 2 ≤ l ∧ ctx.inAsync = false ∧ ctx.inGenerator = false) :
    Mirroring strict ctx (level h) (level l) (level m) := by
  induction h generalizing l m with
  | zero => exact mirroring_zero l m hctx hstrict
  | succ h ih =>
    cases l with
    | zero => exact mirroring_refused _ m hctx fun hs => by have := (hstrict hs).1; omega
    | succ l =>
      obtain ⟨m, rfl⟩ : ∃ m', m = m' + 1 := ⟨m - 1, by omega⟩
      refine mirroring_succ hctx (by omega) (fun n hn => hextends n (by omega))
        (fun hs => ⟨by have := (hstrict hs).1; omega, (hstrict hs).2⟩) ?_
      rintro l' rfl
      exact ih (by omega) (fun n hn => hextends n (by omega))
        fun hs => ⟨by have := (hstrict hs).1; omega, (hstrict hs).2⟩

end Grammar

end BindingProxy
