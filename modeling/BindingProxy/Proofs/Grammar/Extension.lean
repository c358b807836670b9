import BindingProxy.Proofs.Grammar.LookAhead
import BindingProxy.Proofs.Grammar.Nesting

/-!
# More levels read more

What is read with some levels is read with more levels too, and comes to the same.
-/

namespace BindingProxy

namespace Parse

variable {α β : Type} {V : α → β → Prop} {high again : Reply α} {low : Reply β}

/-- Where reading the pattern again is refused, reading the expression is not of use. -/
lemma Mirror.of_again_refused (h : Mirror False NoEnd (fun _ _ => True) V high low again)
    (hlow : low ≠ .fail .stalled) (hhigh : high ≠ .fail .stalled) (hagain : again.IsRefused) :
    high.IsRefused ∨ low.IsRefused ∨ low = .fail .unreadable ∧ high = .fail .unreadable := by
  have hshort : low.FallsShort False NoEnd → low.IsRefused := by
    rintro (hstalled | ⟨_, hrefused | ⟨_, _, _, hno⟩⟩)
    · exact absurd hstalled hlow
    · exact hrefused
    · exact hno.elim
  cases high with
  | ok a c =>
    rcases h trivial with hfalls | ⟨_, b, _, hok, _⟩
    · exact .inr (.inl (hshort hfalls))
    · obtain ⟨e, he⟩ := hagain
      rw [he] at hok
      cases hok
  | fail failure =>
    cases failure with
    | refused e => exact .inl ⟨e, rfl⟩
    | stalled => exact absurd rfl hhigh
    | unreadable => exact .inr (h.imp hshort fun hread => ⟨hread, rfl⟩)

end Parse

namespace Grammar

open Parse Likeness

variable {ctx : Context} {g : Grammar} {c c' : Cursor} {n m : Nat}

/-! ### Reading ahead on two levels -/

/-- Parameters on two levels: the same, or refused on both, or refused on the lower one, and then
neither parentheses nor arguments are of use there. -/
lemma parameters_cases (hle : n ≤ m) (hextends : ∀ k ≤ n, Extends k) (hc : c.AtToken) :
    parameters (level m) ctx c = parameters (level n) ctx c ∨
      (parameters (level n) ctx c).IsRefused ∧ ((parameters (level m) ctx c).IsRefused ∨
        ∀ k, n = k + 1 →
          ((parenthesized (level k) ctx c).IsRefused ∨
            parenthesized (level k) ctx c = .fail .unreadable ∧
              parameters (level m) ctx c = .fail .unreadable) ∧
          ((arguments (level k) ctx c).IsRefused ∨
            arguments (level k) ctx c = .fail .unreadable ∧
              parameters (level m) ctx c = .fail .unreadable)) := by
  have hparameters : ∀ k, parameters (level k) ctx c ≠ .fail .stalled := fun k =>
    (advances_parameters (advancing_level k) ctx c hc).ne_stalled
  rcases eq_or_refused (corresponds_parameters (hextends n (Nat.le_refl n) m hle) ctx) hc
    (hparameters n) (hparameters m) with heq | hrefused
  · exact .inl heq
  refine .inr ⟨hrefused, ?_⟩
  by_cases hhigh : (parameters (level m) ctx c).IsRefused
  · exact .inl hhigh
  refine .inr ?_
  rintro k rfl
  have hm : Mirroring False ctx.allowIn (level m) (level k) (level (k + 1)) :=
    mirroring_level rfl (by omega) (fun i hi => hextends i (by omega)) False.elim
  constructor
  · exact ((mirror_parenthesized hm hc).of_again_refused
      (closes_parenthesized (advancing_level k) ctx c hc).ne_stalled (hparameters m)
      hrefused).resolve_left hhigh
  · exact ((mirror_arguments hm hc).of_again_refused
      (closes_arguments (advancing_level k) ctx c hc).ne_stalled (hparameters m)
      hrefused).resolve_left hhigh

/-- The lower level finds no arrow function where the higher one may find one, and neither
parentheses nor arguments are of use there. -/
structure Misses (ctx : Context) (n m : Nat) (c : Cursor) : Prop where
  kind : c.token.kind = .punctuator .openParen
  low : isArrowAhead (level n) ctx c = .ok false c
  parenthesized {k : Nat} (hk : n = k + 1) : (parenthesized (level k) ctx c).IsRefused ∨
    parenthesized (level k) ctx c = .fail .unreadable ∧
      isArrowAhead (level m) ctx c = .fail .unreadable
  arguments {k : Nat} (hk : n = k + 1) : (arguments (level k) ctx c).IsRefused ∨
    arguments (level k) ctx c = .fail .unreadable ∧ isArrowAhead (level m) ctx c = .fail .unreadable

lemma isArrowAhead_of_openParen (h : c.token.kind = .punctuator .openParen) :
    isArrowAhead g ctx c = lookAhead (do
      let _ ← parameters g ctx
      let t ← token
      return t.kind == .punctuator .arrow && !t.afterLineBreak) c := by
  unfold isArrowAhead
  rw [kind_bind, h]
  rfl

lemma isArrowAhead_of_not (h : c.token.kind ≠ .punctuator .openParen) (g' : Grammar) :
    isArrowAhead g' ctx c = isArrowAhead g ctx c := by
  unfold isArrowAhead
  rw [kind_bind, kind_bind, if_neg h, if_neg h]

lemma isArrowAhead_cases (ctx : Context) (hle : n ≤ m) (hextends : ∀ k ≤ n, Extends k) (hc : c.AtToken) :
    isArrowAhead (level m) ctx c = isArrowAhead (level n) ctx c ∨ Misses ctx n m c := by
  by_cases hkind : c.token.kind = .punctuator .openParen
  swap
  · exact .inl (isArrowAhead_of_not hkind _)
  have hrefused : ∀ {k : Nat} {e : SyntaxError}, parameters (level k) ctx c = .fail (.refused e) →
      isArrowAhead (level k) ctx c = .ok false c := by
    intro k e hread
    rw [isArrowAhead_of_openParen hkind, lookAhead, bind_of_fail hread]
  have hunreadable : parameters (level m) ctx c = .fail .unreadable →
      isArrowAhead (level m) ctx c = .fail .unreadable := by
    intro hread
    rw [isArrowAhead_of_openParen hkind, lookAhead, bind_of_fail hread]
  rcases parameters_cases hle hextends hc with heq | ⟨⟨e, he⟩, ⟨e', he'⟩ | huseless⟩
  · left
    rw [isArrowAhead_of_openParen hkind, isArrowAhead_of_openParen hkind, lookAhead, lookAhead,
      bind_eq_of_eq heq]
  · exact .inl ((hrefused he').trans (hrefused he).symm)
  · refine .inr ⟨hkind, hrefused he, fun hk => ?_, fun hk => ?_⟩
    · exact (huseless _ hk).1.imp_right (And.imp_right hunreadable)
    · exact (huseless _ hk).2.imp_right (And.imp_right hunreadable)

lemma isAsyncArrowAhead_of_next? (hkind : c.token.kind = .contextual .kwAsync)
    (hnext : c.next? = some (c', none)) (hline : c'.token.afterLineBreak = false) :
    isAsyncArrowAhead g ctx c = lookAhead (fun _ => isArrowAhead g ctx c') c := by
  unfold isAsyncArrowAhead
  rw [isAt_bind, hkind, beq_self_eq_true, if_pos rfl]
  unfold lookAhead
  rw [bind_of_ok (advance_of_next? hnext), afterLineBreak_bind, hline]
  rfl

lemma isAsyncArrowAhead_cases (ctx : Context) (hle : n ≤ m) (hextends : ∀ k ≤ n, Extends k) :
    isAsyncArrowAhead (level m) ctx c = isAsyncArrowAhead (level n) ctx c ∨
      ∃ c', c.token.kind = .contextual .kwAsync ∧ c.next? = some (c', none) ∧
        c'.token.afterLineBreak = false ∧ Misses ctx n m c' := by
  by_cases hkind : c.token.kind = .contextual .kwAsync
  swap
  · left
    unfold isAsyncArrowAhead
    rw [isAt_bind, isAt_bind, beq_eq_false_iff_ne.2 hkind, if_neg (by simp), if_neg (by simp)]
  rcases hadvance : advance c with ⟨⟨⟩, c'⟩ | failure
  swap
  · left
    unfold isAsyncArrowAhead
    rw [isAt_bind, isAt_bind, hkind, beq_self_eq_true, if_pos rfl, if_pos rfl, lookAhead, lookAhead,
      bind_of_fail hadvance, bind_of_fail hadvance]
  have hnext : c.next? = some (c', none) := (Goes.advance.of_ok hadvance).2
  cases hline : c'.token.afterLineBreak with
  | true =>
    left
    unfold isAsyncArrowAhead
    rw [isAt_bind, isAt_bind, hkind, beq_self_eq_true, if_pos rfl, if_pos rfl, lookAhead, lookAhead,
      bind_of_ok hadvance, bind_of_ok hadvance, afterLineBreak_bind,
      afterLineBreak_bind, hline, if_pos rfl, if_pos rfl]
  | false =>
    rw [isAsyncArrowAhead_of_next? hkind hnext hline, isAsyncArrowAhead_of_next? hkind hnext hline]
    rcases isArrowAhead_cases ctx hle hextends (Cursor.atToken_of_next? hnext) with heq | hmisses
    · left
      rw [heq]
    · exact .inr ⟨c', hkind, hnext, hline, hmisses⟩

/-! ### What the lower level reads instead -/

lemma conditionalOrAssignment_of_fail {failure : ParseFailure} (h : g.unary ctx c = .fail failure) :
    conditionalOrAssignment g ctx c = .fail failure :=
  bind_of_fail (bind_of_fail (bind_of_fail h))

lemma unary_of_parenthesized {failure : ParseFailure} (hkind : c.token.kind = .punctuator .openParen)
    (h : parenthesized g ctx c = .fail failure) : g.above.unary ctx c = .fail failure := by
  have hplain : c.token.kind.IsPlain := by
    rw [hkind]
    exact ⟨rfl, rfl, by decide⟩
  have hprimary : ∀ heritage, primaryWith g ctx heritage c = .fail failure := by
    intro heritage
    unfold primaryWith
    rw [token_bind, hkind]
    exact h
  have hleft : leftHandSide g ctx c = .fail failure := by
    rw [leftHandSide_of_plain hplain, bind_of_fail (hprimary _)]
  change unaryExpression g ctx c = _
  rw [unaryExpression_of_plain hplain (by rw [hkind]; simp)]
  exact bind_of_fail hleft

lemma unary_of_arguments {failure : ParseFailure} (hkind : c.token.kind = .contextual .kwAsync)
    (hnext : c.next? = some (c', none)) (hparen : c'.token.kind = .punctuator .openParen)
    (h : arguments g ctx c' = .fail failure) : g.above.unary ctx c = .fail failure := by
  have hplain : c.token.kind.IsPlain := by
    rw [hkind]
    exact ⟨rfl, rfl, by decide⟩
  have hfunction : isFunctionAhead c = .ok false c := by
    unfold isFunctionAhead
    rw [bind_of_ok (peek_of_next? hnext), hparen]
    rfl
  have hprimary : ∀ heritage, primaryWith g ctx heritage c = .ok (.identifier c.token.value) c' := by
    intro heritage
    unfold primaryWith
    rw [token_bind, hkind]
    dsimp only
    rw [bind_of_ok hfunction]
    exact namedTarget_of_next? (by rw [hkind]; rfl) hnext
  have hlinks : ∀ owner, links g ctx true owner c' = .fail failure := by
    intro owner
    have hlink : link g ctx true owner c' = .fail failure := by
      unfold link
      rw [kind_bind, hparen]
      exact bind_of_fail h
    exact bind_of_fail hlink
  have hleft : leftHandSide g ctx c = .fail failure := by
    rw [leftHandSide_of_plain hplain, bind_of_ok (hprimary _), hlinks]
  change unaryExpression g ctx c = _
  rw [unaryExpression_of_plain hplain (by rw [hkind]; simp)]
  exact bind_of_fail hleft

/-! ### Assignments on two levels -/

section

variable (hyield : (c.token.kind == .contextual .kwYield && ctx.inGenerator) = false)

include hyield

lemma assignmentExpression_eq : assignmentExpression g ctx c = (arrowFunction? g ctx >>= fun found =>
    found.elim (conditionalOrAssignment g ctx) Pure.pure) c := by
  unfold assignmentExpression
  rw [isAt_bind, hyield, if_neg (by simp)]
  refine congrFun (congrArg (arrowFunction? g ctx >>= ·) (funext fun found => ?_)) c
  cases found <;> rfl

lemma assignmentExpression_of_async (hasync : isAsyncArrowAhead g ctx c = .ok true c) :
    assignmentExpression g ctx c = (advance >>= fun _ => arrowFunction g ctx true) c := by
  rw [assignmentExpression_eq hyield]
  unfold arrowFunction?
  rw [bind_assoc, bind_of_ok hasync, if_pos rfl, bind_assoc]
  refine congrFun (congrArg (advance >>= ·) (funext fun _ => ?_)) c
  rw [bind_assoc]
  exact bind_pure _

lemma assignmentExpression_of_arrow (hasync : isAsyncArrowAhead g ctx c = .ok false c)
    (harrow : isArrowAhead g ctx c = .ok true c) :
    assignmentExpression g ctx c = arrowFunction g ctx false c := by
  rw [assignmentExpression_eq hyield]
  unfold arrowFunction?
  rw [bind_assoc, bind_of_ok hasync, if_neg (by simp), bind_assoc, bind_of_ok harrow, if_pos rfl,
    bind_assoc]
  exact congrFun (bind_pure _) c

lemma assignmentExpression_of_none (hasync : isAsyncArrowAhead g ctx c = .ok false c)
    (harrow : isArrowAhead g ctx c = .ok false c) :
    assignmentExpression g ctx c = conditionalOrAssignment g ctx c := by
  rw [assignmentExpression_eq hyield]
  unfold arrowFunction?
  rw [bind_assoc, bind_of_ok hasync, if_neg (by simp), bind_assoc, bind_of_ok harrow]
  rfl

lemma assignmentExpression_of_asyncFail {failure : ParseFailure}
    (hasync : isAsyncArrowAhead g ctx c = .fail failure) :
    assignmentExpression g ctx c = .fail failure := by
  rw [assignmentExpression_eq hyield]
  unfold arrowFunction?
  rw [bind_assoc, bind_of_fail hasync]

lemma assignmentExpression_of_arrowFail {failure : ParseFailure}
    (hasync : isAsyncArrowAhead g ctx c = .ok false c) (harrow : isArrowAhead g ctx c = .fail failure) :
    assignmentExpression g ctx c = .fail failure := by
  rw [assignmentExpression_eq hyield]
  unfold arrowFunction?
  rw [bind_assoc, bind_of_ok hasync, if_neg (by simp), bind_assoc, bind_of_fail harrow]

end

/-- The lower level has missed an arrow function: what it reads instead is refused, or cannot be
read on the higher level either. -/
lemma conditionalOrAssignment_of_misses (hlow : ∀ k, n = k + 1 →
      ((level n).unary ctx c).IsRefused ∨
        (level n).unary ctx c = .fail .unreadable ∧
          assignmentExpression (level m) ctx c = .fail .unreadable) :
    assignmentExpression (level m) ctx c = conditionalOrAssignment (level n) ctx c ∨
      (conditionalOrAssignment (level n) ctx c).IsRefused := by
  cases n with
  | zero => exact .inr ⟨_, conditionalOrAssignment_of_fail rfl⟩
  | succ k =>
    rcases hlow k rfl with ⟨e, he⟩ | ⟨hlow, hhigh⟩
    · exact .inr ⟨e, conditionalOrAssignment_of_fail he⟩
    · exact .inl (hhigh.trans (conditionalOrAssignment_of_fail hlow).symm)

lemma assignmentExpression_cases (ctx : Context) (hle : n ≤ m) (hextends : ∀ k ≤ n, Extends k) (hc : c.AtToken) :
    assignmentExpression (level m) ctx c = assignmentExpression (level n) ctx c ∨
      (assignmentExpression (level n) ctx c).IsRefused := by
  have hh := hextends n (Nat.le_refl n) m hle
  have hn := advancing_level n
  have hm := advancing_level m
  cases hyield : c.token.kind == .contextual .kwYield && ctx.inGenerator with
  | true =>
    have heq : ∀ k, assignmentExpression (level k) ctx c = yielding (level k) ctx c := by
      intro k
      unfold assignmentExpression
      rw [isAt_bind, hyield, if_pos rfl]
    have hkind : c.token.kind.CanClose := by
      constructor <;> intro hkind <;> rw [hkind] at hyield <;> cases hyield
    rw [heq, heq]
    exact eq_or_refused (corresponds_yielding hh ctx) hc
      (closesAt_yielding hn ctx hc hkind).ne_stalled (closesAt_yielding hm ctx hc hkind).ne_stalled
  | false =>
  rcases isAsyncArrowAhead_cases ctx (c := c) hle hextends with
    hasync | ⟨c', hkind, hnext, hline, hmisses⟩
  swap
  · have hasyncLow : isAsyncArrowAhead (level n) ctx c = .ok false c := by
      rw [isAsyncArrowAhead_of_next? hkind hnext hline]
      unfold lookAhead
      rw [hmisses.low]
    have harrowLow : isArrowAhead (level n) ctx c = .ok false c := by
      unfold isArrowAhead
      rw [kind_bind, if_pos (by rw [hkind]; rfl), bind_of_ok (peek_of_next? hnext),
        hmisses.kind]
      rfl
    rw [assignmentExpression_of_none hyield hasyncLow harrowLow]
    refine conditionalOrAssignment_of_misses ?_
    rintro k rfl
    rcases hmisses.arguments rfl with ⟨e, he⟩ | ⟨hlow, hhigh⟩
    · exact .inl ⟨e, unary_of_arguments hkind hnext hmisses.kind he⟩
    · refine .inr ⟨unary_of_arguments hkind hnext hmisses.kind hlow, ?_⟩
      apply assignmentExpression_of_asyncFail hyield
      rw [isAsyncArrowAhead_of_next? hkind hnext hline]
      unfold lookAhead
      rw [hhigh]
  rcases isArrowAhead_cases ctx hle hextends hc with harrow | hmisses
  swap
  · have hasyncNot : ∀ g, isAsyncArrowAhead g ctx c = .ok false c := by
      intro g
      unfold isAsyncArrowAhead
      rw [isAt_bind, hmisses.kind]
      rfl
    rw [assignmentExpression_of_none hyield (hasyncNot _) hmisses.low]
    refine conditionalOrAssignment_of_misses ?_
    rintro k rfl
    rcases hmisses.parenthesized rfl with ⟨e, he⟩ | ⟨hlow, hhigh⟩
    · exact .inl ⟨e, unary_of_parenthesized hmisses.kind he⟩
    · exact .inr ⟨unary_of_parenthesized hmisses.kind hlow,
        assignmentExpression_of_arrowFail hyield (hasyncNot _) hhigh⟩
  -- Both levels decide alike.
  rcases stays_isAsyncArrowAhead (g := level n) ctx c with ⟨answer, hanswer⟩ | ⟨failure, hfail, _⟩
  swap
  · rw [assignmentExpression_of_asyncFail hyield hfail,
      assignmentExpression_of_asyncFail hyield (hasync.trans hfail)]
    exact .inl rfl
  cases answer with
  | true =>
    rw [assignmentExpression_of_async hyield hanswer,
      assignmentExpression_of_async hyield (hasync.trans hanswer)]
    have hfollows : ∀ {g : Grammar}, g.Advancing →
        Follows (advance >>= fun _ => arrowFunction g ctx true) := fun hg =>
      Follows.advance.bind fun _ => (closes_arrowFunction hg ctx true).follows
    exact eq_or_refused (Corresponds.advance.bind fun _ =>
      corresponds_arrowFunction hh ctx true) hc (hfollows hn c hc).ne_stalled
      (hfollows hm c hc).ne_stalled
  | false =>
  rcases stays_isArrowAhead (g := level n) ctx c with ⟨answer, hanswer'⟩ | ⟨failure, hfail, _⟩
  swap
  · rw [assignmentExpression_of_arrowFail hyield hanswer hfail,
      assignmentExpression_of_arrowFail hyield (hasync.trans hanswer) (harrow.trans hfail)]
    exact .inl rfl
  cases answer with
  | true =>
    rw [assignmentExpression_of_arrow hyield hanswer hanswer',
      assignmentExpression_of_arrow hyield (hasync.trans hanswer) (harrow.trans hanswer')]
    exact eq_or_refused (corresponds_arrowFunction hh ctx false) hc
      (closes_arrowFunction hn ctx false c hc).ne_stalled
      (closes_arrowFunction hm ctx false c hc).ne_stalled
  | false =>
    rw [assignmentExpression_of_none hyield hanswer hanswer',
      assignmentExpression_of_none hyield (hasync.trans hanswer) (harrow.trans hanswer')]
    exact eq_or_refused (corresponds_conditionalOrAssignment hh ctx) hc
      (closes_conditionalOrAssignment hn ctx c hc).ne_stalled
      (closes_conditionalOrAssignment hm ctx c hc).ne_stalled

/-- More levels read what fewer levels read. -/
theorem extends_level (n : Nat) : Extends n := by
  induction n using Nat.strongRecOn with
  | ind n ih =>
    cases n with
    | zero => exact extends_zero
    | succ n =>
      have hextends : ∀ k ≤ n, Extends k := fun k hk => ih k (by omega)
      intro m hm
      obtain ⟨m, rfl⟩ : ∃ m', m = m' + 1 := ⟨m - 1, by omega⟩
      refine Corresponding.above (hextends n (Nat.le_refl n) m (by omega)) fun ctx => ?_
      refine same_corresponds fun c hc => ?_
      have hfollows := (closes_assignmentExpression (advancing_level n) ctx).follows
      rcases assignmentExpression_cases ctx (by omega : n ≤ m) hextends hc with heq | ⟨e, he⟩
      · rw [heq]
        exact same_agree fun a c' hok => (hc.follows ((hfollows c hc).of_ok hok).1).atToken
      · rw [he]
        exact .lost trivial (same_lostRight _)

end Grammar

/-! ### What another level reads -/

namespace Parse

variable {α β : Type} {strict : Prop} {p q : Parse α} {c c' c'' : Cursor} {a : α} {b : β}

/-- The reading comes to a value, unless it is refused, which `strict` rules out. -/
def Comes (strict : Prop) (p : Parse α) (c : Cursor) (a : α) (c' : Cursor) : Prop :=
  p c = .ok a c' ∨ ¬ strict ∧ (p c).IsRefused

namespace Comes

lemma of_ok (h : p c = .ok a c') : Comes strict p c a c' := .inl h

lemma pure (a : α) (c : Cursor) : Comes strict (Pure.pure a) c a c := .of_ok rfl

lemma bind {f : α → Parse β} (h : Comes strict p c a c') (hf : Comes strict (f a) c' b c'') :
    Comes strict (p >>= f) c b c'' := by
  rcases h with h | ⟨hs, e, he⟩
  · unfold Comes
    rwa [bind_of_ok h]
  · exact .inr ⟨hs, e, bind_of_fail he⟩

lemma congr (h : Comes strict p c a c') (heq : q c = p c) : Comes strict q c a c' := by
  unfold Comes
  rwa [heq]

lemma mono {strict' : Prop} (h : Comes strict p c a c') (hs : strict' → strict) :
    Comes strict' p c a c' :=
  h.imp_right fun ⟨hnot, hrefused⟩ => ⟨fun hs' => hnot (hs hs'), hrefused⟩

end Comes

end Parse

namespace Grammar

open Parse Likeness

variable {α : Type} {c c' : Cursor}

/-- What one level reads, another one reads too, or it is refused for being lower. -/
lemma comes_of_levels {p : Nat → Parse α} (hp : ∀ n m, n ≤ m → same.Corresponds (p n) (p m))
    (hends : ∀ n, p n c ≠ .fail .stalled) (hc : c.AtToken) {n : Nat} {a : α} (h : p n c = .ok a c')
    (m : Nat) : Comes (n ≤ m) (p m) c a c' := by
  rcases Nat.le_total n m with hle | hle
  · rcases eq_or_refused (hp n m hle) hc (hends n) (hends m) with heq | ⟨e, he⟩
    · exact .inl (heq.trans h)
    · cases h.symm.trans he
  · rcases eq_or_refused (hp m n hle) hc (hends m) (hends n) with heq | ⟨e, he⟩
    · exact .inl (heq.symm.trans h)
    · by_cases heq : n ≤ m
      · obtain rfl : n = m := Nat.le_antisymm heq hle
        exact .inl h
      · exact .inr ⟨heq, e, he⟩

end Grammar

end BindingProxy
