import BindingProxy.Proofs.Grammar.Mirror
import BindingProxy.Proofs.Grammar.Progress
import Mathlib.Data.List.Forall2

/-!
# Literals that cover patterns

The brackets of a literal take two levels where those of a pattern take one, but apart from that a
literal is read wherever a pattern is, and turning it into a target gives the pattern.
-/

namespace BindingProxy

namespace Node

/-- What a declared target can be. -/
def IsTarget : Node → Prop
  | .identifier _ | .arrayPattern _ | .objectPattern _ => True
  | _ => False

/-- An element of a literal that becomes an element of a pattern: a target, or an assignment for a
target with a default. -/
def Covers (x b : Node) : Prop :=
  (x.toTarget = .ok b ∧ b.IsTarget) ∨ ∃ target value,
    x = .assignment .assign target value ∧ b = .defaulted target value

/-- The element, if any, in a place of an array. -/
def CoversPlace : Option Node → Option Node → Prop
  | none, none => True
  | some x, some b => x.Covers b
  | _, _ => False

end Node

/-- The tokens with which a pattern can go on after a name. -/
def TokenKind.GoesOnPattern : TokenKind → Bool
  | .punctuator .comma | .punctuator .closeParen | .punctuator .closeBracket | .punctuator .closeBrace
  | .punctuator .colon | .punctuator .assign => true
  | _ => false

lemma TokenKind.IsClosing.goesOnPattern {k : TokenKind} (h : k.IsClosing) : k.GoesOnPattern = true := by
  rcases h with rfl | rfl | rfl | rfl <;> rfl

/-- Tokens between which and after which a pattern has its elements, and with which no expression
begins. -/
def TokenKind.BeginsNothing : TokenKind → Bool
  | .punctuator .comma | .punctuator .closeParen | .punctuator .closeBracket | .punctuator .closeBrace
  | .punctuator .assign | .punctuator .ellipsis => true
  | _ => false

variable {x b : Node} {xs bs : List (Option Node)}

lemma elementTargets_cons (h : x.Covers b) :
    elementTargets (some x :: xs) = (elementTargets xs).map (some b :: ·) := by
  rcases h with ⟨h, _⟩ | ⟨target, value, rfl, rfl⟩
  · rw [elementTargets.eq_def (some x :: xs)]
    split
    · next heq => cases heq
    · next heq => cases heq
    · next heq =>
      cases heq
      cases h
    · next heq =>
      cases heq
      cases h
    · next heq =>
      cases heq
      rw [h]
      cases elementTargets xs <;> rfl
  · rw [elementTargets]

lemma elementTargets_append (h : List.Forall₂ Node.CoversPlace xs bs) (ys : List (Option Node)) :
    elementTargets (xs ++ ys) = (elementTargets ys).map (bs ++ ·) := by
  induction h with
  | nil =>
    rw [List.nil_append]
    cases elementTargets ys <;> rfl
  | @cons place place' xs bs hplace _ ih =>
    cases place with
    | none =>
      cases place' with
      | none =>
        rw [List.cons_append, elementTargets, ih]
        cases elementTargets ys <;> rfl
      | some _ => exact hplace.elim
    | some x =>
      cases place' with
      | none => exact hplace.elim
      | some b =>
        rw [List.cons_append, elementTargets_cons hplace, ih]
        cases elementTargets ys <;> rfl

/-- A member of an object literal that becomes a member of a pattern. -/
inductive Node.CoversMember : Node → Node → Prop
  | property {key x b : Node} {computed : Bool} (h : x.Covers b) :
      CoversMember (.property key x .init computed false false)
        (.property key b .init computed false false)
  | shorthand (name : String) : CoversMember
      (.property (.identifier name) (.identifier name) .init false true false)
      (.property (.identifier name) (.identifier name) .init false true false)
  | defaulted (name : String) (value : Node) : CoversMember
      (.property (.identifier name) (.defaulted (.identifier name) value) .init false true false)
      (.property (.identifier name) (.defaulted (.identifier name) value) .init false true false)

lemma memberTargets_cons_of_toTarget {key : Node} {computed shorthand : Bool} {ms : List Node}
    (h : x.toTarget = .ok b) :
    memberTargets (.property key x .init computed shorthand false :: ms) =
      (memberTargets ms).map (.property key b .init computed shorthand false :: ·) := by
  rw [memberTargets.eq_def (_ :: ms)]
  split
  · next heq => cases heq
  · next heq => cases heq
  · next heq =>
    cases heq
    cases h
  · next heq =>
    cases heq
    rw [h]
    cases memberTargets ms <;> rfl
  · next hother heq =>
    cases heq
    exact (hother _ _ _ _ rfl).elim

lemma memberTargets_cons {m m' : Node} {ms : List Node} (h : m.CoversMember m') :
    memberTargets (m :: ms) = (memberTargets ms).map (m' :: ·) := by
  cases h with
  | property h =>
    rcases h with ⟨h, _⟩ | ⟨target, value, rfl, rfl⟩
    · exact memberTargets_cons_of_toTarget h
    · rw [memberTargets]
  | shorthand name => exact memberTargets_cons_of_toTarget rfl
  | defaulted name value => exact memberTargets_cons_of_toTarget rfl

lemma memberTargets_append {ms ms' : List Node} (h : List.Forall₂ Node.CoversMember ms ms')
    (ys : List Node) : memberTargets (ms ++ ys) = (memberTargets ys).map (ms' ++ ·) := by
  induction h with
  | nil =>
    rw [List.nil_append]
    cases memberTargets ys <;> rfl
  | cons hm _ ih =>
    rw [List.cons_append, memberTargets_cons hm, ih]
    cases memberTargets ys <;> rfl

/-! ### Reading -/

namespace Grammar

open Parse

/-- How a grammar of patterns, one of expressions and again one of patterns are related in a
context: elements with their defaults, rest elements, single names, and keys that are computed. -/
structure Mirroring (strict : Prop) (ctx : Context) (high low again : Grammar) : Prop where
  context : ctx.allowIn = ctx
  element {c : Cursor} (hc : c.AtToken) :
    Mirror strict AtAssign (fun _ c' => c'.token.kind.IsClosing)
      (fun b x => ctx.inGenerator = false → x.Covers b) (bindingElement high ctx c)
      (low.assignment ctx c) (bindingElement again ctx c)
  rest {c : Cursor} (hc : c.AtToken) :
    Mirror strict NoEnd (fun _ c' => c'.token.kind.IsClosing)
      (fun b x => ctx.inGenerator = false → x.toTarget = .ok b) (high.target ctx c)
      (low.assignment ctx c) (again.target ctx c)
  name {c : Cursor} (hc : c.AtToken) :
    Mirror strict NoEnd (fun _ c' => c'.token.kind.IsClosing)
      (fun n x => ctx.inGenerator = false → x.toTarget = .ok (.identifier n)) (Parse.name c)
      (low.assignment ctx c) (Parse.name c)
  key {c : Cursor} (hc : c.AtToken) :
    Mirror strict NoEnd (fun _ _ => True) Eq (high.assignment ctx c) (low.assignment ctx c)
      (again.assignment ctx c)
  refuses {c : Cursor} (hkind : c.token.kind.BeginsNothing = true) :
    (low.assignment ctx c).IsRefused ∧ (low.unary ctx c).IsRefused

variable {strict : Prop} {ctx : Context} {high low again : Grammar}
  (hm : Mirroring strict ctx high low again) {c : Cursor}

include hm

/-- An element or a rest element in its turn. -/
lemma mirror_element {σ τ ρ ρ' : Type} {close : TokenKind} {I : σ → τ → Prop} {R : ρ → ρ' → Prop}
    {s : Node → σ} {t : Node → τ} {d e : Node → ρ} {d' : Node → ρ'} (hc : c.AtToken)
    (hclose : close.IsClosing ∧ close ≠ .punctuator .comma)
    (hI : ∀ b x, (ctx.inGenerator = false → x.Covers b) → I (s b) (t x))
    (hR : ∀ b x, (ctx.inGenerator = false → x.Covers b) → R (d b) (d' x))
    (hrest : ∀ b x, (ctx.inGenerator = false → x.toTarget = .ok b) → R (e b) (d' (.spread x))) :
    Mirror strict Turn.Stuck (Turn.EndsAt close) (Turn.Related I R)
      ((do
        if ← accept .ellipsis then return Turn.done (e (← high.target ctx))
        let b ← bindingElement high ctx
        if ← accept .comma then return Turn.again (s b) else return Turn.done (d b) : Parse _) c)
      ((do
        let x ← spreadOrAssignment low ctx
        if ← accept .comma then return Turn.again (t x) else return Turn.done (d' x) : Parse _) c)
      ((do
        if ← accept .ellipsis then return Turn.done (e (← again.target ctx))
        let b ← bindingElement again ctx
        if ← accept .comma then return Turn.again (s b) else return Turn.done (d b) : Parse _) c) := by
  rw [spreadOrAssignment, bind_assoc]
  refine .sameThen (.accept _) hc fun atEllipsis c1 hc1 _ => ?_
  cases atEllipsis with
  | true =>
    rw [if_pos rfl, if_pos rfl, if_pos rfl, bind_assoc]
    refine (hm.rest hc1).bind (fun b x c2 hc2 _ hx => ?_) fun b c2 _ _ h => ?_
    · exact mirror_doneComma hc2 hclose.2 (hrest b x hx)
    · exact .unwanted fun hkind => h (hkind ▸ hclose.1)
  | false => exact (hm.element hc1).thenComma hclose.1 hI hR

/-- An array literal that covers an array pattern. -/
lemma mirror_array (hc : c.AtToken) :
    Mirror strict NoEnd (fun _ _ => True)
      (fun b x => ctx.inGenerator = false → x.toTarget = .ok b ∧ b.IsTarget)
      (arrayPattern high ctx c) (arrayLiteral low ctx c) (arrayPattern again ctx c) := by
  unfold arrayPattern arrayLiteral
  rw [hm.context]
  refine .sameThen (.expect _) hc fun _ c1 hc1 _ => ?_
  refine .thenExpect (mirror_repeatFrom (.punctuator .closeBracket)
    (fun found found' => ctx.inGenerator = false → List.Forall₂ Node.CoversPlace found' found)
    (fun elements elements' => ctx.inGenerator = false → elementTargets elements' = .ok elements)
    (fun found found' c hc hfound => ?_) hc1 fun _ => .nil) (by decide) fun elements elements' h hplain => ?_
  swap
  · refine ⟨?_, trivial⟩
    rw [Node.toTarget, h hplain]
    rfl
  have hreverse : ctx.inGenerator = false → ∀ ys,
      elementTargets (found'.reverse ++ ys) = (elementTargets ys).map (found.reverse ++ ·) :=
    fun hplain => elementTargets_append (List.forall₂_reverse_iff.2 (hfound hplain))
  refine .sameThen (.isAt _) hc fun atClose c1 hc1 _ => ?_
  cases atClose with
  | true =>
    refine .ok hc1 fun _ hplain => ?_
    simpa [elementTargets, Except.map] using hreverse hplain []
  | false =>
  refine .sameThen (.accept _) hc1 fun atComma c2 hc2 _ => ?_
  cases atComma with
  | true => exact .ok hc2 fun _ hplain => .cons trivial (hfound hplain)
  | false =>
  refine mirror_element hm hc2 ⟨.inr (.inr (.inl rfl)), by decide⟩ (fun b x hx hplain => ?_)
    (fun b x hx hplain => ?_) fun b x hx hplain => ?_
  · exact .cons (hx hplain) (hfound hplain)
  · rw [List.reverse_cons, List.reverse_cons, hreverse hplain, elementTargets_cons (hx hplain)]
    rfl
  · rw [List.reverse_cons, List.reverse_cons, hreverse hplain, elementTargets, hx hplain]
    rfl

/-- The arguments of a call that look like parameters. -/
lemma mirror_arguments (hc : c.AtToken) :
    Mirror strict NoEnd (fun _ _ => True) (fun _ _ => True) (parameters high ctx c) (arguments low ctx c)
      (parameters again ctx c) := by
  unfold parameters arguments
  rw [hm.context]
  refine .sameThen (.expect _) hc fun _ c1 hc1 _ => ?_
  refine .thenExpect (mirror_repeatFrom (.punctuator .closeParen) (fun _ _ => True) (fun _ _ => True)
    (fun found found' c hc _ => ?_) hc1 trivial) (by decide) fun _ _ h => h
  refine .sameThen (.isAt _) hc fun atClose c1 hc1 _ => ?_
  cases atClose with
  | true => exact .ok hc1 fun _ => trivial
  | false =>
    refine mirror_element hm hc1 ⟨.inr (.inl rfl), by decide⟩ (fun _ _ _ => ?_) (fun _ _ _ => ?_)
      fun _ _ _ => ?_ <;> trivial

/-! ### Parentheses

A turn of the parameters ends after a comma and one of the expressions in parentheses before it, so
the two lists are compared from where an element begins. -/

omit hm in
/-- Parameters, with a bound on their number. -/
def parametersWithin (g : Grammar) (ctx : Context) (bound : List Char) (found : List Node) :
    Parse (List Node) := do
  let params ← repeatWithin (fun found => do
    if ← isAt (.punctuator .closeParen) then return .done found.reverse
    if ← accept .ellipsis then return .done (.rest (← g.target ctx) :: found).reverse
    let found := (← bindingElement g ctx) :: found
    if ← accept .comma then return .again found else return .done found.reverse) bound found
  expect .closeParen
  return params

omit hm in
/-- The expressions in parentheses after the first one, with a bound on their number. -/
def expressionsWithin (g : Grammar) (ctx : Context) (bound : List Char) (found : List Node) :
    Parse Node := do
  let expressions ← repeatWithin (fun found => do
    if ← accept .comma then return .again ((← g.assignment ctx) :: found)
    else return .done found.reverse) bound found
  expect .closeParen
  return .sequence expressions

omit hm in
lemma parametersWithin_cons (g : Grammar) (x : Char) (bound : List Char) (found : List Node)
    (hclose : c.token.kind ≠ .punctuator .closeParen)
    (hellipsis : c.token.kind ≠ .punctuator .ellipsis) :
    parametersWithin g ctx (x :: bound) found c =
      (bindingElement g ctx >>= fun b => accept .comma >>= fun more =>
        if more then parametersWithin g ctx bound (b :: found)
        else expect .closeParen >>= fun _ => Pure.pure (b :: found).reverse) c := by
  unfold parametersWithin
  rw [repeatWithin, bind_assoc, bind_assoc, isAt_bind, beq_eq_false_iff_ne.2 hclose, if_neg (by simp),
    bind_assoc, accept_bind_of_not hellipsis, if_neg (by simp), bind_assoc]
  refine congrFun (congrArg (bindingElement g ctx >>= ·) (funext fun b => ?_)) c
  refine (bind_assoc _ _ _).trans (congrArg (accept .comma >>= ·) (funext fun more => ?_))
  cases more <;> rfl

omit hm in
lemma expressionsWithin_cons (g : Grammar) (x : Char) (bound : List Char) (found : List Node) :
    expressionsWithin g ctx (x :: bound) found =
      accept .comma >>= fun more =>
        if more then g.assignment ctx >>= fun x => expressionsWithin g ctx bound (x :: found)
        else expect .closeParen >>= fun _ => Pure.pure (.sequence found.reverse) := by
  unfold expressionsWithin
  rw [repeatWithin, bind_assoc, bind_assoc]
  congr 1
  funext more
  cases more
  · rfl
  · rw [if_pos rfl, if_pos rfl, bind_assoc]
    rfl

omit hm in
/-- One element of the two lists, with what follows it. -/
lemma mirror_listed (hm : Mirroring False ctx high low again) (x : Char) {bound : List Char}
    {found : List Node} {k : Node → Parse Node} (hc : c.AtToken)
    (hdone : ∀ y c', c'.token.kind ≠ .punctuator .comma → k y c' = .fail .stalled ∨
      ∃ z, k y c' = (expect .closeParen >>= fun _ => Pure.pure z) c')
    (hmore : ∀ b y c', c'.AtToken → c'.token.kind = .punctuator .comma →
      Mirror False NoEnd (fun _ _ => True) (fun _ _ => True)
        ((advance >>= fun _ => parametersWithin high ctx bound (b :: found)) c') (k y c')
        ((advance >>= fun _ => parametersWithin again ctx bound (b :: found)) c')) :
    Mirror False NoEnd (fun _ _ => True) (fun _ _ => True) (parametersWithin high ctx (x :: bound) found c)
      ((low.assignment ctx >>= k) c) (parametersWithin again ctx (x :: bound) found c) := by
  by_cases hends : c.token.kind = .punctuator .closeParen ∨ c.token.kind = .punctuator .ellipsis
  · obtain ⟨e, he⟩ := (hm.refuses (by rcases hends with h | h <;> rw [h] <;> rfl)).1
    exact .of_low (.inr ⟨id, .inl ⟨e, bind_of_fail he⟩⟩)
  rw [not_or] at hends
  rw [parametersWithin_cons _ _ _ _ hends.1 hends.2, parametersWithin_cons _ _ _ _ hends.1 hends.2]
  refine (hm.element hc).bindDead (fun b y c' hc' _ _ => ?_) (fun b c' _ _ h => ?_)
    fun y c' hdead hstrict => ?_
  · by_cases hcomma : c'.token.kind = .punctuator .comma
    · rw [accept_bind_of_at hcomma, accept_bind_of_at hcomma]
      exact hmore b y c' hc' hcomma
    · rcases hdone y c' hcomma with hstalled | ⟨z, hz⟩
      · exact .of_low (.inl hstalled)
      · rw [accept_bind_of_not hcomma, accept_bind_of_not hcomma, hz]
        exact .sameThen (.expect _) hc' fun _ _ hc'' _ => .ok hc'' fun _ => trivial
  · rw [accept_bind_of_not fun hkind => h (.inl hkind)]
    exact .of_refused ⟨_, bind_of_fail (expect_of_not fun hkind => h (.inr (.inl hkind)))⟩
  · rcases hdone y c' (by rw [hdead]; decide) with hstalled | ⟨z, hz⟩
    · exact .inl hstalled
    · rw [hz]
      exact .inr ⟨hstrict, .inl ⟨_, bind_of_fail (expect_of_not (by rw [hdead]; decide))⟩⟩

omit hm in
lemma mirror_within (hm : Mirroring False ctx high low again) (bound bound' : List Char)
    (found found' : List Node) (hc : c.AtToken) :
    Mirror False NoEnd (fun _ _ => True) (fun _ _ => True) (parametersWithin high ctx bound found c)
      ((low.assignment ctx >>= fun x => expressionsWithin low ctx bound' (x :: found')) c)
      (parametersWithin again ctx bound found c) := by
  induction bound generalizing bound' found found' c with
  | nil => trivial
  | cons x bound ih =>
    cases bound' with
    | nil => exact mirror_listed hm x hc (fun _ _ _ => .inl rfl) fun _ _ _ _ _ => .of_low (.inl rfl)
    | cons x' bound' =>
      refine mirror_listed hm x hc (fun y c' hcomma => .inr ⟨.sequence (y :: found').reverse, ?_⟩)
        fun b y c' hc' hcomma => ?_
      · rw [expressionsWithin_cons, accept_bind_of_not hcomma]
        rfl
      · rw [expressionsWithin_cons, accept_bind_of_at hcomma]
        exact .sameThen .advance hc' fun _ c'' hc'' _ => ih _ _ _ hc''

omit hm in
/-- Parentheses that cover parameters. -/
lemma mirror_parenthesized (hm : Mirroring False ctx high low again) (hc : c.AtToken) :
    Mirror False NoEnd (fun _ _ => True) (fun _ _ => True) (parameters high ctx c)
      (parenthesized low ctx c) (parameters again ctx c) := by
  have hparameters : ∀ g, parameters g ctx = expect .openParen >>= fun _ => fun c =>
      parametersWithin g ctx (tokenBound c) [] c := by
    intro g
    unfold parameters
    rw [hm.context]
    rfl
  rw [hparameters, hparameters]
  unfold parenthesized expression
  rw [hm.context]
  refine .sameThen (.expect _) hc fun _ c1 hc1 _ => ?_
  rw [bind_assoc]
  refine mirror_listed hm _ hc1 (fun y c' hcomma => .inr ⟨y, ?_⟩) fun b y c' hc' hcomma => ?_
  · rw [bind_assoc, isAt_bind, beq_eq_false_iff_ne.2 hcomma]
    rfl
  · rw [bind_assoc, isAt_bind, hcomma, beq_self_eq_true, if_pos rfl, bind_assoc]
    change Mirror False _ _ _ _ (expressionsWithin low ctx (tokenBound c') [y] c') _
    rw [tokenBound, expressionsWithin_cons, accept_bind_of_at hcomma]
    exact .sameThen .advance hc' fun _ c'' hc'' _ => mirror_within hm _ _ _ _ hc''

/-! ### Members -/

lemma mirror_propertyKey (hc : c.AtToken) :
    Mirror strict NoEnd (fun _ _ => True) Eq (propertyKey high ctx c) (propertyKey low ctx c)
      (propertyKey again ctx c) := by
  unfold propertyKey
  rw [hm.context]
  refine .sameThen .kind hc fun k c1 hc1 _ => ?_
  have hliteral : ∀ kind, Follows (literalToken kind) := fun _ =>
    Follows.token.bind fun _ => Follows.advance.thenPure
  split
  · exact .same (hliteral _).thenPure hc1
  · exact .same (hliteral _).thenPure hc1
  · refine .sameThen .advance hc1 fun _ c2 hc2 _ => ?_
    refine (hm.key hc2).bind (fun key key' c3 hc3 _ h => ?_) fun _ _ _ _ h => absurd trivial h
    subst h
    exact .sameThen (.expect _) hc3 fun _ c4 hc4 _ => .ok hc4 fun _ => rfl
  · exact .same (.ite advances_word.follows.thenPure .reject) hc1

omit hm in
/-- What a word before a key is: no modifier; or a word after which nothing can be read; or a word
that is followed by something which no member of a pattern goes on with. -/
lemma acceptModifier_cases (w : ContextualWord) (c : Cursor) :
    acceptModifier w c = .ok false c ∨
      (∃ w', c.token.kind = .contextual w' ∧ c.next? = none ∧
        acceptModifier w c = .fail .unreadable) ∨
      ∃ w' reached, c.token.kind = .contextual w' ∧ c.next? = some reached ∧
        reached.1.token.kind.GoesOnPattern = false := by
  by_cases hkind : c.token.kind = .contextual w
  swap
  · refine .inl ?_
    unfold acceptModifier
    rw [isAt_bind, beq_eq_false_iff_ne.2 hkind]
    rfl
  have hat : ∀ {f : Bool → Parse Bool}, (isAt (.contextual w) >>= f) c = f true c := by
    intro f
    rw [isAt_bind, hkind, beq_self_eq_true]
  cases hnext : c.next? with
  | none =>
    refine .inr (.inl ⟨w, hkind, rfl, ?_⟩)
    unfold acceptModifier
    rw [hat]
    have hpeek : peek c = .fail .unreadable := by rw [peek, hnext]
    exact bind_of_fail (bind_of_fail hpeek)
  | some reached =>
    have hpeek : peek c = .ok reached.1.token c := by rw [peek, hnext]
    have hmodifier : isModifier c = .ok (!reached.1.token.afterLineBreak &&
        (reached.1.token.kind.isWord || reached.1.token.kind == .string ||
          reached.1.token.kind == .number || reached.1.token.kind == .punctuator .openBracket ||
          reached.1.token.kind == .punctuator .star)) c := bind_of_ok hpeek
    generalize hanswer : (!reached.1.token.afterLineBreak && _) = answer at hmodifier
    cases answer with
    | false =>
      refine .inl ?_
      unfold acceptModifier
      rw [hat, if_pos rfl, bind_of_ok hmodifier]
      rfl
    | true =>
      refine .inr (.inr ⟨w, reached, hkind, rfl, ?_⟩)
      unfold TokenKind.GoesOnPattern
      split
      all_goals first
        | rfl
        | next heq =>
          rw [heq] at hanswer
          simp [TokenKind.isWord] at hanswer

omit hm in
lemma modifiers_cases (c : Cursor) :
    modifiers c = .ok ⟨false, false, none⟩ c ∨ c.token.kind = .punctuator .star ∨
      (∃ w, c.token.kind = .contextual w ∧ c.next? = none ∧ modifiers c = .fail .unreadable) ∨
      ∃ w reached, c.token.kind = .contextual w ∧ c.next? = some reached ∧
        reached.1.token.kind.GoesOnPattern = false := by
  unfold modifiers
  rcases acceptModifier_cases .kwAsync c with hasync | ⟨w, hkind, hnext, hfail⟩ | h
  · rw [bind_of_ok hasync]
    by_cases hstar : c.token.kind = .punctuator .star
    · exact .inr (.inl hstar)
    rw [accept_bind_of_not hstar, if_neg (by simp)]
    rcases acceptModifier_cases .kwGet c with hget | ⟨w, hkind, hnext, hfail⟩ | h
    · rw [bind_of_ok hget, if_neg (by simp)]
      rcases acceptModifier_cases .kwSet c with hset | ⟨w, hkind, hnext, hfail⟩ | h
      · rw [bind_of_ok hset]
        exact .inl rfl
      · exact .inr (.inr (.inl ⟨w, hkind, hnext, bind_of_fail hfail⟩))
      · exact .inr (.inr (.inr h))
    · exact .inr (.inr (.inl ⟨w, hkind, hnext, bind_of_fail hfail⟩))
    · exact .inr (.inr (.inr h))
  · exact .inr (.inr (.inl ⟨w, hkind, hnext, bind_of_fail hfail⟩))
  · exact .inr (.inr (.inr h))

/-- A member of a pattern whose key is also its target. -/
def patternShorthand (g : Grammar) (ctx : Context) (keyIsName : Bool) (key : Node) (computed : Bool) :
    Parse Node :=
  match key, keyIsName && !computed with
  | .identifier name, true => do
    return .property key (← withDefault g ctx (.identifier name)) .init computed true false
  | _, _ => reject (.expected ":")

omit hm in
lemma patternShorthand_cases (g : Grammar) (ctx : Context) (keyIsName : Bool) (key : Node)
    (computed : Bool) : (∃ name, key = .identifier name ∧ keyIsName = true ∧ computed = false) ∨
      patternShorthand g ctx keyIsName key computed = reject (.expected ":") := by
  unfold patternShorthand
  split
  · next name hflag =>
    rw [Bool.and_eq_true, Bool.not_eq_true'] at hflag
    exact .inl ⟨name, rfl, hflag⟩
  · exact .inr rfl

/-- A member of a pattern from the end of its key on. -/
def patternMemberRest (g : Grammar) (ctx : Context) (keyIsName : Bool) (key : Node) (computed : Bool) :
    Parse Node := do
  if ← accept .colon then
    return .property key (← bindingElement g ctx) .init computed false false
  patternShorthand g ctx keyIsName key computed

omit hm in
lemma patternMember_eq (g : Grammar) (ctx : Context) (c : Cursor) : patternMember g ctx c =
    (propertyKey g ctx >>= fun key =>
      patternMemberRest g ctx c.token.kind.isName key.1 key.2) c := rfl

/-- The reading was refused or did not move. -/
def StopsAt (c : Cursor) (r : Reply Node) : Prop := r.IsRefused ∨ ∃ m, r = .ok m c

omit hm in
/-- A member of a pattern stops after its key at a token with which it cannot go on. -/
lemma patternMemberRest_stops {g : Grammar} {keyIsName : Bool} {key : Node} {computed : Bool}
    (h : c.token.kind.GoesOnPattern = false) :
    StopsAt c (patternMemberRest g ctx keyIsName key computed c) := by
  have hne : ∀ {p : Punctuator}, (TokenKind.punctuator p).GoesOnPattern = true →
      c.token.kind ≠ .punctuator p := by
    intro p hp hkind
    rw [hkind, hp] at h
    cases h
  unfold patternMemberRest
  rw [accept_bind_of_not (hne rfl), if_neg (by simp)]
  rcases patternShorthand_cases g ctx keyIsName key computed with ⟨name, rfl, rfl, rfl⟩ | hreject
  · have hdefault : withDefault g ctx (.identifier name) c = .ok (.identifier name) c := by
      unfold withDefault
      rw [accept_bind_of_not (hne rfl)]
      rfl
    exact .inr ⟨_, bind_of_ok hdefault⟩
  · rw [hreject]
    exact .inl ⟨_, rfl⟩

omit hm in
lemma propertyKey_of_contextual {g : Grammar} {w : ContextualWord}
    (hkind : c.token.kind = .contextual w) : propertyKey g ctx c =
      (advance >>= fun _ => pure (Node.identifier c.token.value, false)) c := by
  have hword : word c = (advance >>= fun _ => pure c.token.value) c := by
    unfold word
    rw [token_bind, hkind]
    rfl
  unfold propertyKey
  rw [kind_bind, hkind]
  change (word >>= fun name => pure (Node.identifier name, false)) c = _
  rw [bind_eq_of_eq hword, bind_assoc]
  rfl

/-- A member of an object literal that covers a member of a pattern. -/
lemma mirror_member (hc : c.AtToken) (hellipsis : c.token.kind ≠ .punctuator .ellipsis) :
    Mirror strict AtAssign (fun _ c' => c'.token.kind.IsClosing)
      (fun m m' => ctx.inGenerator = false → m'.CoversMember m) (patternMember high ctx c)
      (objectMember low ctx c) (patternMember again ctx c) := by
  -- What is read of a member that cannot go on does not matter.
  have hstop : ∀ {r : Reply Node} {c' : Cursor} {low again : Reply Node},
      c'.token.kind.GoesOnPattern = false → StopsAt c' r →
      Mirror strict AtAssign (fun _ c' => c'.token.kind.IsClosing)
        (fun m m' => ctx.inGenerator = false → m'.CoversMember m) r low again := by
    rintro r c' low again hnot (hr | ⟨m, rfl⟩)
    · exact .of_refused hr
    · refine .unwanted fun hclosing => ?_
      rw [hclosing.goesOnPattern] at hnot
      cases hnot
  rw [patternMember_eq high, patternMember_eq again]
  rcases modifiers_cases c with hmodifiers | hstar | ⟨w, hkind, hnext, hmodifiers⟩ |
    ⟨w, reached, hkind, hnext, hnot⟩
  · unfold objectMember
    rw [accept_bind_of_not hellipsis, if_neg (by simp), bind_of_ok hmodifiers]
    dsimp only
    rw [kind_bind]
    refine (mirror_propertyKey hm hc).bind (fun key key' c2 hc2 _ h => ?_) fun _ _ _ _ h =>
      absurd trivial h
    subst h
    obtain ⟨key, computed⟩ := key
    dsimp only
    by_cases hparen : c2.token.kind = .punctuator .openParen
    · exact hstop (by rw [hparen]; rfl) (patternMemberRest_stops (by rw [hparen]; rfl))
    rw [isAt_bind, beq_eq_false_iff_ne.2 hparen, if_neg (by simp)]
    unfold patternMemberRest
    refine .sameThen (.accept _) hc2 fun atColon c3 hc3 _ => ?_
    cases atColon with
    | true =>
      refine (hm.element hc3).bindDead (fun b x c4 hc4 _ hx => ?_) (fun b c4 _ _ h => .unwanted h)
        fun x c4 hdead hstrict => .inr ⟨hstrict, .inr ⟨_, _, rfl, hdead⟩⟩
      exact .ok hc4 fun _ hplain => .property (hx hplain)
    | false =>
    rw [if_neg (by simp), if_neg (by simp), if_neg (by simp)]
    rcases patternShorthand_cases high ctx c.token.kind.isName key computed with ⟨name, rfl, hname, rfl⟩ | hreject
    swap
    · rw [hreject]
      exact .of_refused ⟨_, rfl⟩
    unfold patternShorthand
    rw [hname]
    change Mirror _ _ _ _ ((withDefault high ctx (.identifier name) >>= _) c3)
      (shorthandMember low ctx name c3) ((withDefault again ctx (.identifier name) >>= _) c3)
    unfold withDefault shorthandMember
    rw [bind_assoc, bind_assoc, hm.context]
    refine .sameThen (.accept _) hc3 fun atAssign c4 hc4 _ => ?_
    cases atAssign with
    | false => exact .ok hc4 fun _ _ => .shorthand name
    | true =>
      rw [if_pos rfl, if_pos rfl, if_pos rfl, bind_assoc, bind_assoc]
      refine (hm.key hc4).bind (fun value value' c5 hc5 _ h => ?_) fun _ _ _ _ h => absurd trivial h
      subst h
      exact .ok hc5 fun _ _ => .defaulted name value
  · have hkey : propertyKey high ctx c =
        .fail (.refused ⟨.propertyNameExpected, c.token.span⟩) := by
      unfold propertyKey
      rw [kind_bind, hstar]
      rfl
    exact .of_refused ⟨_, bind_of_fail hkey⟩
  · have hkey : propertyKey high ctx c = .fail .unreadable := by
      rw [propertyKey_of_contextual hkind]
      refine bind_of_fail ?_
      rw [advance, hnext]
    rw [bind_of_fail hkey]
    refine .inr ?_
    unfold objectMember
    rw [accept_bind_of_not hellipsis, if_neg (by simp), bind_of_fail hmodifiers]
  · obtain ⟨c', flaw⟩ := reached
    cases flaw with
    | some flaw =>
      have hkey : propertyKey high ctx c =
          .fail (.refused ⟨.flawed flaw.cause, .point flaw.offset⟩) := by
        rw [propertyKey_of_contextual hkind]
        refine bind_of_fail ?_
        rw [advance, hnext]
        rfl
      exact .of_refused ⟨_, bind_of_fail hkey⟩
    | none =>
      have hkey : propertyKey high ctx c = .ok (.identifier c.token.value, false) c' := by
        rw [propertyKey_of_contextual hkind, bind_of_ok (advance_of_next? hnext)]
        rfl
      rw [bind_of_ok hkey]
      exact hstop hnot (patternMemberRest_stops hnot)

/-- An object literal that covers an object pattern. -/
lemma mirror_object (hc : c.AtToken) :
    Mirror strict NoEnd (fun _ _ => True)
      (fun b x => ctx.inGenerator = false → x.toTarget = .ok b ∧ b.IsTarget)
      (objectPattern high ctx c) (objectLiteral low ctx c) (objectPattern again ctx c) := by
  unfold objectPattern objectLiteral
  rw [hm.context]
  refine .sameThen (.expect _) hc fun _ c1 hc1 _ => ?_
  refine .thenExpect (mirror_repeatFrom (.punctuator .closeBrace)
    (fun found found' => ctx.inGenerator = false → List.Forall₂ Node.CoversMember found' found)
    (fun members members' => ctx.inGenerator = false → memberTargets members' = .ok members)
    (fun found found' c hc hfound => ?_) hc1 fun _ => .nil) (by decide) fun members members' h hplain => ?_
  swap
  · refine ⟨?_, trivial⟩
    rw [Node.toTarget, h hplain]
    rfl
  have hreverse : ctx.inGenerator = false → ∀ ys,
      memberTargets (found'.reverse ++ ys) = (memberTargets ys).map (found.reverse ++ ·) :=
    fun hplain => memberTargets_append (List.forall₂_reverse_iff.2 (hfound hplain))
  refine .sameThen (.isAt _) hc fun atClose c1 hc1 _ => ?_
  cases atClose with
  | true =>
    refine .ok hc1 fun _ hplain => ?_
    simpa [memberTargets, Except.map] using hreverse hplain []
  | false =>
  by_cases hellipsis : c1.token.kind = .punctuator .ellipsis
  · have hlow : objectMember low ctx c1 =
        (advance >>= fun _ => low.assignment ctx >>= fun x => pure (.spread x)) c1 := by
      unfold objectMember
      rw [accept_bind_of_at hellipsis]
      rfl
    rw [if_neg (by simp), if_neg (by simp), if_neg (by simp), bind_eq_of_eq hlow,
      accept_bind_of_at hellipsis, accept_bind_of_at hellipsis, bind_assoc]
    refine .sameThen .advance hc1 fun _ c2 hc2 _ => ?_
    rw [if_pos rfl, if_pos rfl, bind_assoc]
    refine (hm.name hc2).bind (fun n x c3 hc3 _ hx => ?_) fun n c3 _ _ h => ?_
    · refine mirror_doneComma hc3 (by decide) fun hplain => ?_
      rw [List.reverse_cons, List.reverse_cons, hreverse hplain, memberTargets, hx hplain]
      rfl
    · exact .unwanted fun hkind => h (.inr (.inr (.inr hkind)))
  · rw [if_neg (by simp), if_neg (by simp), if_neg (by simp), accept_bind_of_not hellipsis,
      accept_bind_of_not hellipsis]
    refine (mirror_member hm hc1 hellipsis).thenComma (.inr (.inr (.inr rfl)))
      (fun m m' h hplain => .cons (h hplain) (hfound hplain)) fun m m' h hplain => ?_
    rw [List.reverse_cons, List.reverse_cons, hreverse hplain, memberTargets_cons (h hplain)]
    rfl

end Grammar

end BindingProxy
