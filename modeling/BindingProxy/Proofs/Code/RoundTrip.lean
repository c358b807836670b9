import BindingProxy.Proofs.Code.Spelling
import BindingProxy.Proofs.Grammar.Progress
import BindingProxy.Proofs.Grammar.ReadBack
import Mathlib.Tactic.Choose

/-!
# Printed expressions are read back

`Printable` describes the expressions without functions, classes, objects, templates and regular
expressions, whatever script they came from or if they came from none.  Each of them is printed as a
phrase of a certain kind, which its outermost node decides (`Node.phrase`).  Where an expression is
printed without parentheses, this kind of phrase fits in the place, and with them any does; the
lemmas about parentheses say this for every place of a printed expression.  So the words of the
printed text spell the expression, and reading the text gives it back.
-/

namespace BindingProxy

open Word

/-! ### Expressions that can be printed -/

/-- Whether an optional link stands on the way down through owners and callees. -/
def Node.hasOptionalOnSpine : Node → Bool
  | .member owner _ _ optional => optional || owner.hasOptionalOnSpine
  | .call callee _ optional => optional || callee.hasOptionalOnSpine
  | _ => false

/-- Where an expression stands: as one of its own, or among the elements of an array or the
arguments of a call, where it may be spread. -/
inductive Standing where
  | expression
  | item
deriving Repr, DecidableEq, Inhabited

/-- The expressions that are printed and read back.  Names, literals and keys are tokens of their
kind; only names and properties are updated and assigned to; and there are no optional links on the
way down to what is constructed. -/
inductive Printable : Standing → Node → Prop where
  | identifier {name : String} (h : Word.IsToken ⟨.identifier, name⟩) :
    Printable .expression (.identifier name)
  | literal {w : Word} {kind : LiteralKind} (hw : w.IsToken) (hkind : w.literalKind? = some kind) :
    Printable .expression (.literal kind w.text)
  | thisValue : Printable .expression .thisValue
  | unary (operator : UnaryOperator) {argument : Node} (h : Printable .expression argument) :
    Printable .expression (.unary operator argument)
  | update (operator : UpdateOperator) (leading : Bool) {argument : Node}
    (hplace : argument.isPlace = true) (h : Printable .expression argument) :
    Printable .expression (.update operator leading argument)
  | binary (operator : BinaryOperator) {left right : Node} (hleft : Printable .expression left)
    (hright : Printable .expression right) : Printable .expression (.binary operator left right)
  | logical (operator : LogicalOperator) {left right : Node} (hleft : Printable .expression left)
    (hright : Printable .expression right) : Printable .expression (.logical operator left right)
  | conditional {test consequent alternate : Node} (htest : Printable .expression test)
    (hconsequent : Printable .expression consequent)
    (halternate : Printable .expression alternate) :
    Printable .expression (.conditional test consequent alternate)
  | assignment (operator : AssignmentOperator) {left right : Node} (hplace : left.isPlace = true)
    (hleft : Printable .expression left) (hright : Printable .expression right) :
    Printable .expression (.assignment operator left right)
  | call {callee : Node} {arguments : List Node} (optional : Bool)
    (hcallee : Printable .expression callee)
    (harguments : ∀ argument ∈ arguments, Printable .item argument) :
    Printable .expression (.call callee arguments optional)
  | construction {callee : Node} {arguments : List Node} (hcallee : Printable .expression callee)
    (hspine : callee.hasOptionalOnSpine = false)
    (harguments : ∀ argument ∈ arguments, Printable .item argument) :
    Printable .expression (.construction callee arguments)
  | dot {owner : Node} {w : Word} (optional : Bool) (howner : Printable .expression owner)
    (hw : w.IsToken) (hword : w.kind.isWord = true) :
    Printable .expression (.member owner (.identifier w.text) false optional)
  | index {owner key : Node} (optional : Bool) (howner : Printable .expression owner)
    (hkey : Printable .expression key) : Printable .expression (.member owner key true optional)
  | array {elements : List (Option Node)} (h : ∀ e, some e ∈ elements → Printable .item e) :
    Printable .expression (.array elements)
  | sequence {expressions : List Node} (hlength : 2 ≤ expressions.length)
    (h : ∀ e ∈ expressions, Printable .expression e) : Printable .expression (.sequence expressions)
  | item {e : Node} (h : Printable .expression e) : Printable .item e
  | spread {e : Node} (h : Printable .expression e) : Printable .item (.spread e)

/-! ### The phrase that an expression is printed as -/

/-- Whether a node is read as the callee of a construction only in parentheses. -/
def Node.needsCalls : Node → Bool
  | .member owner _ _ optional => optional || owner.needsCalls
  | .call _ _ _ => true
  | _ => false

/-- The kind of phrase that a node is printed as. -/
def Node.phrase : Node → Phrase
  | .member owner _ _ optional => .linked (optional || owner.needsCalls)
  | .call _ _ _ => .linked true
  | .construction _ _ => .linked false
  | .literal _ _ | .unary _ _ | .update _ _ _ => .unary
  | .binary .isIn _ _ => .primary
  | .binary operator _ _ => .infixed (operator.strength - 1)
  | .logical operator _ _ => .infixed (operator.strength - 1)
  | .conditional _ _ _ => .conditional
  | .assignment _ _ _ => .assignment
  | _ => .primary

lemma Node.needsCalls_eq_false {n : Node} (hcall : n.hasCallOnSpine = false)
    (hoptional : n.hasOptionalOnSpine = false) : n.needsCalls = false := by
  fun_induction Node.needsCalls n with
  | case1 owner key computed optional ih =>
    rw [hasOptionalOnSpine, Bool.or_eq_false_iff] at hoptional
    rw [hasCallOnSpine] at hcall
    rw [hoptional.1, ih hcall hoptional.2]
    rfl
  | case2 => cases hcall
  | case3 => rfl

namespace Phrase.FitsIn

/-- Operands fit in among operators. -/
lemma linked_unary (calls : Bool) : (linked calls).FitsIn unary := by
  cases calls with
  | true => exact .operand (.refl _)
  | false => exact .calls (.operand (.refl _))

lemma trans {p q r : Phrase} (hpq : p.FitsIn q) (hqr : q.FitsIn r) : p.FitsIn r := by
  induction hpq with
  | refl => exact hqr
  | head calls _ ih => exact .head calls (ih hqr)
  | calls _ ih => exact .calls (ih hqr)
  | operand _ ih => exact .operand (ih hqr)
  | single limit _ ih => exact .single limit (ih hqr)
  | weaker hle _ ih => exact .weaker hle (ih hqr)
  | test _ ih => exact .test (ih hqr)
  | value _ ih => exact .value (ih hqr)
  | item =>
    cases hqr
    exact .item
  | alone =>
    cases hqr
    exact .alone

end Phrase.FitsIn

namespace Node

/-- Every expression is printed as something that can be assigned. -/
lemma fitsIn_assignment (n : Node) : n.phrase.FitsIn .assignment := by
  have hinfixed : ∀ m, (Phrase.infixed m).FitsIn .assignment := fun m =>
    .weaker (Nat.zero_le m) (.test (.value (.refl _)))
  have hunary : Phrase.unary.FitsIn .assignment := .single 0 (hinfixed 0)
  have hlinked : ∀ calls, (Phrase.linked calls).FitsIn .assignment := fun calls =>
    (Phrase.FitsIn.linked_unary calls).trans hunary
  unfold phrase
  split
  case h_1 | h_2 | h_3 => exact hlinked _
  case h_4 | h_5 | h_6 => exact hunary
  case h_8 | h_9 => exact hinfixed _
  case h_10 => exact .value (.refl _)
  case h_11 => exact .refl _
  case h_7 | h_12 => exact .head true (hlinked true)

/-- An owner without parentheses. -/
lemma fitsIn_owner {n : Node} (h : n.needsParensAsOwner = false) :
    n.phrase.FitsIn (.linked n.needsCalls) := by
  unfold phrase
  split
  case h_1 | h_2 | h_3 => exact .refl _
  case h_7 | h_12 => exact .head _ (.refl _)
  all_goals cases h

/-- An operand of a unary operator without parentheses. -/
lemma fitsIn_unary {n : Node} {operator : UnaryOperator} {e : Node}
    (h : n.needsParens (.unary operator e) .left = false) : n.phrase.FitsIn .unary := by
  unfold phrase
  split
  case h_1 | h_2 | h_3 => exact Phrase.FitsIn.linked_unary _
  case h_4 | h_5 | h_6 => exact .refl _
  case h_7 | h_12 => exact .head true (.operand (.refl _))
  all_goals cases h

/-- The test of a conditional without parentheses. -/
lemma fitsIn_test {n : Node} (h : n.needsParensAsTest = false) : n.phrase.FitsIn (.infixed 0) := by
  have hunary : Phrase.unary.FitsIn (.infixed 0) := .single 0 (.refl _)
  unfold phrase
  split
  case h_1 | h_2 | h_3 => exact (Phrase.FitsIn.linked_unary _).trans hunary
  case h_4 | h_5 | h_6 => exact hunary
  case h_7 | h_12 => exact .head true (.operand hunary)
  case h_8 | h_9 => exact .weaker (Nat.zero_le _) (.refl _)
  all_goals cases h

end Node

/-! ### Operands of infix operators -/

/-- The strength up to which operators end the operand on a side of an operator. -/
def sideLimit (operator : InfixOperator) : Side → Nat
  | .left => leftLimit operator
  | .right => Grammar.rightLimit operator

namespace InfixOperator

lemma strength_pos (operator : InfixOperator) : 0 < operator.strength := by
  rcases operator with operator | operator <;> cases operator <;> decide

/-- Every binary operator is stronger than every logical one. -/
lemma strength_logical_lt (operator : LogicalOperator) (other : BinaryOperator) :
    (logical operator).strength < (binary other).strength := by
  cases operator <;> cases other <;> decide

/-- Nothing is stronger than an operator that groups from the right. -/
lemma strength_le {operator : InfixOperator} (h : operator.isRightGrouping = true)
    (other : InfixOperator) : other.strength ≤ operator.strength := by
  have hpower : operator = .binary .power := by
    unfold isRightGrouping at h
    split at h
    · rfl
    · cases h
  subst hpower
  rcases other with other | other <;> cases other <;> decide

end InfixOperator

lemma sideLimit_le (operator : InfixOperator) (side : Side) :
    sideLimit operator side ≤ operator.strength := by
  cases side with
  | left =>
    rw [sideLimit, leftLimit]
    split <;> omega
  | right =>
    rw [sideLimit, Grammar.rightLimit]
    split <;> omega

/-- An infix expression that has no parentheses as an operand of another is strong enough for its
side. -/
lemma sideLimit_lt {tightness : Tightness} {inner outer : InfixOperator} {side : Side}
    (h : infixNeedsParens tightness inner outer side = false) :
    sideLimit outer side < inner.strength := by
  have hpos := outer.strength_pos
  unfold infixNeedsParens at h
  split at h
  case isTrue hboth =>
    -- Powers group from the right.
    rw [Bool.and_eq_true] at hboth
    have hle := InfixOperator.strength_le hboth.1 outer
    cases side with
    | left => cases h
    | right =>
      rw [sideLimit, Grammar.rightLimit, if_pos hboth.2]
      omega
  case isFalse hboth =>
    split at h
    · cases h
    · cases side with
      | left =>
        rw [decide_eq_false_iff_not, Nat.not_lt] at h
        rw [sideLimit, leftLimit]
        split
        case isTrue hright =>
          have hne : inner.strength ≠ outer.strength := by
            intro heq
            rw [InfixOperator.isRightGrouping_eq heq, hright] at hboth
            exact hboth rfl
          omega
        case isFalse => omega
      | right =>
        rw [decide_eq_false_iff_not, Nat.not_le] at h
        exact Nat.lt_of_le_of_lt (sideLimit_le outer .right) h

/-- An operand of an infix operator without parentheses. -/
lemma Node.fitsIn_side {n left right : Node} {operator : InfixOperator} {side : Side}
    (h : n.needsParens (Grammar.joinOperands operator left right) side = false) :
    n.phrase.FitsIn (.infixed (sideLimit operator side)) := by
  have hunary : Phrase.unary.FitsIn (.infixed (sideLimit operator side)) := .single _ (.refl _)
  -- An infix operand that is strong enough fits.
  have hinfixed : ∀ inner : InfixOperator, sideLimit operator side < inner.strength →
      (Phrase.infixed (inner.strength - 1)).FitsIn (.infixed (sideLimit operator side)) :=
    fun inner hlt => .weaker (by omega) (.refl _)
  unfold phrase
  split
  case h_1 | h_2 | h_3 => exact (Phrase.FitsIn.linked_unary _).trans hunary
  case h_4 | h_5 | h_6 => exact hunary
  case h_7 | h_12 => exact .head true (.operand hunary)
  case h_8 inner _ _ _ =>
    refine hinfixed (.binary inner) ?_
    rcases operator with operator | operator
    · exact sideLimit_lt h
    · have hle := sideLimit_le (.logical operator) side
      have hlogical := InfixOperator.strength_logical_lt operator inner
      omega
  case h_9 inner _ _ =>
    refine hinfixed (.logical inner) ?_
    rcases operator with operator | operator
    · cases h
    · exact sideLimit_lt h
  all_goals rcases operator with operator | operator <;> cases side <;> cases h

/-! ### Every printable expression is spelled -/

namespace Node

/-- The printed node spells itself as its kind of phrase. -/
def IsSpelled (n : Node) : Prop := ∃ ps, Spelled n.phrase n n.steps ps

variable {n argument left right test consequent alternate callee owner key : Node}

lemma IsSpelled.mono (h : n.IsSpelled) {phrase : Phrase} (hfits : n.phrase.FitsIn phrase) :
    ∃ ps, Spelled phrase n n.steps ps := by
  obtain ⟨ps, hps⟩ := h
  exact ⟨ps, hps.mono hfits⟩

/-- In parentheses a node stands in any place for an operand. -/
lemma IsSpelled.enclosed (h : n.IsSpelled) :
    ∃ ps, Spelled .primary n (inParens n.steps) ps := by
  obtain ⟨ps, hps⟩ := h.mono (n.fitsIn_assignment.trans .alone)
  exact ⟨_, hps.parens⟩

/-- A node that has parentheses where it does not fit. -/
lemma IsSpelled.inParensIf (h : n.IsSpelled) {parens : Bool} {phrase : Phrase}
    (hprimary : Phrase.primary.FitsIn phrase) (hfits : parens = false → n.phrase.FitsIn phrase) :
    ∃ ps, Spelled phrase n (inParensIf parens n.steps) ps := by
  cases parens with
  | false => exact h.mono (hfits rfl)
  | true =>
    obtain ⟨ps, hps⟩ := h.enclosed
    exact ⟨ps, hps.mono hprimary⟩

/-- A sign that an operand begins with runs into the same sign. -/
lemma repeatsSign_of_leadingSign? {operator : UnaryOperator} {c : Char}
    (h : argument.leadingSign? = some c) (hsame : operator.text.toList = [c]) :
    repeatsSign operator argument = true := by
  unfold leadingSign? at h
  split at h
  case h_5 => cases h
  all_goals
    cases h
    cases operator <;> first | rfl | cases hsame

lemma isSpelled_unary (operator : UnaryOperator) (h : argument.IsSpelled) :
    (unary operator argument).IsSpelled := by
  change ∃ ps, Spelled .unary _
    (unarySteps operator argument (argument.needsParens (.unary operator argument) .left)
      argument.steps) ps
  rw [unarySteps]
  cases hparens : argument.needsParens (.unary operator argument) .left with
  | true =>
    obtain ⟨ps, hps⟩ := h.enclosed
    have hunary := hps.mono (.head true (.operand (.refl _)))
    rw [Bool.not_true, Bool.false_and, Bool.or_false]
    cases hword : operator.isWord with
    | true => exact ⟨_, hunary.operatorSpaced operator⟩
    | false =>
      refine ⟨_, hunary.operatorTight hword fun c rest hc hsign => ?_⟩
      obtain ⟨c', rest', hc', _, hsigns⟩ := hps.head rfl
      cases hc.symm.trans hc'
      cases hsigns hsign
  | false =>
    obtain ⟨ps, hps⟩ := h.mono (fitsIn_unary hparens)
    rw [Bool.not_false, Bool.true_and]
    cases hspace : operator.isWord || repeatsSign operator argument with
    | true => exact ⟨_, hps.operatorSpaced operator⟩
    | false =>
      obtain ⟨hword, hrepeats⟩ := Bool.or_eq_false_iff.1 hspace
      refine ⟨_, hps.operatorTight hword fun c rest hc hsign hsame => ?_⟩
      obtain ⟨c', rest', hc', _, hsigns⟩ := hps.head rfl
      cases hc.symm.trans hc'
      have hleading : argument.leadingSign? = some c := by
        simpa [Phrase.leadingSigns] using hsigns hsign
      cases hrepeats.symm.trans (repeatsSign_of_leadingSign? hleading hsame)

/-- What can be updated or assigned to is printed as an operand with links. -/
lemma fitsIn_linked_of_isPlace (h : n.isPlace = true) : n.phrase.FitsIn (.linked true) := by
  cases n with
  | identifier name => exact .head true (.refl _)
  | member owner key computed optional =>
    have hlinked : ∀ calls, (Phrase.linked calls).FitsIn (.linked true) := by
      rintro (_ | _)
      · exact .calls (.refl _)
      · exact .refl _
    exact hlinked _
  | _ => cases h

lemma isSpelled_update (operator : UpdateOperator) (leading : Bool)
    (hplace : argument.isPlace = true) (h : argument.IsSpelled) :
    (update operator leading argument).IsSpelled := by
  obtain ⟨ps, hps⟩ := h.mono (fitsIn_linked_of_isPlace hplace)
  cases leading with
  | true => exact ⟨_, (hps.mono (.operand (.refl _))).updateBefore operator hplace⟩
  | false => exact ⟨_, hps.updateAfter operator hplace⟩

/-- An operand on a side of an infix operator, in parentheses if it needs them. -/
lemma IsSpelled.asSide (h : n.IsSpelled) (operator : InfixOperator) (left right : Node)
    (side : Side) :
    ∃ ps, Spelled (.infixed (sideLimit operator side)) n
      (BindingProxy.inParensIf (n.needsParens (Grammar.joinOperands operator left right) side)
        n.steps) ps :=
  h.inParensIf (.head true (.operand (.single _ (.refl _)))) fitsIn_side

/-- Two operands around an infix operator. -/
lemma exists_spelled_joined (operator : InfixOperator) (hleft : left.IsSpelled)
    (hright : right.IsSpelled) :
    ∃ ps, Spelled (.infixed (operator.strength - 1)) (Grammar.joinOperands operator left right)
      (infixSteps
        (BindingProxy.inParensIf
          (left.needsParens (Grammar.joinOperands operator left right) .left) left.steps)
        operator.text
        (BindingProxy.inParensIf
          (right.needsParens (Grammar.joinOperands operator left right) .right) right.steps)) ps := by
  have hpos := operator.strength_pos
  obtain ⟨ps, hps⟩ := hleft.asSide operator left right .left
  obtain ⟨qs, hqs⟩ := hright.asSide operator left right .right
  exact ⟨_, Spelled.joined (by omega) hps hqs⟩

lemma isSpelled_binary (operator : BinaryOperator) (hleft : left.IsSpelled)
    (hright : right.IsSpelled) : (binary operator left right).IsSpelled := by
  obtain ⟨ps, hps⟩ := exists_spelled_joined (.binary operator) hleft hright
  by_cases hin : operator = .isIn
  · -- The parentheses around an `in` make it a primary expression.
    subst hin
    exact ⟨_, (hps.mono (.weaker (Nat.zero_le _) (.test (.value .alone)))).parens⟩
  · cases operator <;> first | exact ⟨ps, hps⟩ | exact absurd rfl hin

lemma isSpelled_logical (operator : LogicalOperator) (hleft : left.IsSpelled)
    (hright : right.IsSpelled) : (logical operator left right).IsSpelled := by
  exact exists_spelled_joined (.logical operator) hleft hright

lemma isSpelled_conditional (htest : test.IsSpelled) (hconsequent : consequent.IsSpelled)
    (halternate : alternate.IsSpelled) :
    (conditional test consequent alternate).IsSpelled := by
  have hprimary : Phrase.primary.FitsIn (.infixed 0) := .head true (.operand (.single 0 (.refl _)))
  obtain ⟨ps, hps⟩ := htest.inParensIf hprimary fitsIn_test
  obtain ⟨qs, hqs⟩ := hconsequent.mono consequent.fitsIn_assignment
  obtain ⟨rs, hrs⟩ := halternate.mono alternate.fitsIn_assignment
  have hsteps : (conditional test consequent alternate).steps =
      BindingProxy.inParensIf test.needsParensAsTest test.steps ++
        .text " ? " :: (consequent.steps ++ .text " : " :: alternate.steps) :=
    List.append_assoc _ _ _
  rw [IsSpelled, hsteps]
  exact ⟨_, hps.choice hqs hrs⟩

lemma isSpelled_assignment (operator : AssignmentOperator) (hplace : left.isPlace = true)
    (hleft : left.IsSpelled) (hright : right.IsSpelled) :
    (assignment operator left right).IsSpelled := by
  obtain ⟨ps, hps⟩ := hleft.mono (fitsIn_linked_of_isPlace hplace)
  obtain ⟨qs, hqs⟩ := hright.mono right.fitsIn_assignment
  exact ⟨_, hps.assign operator hplace hqs⟩

/-! Owners and callees. -/

/-- An owner or callee, in parentheses if it needs them. -/
lemma IsSpelled.asOwner (h : n.IsSpelled) :
    ∃ ps, Spelled (.linked n.needsCalls) n
      (BindingProxy.inParensIf n.needsParensAsOwner n.steps) ps :=
  h.inParensIf (.head _ (.refl _)) fitsIn_owner

/-- An owner or callee where calls are allowed. -/
lemma IsSpelled.asCallee (h : n.IsSpelled) :
    ∃ ps, Spelled (.linked true) n (BindingProxy.inParensIf n.needsParensAsOwner n.steps) ps := by
  obtain ⟨ps, hps⟩ := h.asOwner
  cases hcalls : n.needsCalls with
  | true => exact ⟨ps, hcalls ▸ hps⟩
  | false =>
    rw [hcalls] at hps
    exact ⟨ps, hps.mono (.calls (.refl _))⟩

lemma isSpelled_dot {w : Word} (optional : Bool) (howner : owner.IsSpelled) (hw : w.IsToken)
    (hword : w.kind.isWord = true) :
    (member owner (identifier w.text) false optional).IsSpelled := by
  cases optional with
  | true =>
    obtain ⟨ps, hps⟩ := howner.asCallee
    exact ⟨_, hps.optionalDot hw hword⟩
  | false =>
    obtain ⟨ps, hps⟩ := howner.asOwner
    exact ⟨_, hps.dot hw hword⟩

lemma isSpelled_index (optional : Bool) (howner : owner.IsSpelled) (hkey : key.IsSpelled) :
    (member owner key true optional).IsSpelled := by
  obtain ⟨qs, hqs⟩ := hkey.mono (key.fitsIn_assignment.trans .alone)
  cases optional with
  | true =>
    obtain ⟨ps, hps⟩ := howner.asCallee
    exact ⟨_, hps.optionalIndex hqs⟩
  | false =>
    obtain ⟨ps, hps⟩ := howner.asOwner
    exact ⟨_, hps.index hqs⟩

/-! Lists of items. -/

/-- Items that are all spelled, each with its pieces. -/
lemma exists_items {phrase : Phrase} {es : List Node}
    (h : ∀ e ∈ es, ∃ ps, Spelled phrase e e.steps ps) :
    ∃ items : List (Node × List Piece), items.map Prod.fst = es ∧
      ∀ e ps, (e, ps) ∈ items → Spelled phrase e e.steps ps := by
  choose! pieces hpieces using h
  refine ⟨es.map fun e => (e, pieces e), by simp [Function.comp_def], ?_⟩
  intro e ps hmem
  obtain ⟨e, he, hpair⟩ := List.mem_map.1 hmem
  cases hpair
  exact hpieces e he

/-- Elements that are all spelled or holes. -/
lemma exists_elements {phrase : Phrase} {es : List (Option Node)}
    (h : ∀ e, some e ∈ es → ∃ ps, Spelled phrase e e.steps ps) :
    ∃ elements : List (Option (Node × List Piece)), elements.map (Option.map Prod.fst) = es ∧
      ∀ e ps, some (e, ps) ∈ elements → Spelled phrase e e.steps ps := by
  choose! pieces hpieces using h
  refine ⟨es.map (Option.map fun e => (e, pieces e)), by simp [Function.comp_def], ?_⟩
  intro e ps hmem
  obtain ⟨o, ho, hpair⟩ := List.mem_map.1 hmem
  obtain ⟨e, rfl, hpair⟩ := Option.map_eq_some_iff.1 hpair
  cases hpair
  exact hpieces e ho

lemma isSpelled_call {arguments : List Node} (optional : Bool) (hcallee : callee.IsSpelled)
    (harguments : ∀ e ∈ arguments, ∃ ps, Spelled .item e e.steps ps) :
    (call callee arguments optional).IsSpelled := by
  obtain ⟨ps, hps⟩ := hcallee.asCallee
  obtain ⟨items, rfl, hitems⟩ := exists_items harguments
  have hsteps : (call callee (items.map Prod.fst) optional).steps =
      BindingProxy.inParensIf callee.needsParensAsOwner callee.steps ++
        ((if optional then [.text "?."] else []) ++
          listInParens (stepsEach (items.map Prod.fst))) :=
    List.append_assoc _ _ _
  rw [IsSpelled, hsteps]
  cases optional with
  | true => exact ⟨_, hps.optionalCall hitems⟩
  | false => exact ⟨_, hps.call hitems⟩

lemma isSpelled_construction {arguments : List Node} (hcallee : callee.IsSpelled)
    (hspine : callee.hasOptionalOnSpine = false)
    (harguments : ∀ e ∈ arguments, ∃ ps, Spelled .item e e.steps ps) :
    (construction callee arguments).IsSpelled := by
  obtain ⟨items, rfl, hitems⟩ := exists_items harguments
  have hfits : (callee.needsParensAsOwner || callee.hasCallOnSpine) = false →
      callee.phrase.FitsIn (.linked false) := by
    intro h
    obtain ⟨howner, hcall⟩ := Bool.or_eq_false_iff.1 h
    rw [← needsCalls_eq_false hcall hspine]
    exact fitsIn_owner howner
  obtain ⟨ps, hps⟩ := hcallee.inParensIf (.head false (.refl _)) hfits
  exact ⟨_, hps.construction hitems⟩

lemma isSpelled_array {elements : List (Option Node)}
    (h : ∀ e, some e ∈ elements → ∃ ps, Spelled .item e e.steps ps) :
    (array elements).IsSpelled := by
  obtain ⟨elements, rfl, hitems⟩ := exists_elements h
  exact ⟨_, Spelled.array hitems⟩

lemma isSpelled_sequence {expressions : List Node} (hlength : 2 ≤ expressions.length)
    (h : ∀ e ∈ expressions, e.IsSpelled) : (sequence expressions).IsSpelled := by
  obtain ⟨items, rfl, hitems⟩ := exists_items fun e he => (h e he).mono e.fitsIn_assignment
  rw [List.length_map] at hlength
  exact ⟨_, (Spelled.sequence hlength hitems).parens⟩

end Node

/-- Literals are words, numbers and strings. -/
lemma kind_of_literalKind? {w : Word} {kind : LiteralKind} (h : w.literalKind? = some kind) :
    w.kind.isWord = true ∨ w.kind = .number ∨ w.kind = .string := by
  unfold Word.literalKind? at h
  split at h
  case h_1 hnumber => exact .inr (.inl hnumber)
  case h_2 hstring => exact .inr (.inr hstring)
  case h_6 => cases h
  all_goals
    rename_i hreserved
    rw [hreserved]
    exact .inl rfl

/-- The kind of phrase that a node is printed as where it stands. -/
def Standing.phrase : Standing → Node → Phrase
  | expression, n => n.phrase
  | item, _ => .item

/-- Every printable expression spells itself. -/
theorem Printable.exists_spelled {place : Standing} {n : Node} (h : Printable place n) :
    ∃ ps, Spelled (place.phrase n) n n.steps ps := by
  induction h with
  | @identifier name hname =>
    exact ⟨_, .ofWord (.name rfl) (fun c hc tail => hname.stands_follower rfl hc tail)
      (hname.exists_of_operand (.inl rfl))⟩
  | @literal w kind hw hkind =>
    exact ⟨_, .ofWord ((Derives.literal hkind).mono (.head true (.operand (.refl _))))
      (fun c hc tail => hw.stands_literal hkind hc tail)
      (hw.exists_of_operand (kind_of_literalKind? hkind))⟩
  | thisValue =>
    have hthis : (reserved .kwThis).IsToken := by decide
    exact ⟨_, .ofWord .thisValue (fun c hc tail => hthis.stands_follower rfl hc tail)
      (hthis.exists_of_operand (.inl rfl))⟩
  | unary operator _ ih => exact Node.isSpelled_unary operator ih
  | update operator leading hplace _ ih => exact Node.isSpelled_update operator leading hplace ih
  | binary operator _ _ ihleft ihright => exact Node.isSpelled_binary operator ihleft ihright
  | logical operator _ _ ihleft ihright => exact Node.isSpelled_logical operator ihleft ihright
  | conditional _ _ _ ihtest ihconsequent ihalternate =>
    exact Node.isSpelled_conditional ihtest ihconsequent ihalternate
  | assignment operator hplace _ _ ihleft ihright =>
    exact Node.isSpelled_assignment operator hplace ihleft ihright
  | call optional _ _ ihcallee iharguments =>
    exact Node.isSpelled_call optional ihcallee iharguments
  | construction _ hspine _ ihcallee iharguments =>
    exact Node.isSpelled_construction ihcallee hspine iharguments
  | dot optional _ hw hword ih => exact Node.isSpelled_dot optional ih hw hword
  | index optional _ _ ihowner ihkey => exact Node.isSpelled_index optional ihowner ihkey
  | array _ ih => exact Node.isSpelled_array ih
  | sequence hlength _ ih => exact Node.isSpelled_sequence hlength ih
  | @item e _ ih => exact Node.IsSpelled.mono ih (e.fitsIn_assignment.trans .item)
  | @spread e _ ih =>
    obtain ⟨ps, hps⟩ := Node.IsSpelled.mono ih e.fitsIn_assignment
    exact ⟨_, hps.spread⟩

/-! ### Scripts of one expression -/

/-- A printable expression has no parentheses of its own as a statement. -/
lemma Printable.needsParensAsStatement_eq_false {e : Node} (h : Printable .expression e) :
    e.needsParensAsStatement = false := by
  cases h with
  | @assignment operator left right hplace _ _ =>
    cases left with
    | objectPattern properties => cases hplace
    | _ => rfl
  | _ => rfl

/-- The code of a script of one expression: its pieces, a semicolon and a line feed. -/
lemma toList_code_script {e : Node} {ps : List Piece} (h : Spells e.steps ps)
    (hparens : e.needsParensAsStatement = false) :
    ((Node.program [.expressionStatement e]).code {}).toList =
      charsOf (ps ++ [PieceOf.word (punctuator .semicolon)]) ++ ['\n'] := by
  have hsteps : (Node.program [.expressionStatement e]).steps =
      .indent :: ((inParensIf e.needsParensAsStatement e.steps ++ [CodeStep.text ";"]) ++
        [CodeStep.newLine]) :=
    List.append_nil _
  have hspells : Spells (e.steps ++ [CodeStep.text ";"])
      (ps ++ [PieceOf.word (punctuator .semicolon)]) :=
    h.append (Spells.nil.word (punctuator .semicolon))
  have hrun : ∀ b : CodeBuffer, b.run (.indent :: ((e.steps ++ [.text ";"]) ++ [.newLine])) =
      ((b.step .indent).run (e.steps ++ [.text ";"])).step .newLine := by
    intro b
    simp [CodeBuffer.run]
  rw [Node.code, Layout.render, hsteps, hparens, inParensIf, if_neg Bool.false_ne_true, hrun, hspells]
  simp [CodeBuffer.step, CodeBuffer.append, CodeBuffer.indentation]

/-- A printable expression that is printed as a script is read back as the same script.  The text
is refused only for its nesting, with a message that says so, and only if it is long: there are at
most three levels to each of its characters. -/
theorem parse_code_of_printable {e : Node} (h : Printable .expression e) :
    parse ((Node.program [.expressionStatement e]).code {}) =
        .ok (.program [.expressionStatement e]) ∨
      (Grammar.maxNesting < 3 * ((Node.program [.expressionStatement e]).code {}).length ∧
        ∃ error, parse ((Node.program [.expressionStatement e]).code {}) =
            .error (.refused error) ∧
          error.cause.message = "Maximum nesting depth exceeded.") := by
  obtain ⟨ps, hps⟩ := Node.IsSpelled.mono h.exists_spelled (e.fitsIn_assignment.trans .alone)
  have htext := toList_code_script hps.spells h.needsParensAsStatement_eq_false
  generalize (Node.program [.expressionStatement e]).code {} = text at htext ⊢
  -- The words of the text are those of the expression and a semicolon.
  have hlegible : Legible (ps ++ [.word (punctuator .semicolon)]) ['\n'] :=
    legible_append ⟨hps.legible (by decide), stands_punctuator_final rfl _, trivial⟩
  obtain ⟨c, hnext, hat⟩ := Cursor.exists_nextAfter hlegible Bool.false_ne_true.elim 0
  have hstart : (Cursor.start text).next? = some (c, none) := by
    rw [Cursor.next?_eq, ← hnext, ← htext]
    rfl
  rw [wordsOf_append] at hat
  rcases parse_of_derives hps.derives hstart hat with hok | ⟨hlong, span, herror⟩
  · exact .inl hok
  · refine .inr ⟨?_, _, herror, rfl⟩
    have hlength := hlegible.length_le
    rw [wordsOf_append] at hlength
    have hchars : text.length = (charsOf (ps ++ [.word (punctuator .semicolon)])).length + 1 := by
      rw [← String.length_toList, htext, List.length_append]
      rfl
    have hwords : (wordsOf ps ++ [punctuator .semicolon]).length < text.length := by
      rw [hchars]
      exact Nat.lt_succ_of_le hlength
    omega

/-- A constructed call in parentheses, a repeated sign, the base of a power, holes and optional links
in one expression. -/
def mixedExpression : Node :=
  .conditional (.sequence [.identifier "a", .literal .number "0x1F"])
    (.construction (.member (.call (.identifier "f") [.spread (.identifier "xs")] false)
      (.identifier "new") false false) [])
    (.assignment .add (.member .thisValue (.literal .string "\"k\"") true false)
      (.binary .power
        (.binary .power (.unary .minus (.unary .minus (.identifier "b"))) (.literal .null "null"))
        (.call (.array [none, some (.identifier "c"), none]) [] true)))

lemma printable_mixedExpression : Printable .expression mixedExpression := by
  have hname : ∀ name, Word.IsToken ⟨.identifier, name⟩ → Printable .expression (.identifier name) :=
    fun _ h => .identifier h
  have hnew : (reserved .kwNew).IsToken := by decide
  have hnumber : Printable .expression (.literal .number "0x1F") :=
    .literal (w := ⟨.number, "0x1F"⟩) (by decide) (by decide)
  have hstring : Printable .expression (.literal .string "\"k\"") :=
    .literal (w := ⟨.string, "\"k\""⟩) (by decide) rfl
  have hnull : Printable .expression (.literal .null "null") :=
    .literal (w := reserved .kwNull) (by decide) rfl
  have hspread : ∀ e ∈ [Node.spread (.identifier "xs")], Printable .item e := by
    simpa using Printable.spread (hname "xs" (by decide))
  have helements : ∀ e, some e ∈ [none, some (Node.identifier "c"), none] → Printable .item e := by
    simpa using Printable.item (hname "c" (by decide))
  have hsequence : ∀ e ∈ [Node.identifier "a", .literal .number "0x1F"],
      Printable .expression e := by
    simpa using ⟨hname "a" (by decide), hnumber⟩
  have hnone : ∀ e ∈ ([] : List Node), Printable .item e := by simp
  exact .conditional (.sequence (Nat.le_refl 2) hsequence)
    (.construction (.dot false (.call false (hname "f" (by decide)) hspread) hnew rfl) rfl hnone)
    (.assignment .add rfl (.index false .thisValue hstring)
      (.binary .power (.binary .power (.unary .minus (.unary .minus (hname "b" (by decide)))) hnull)
        (.call true (.array helements) hnone)))

/-- It is short enough to be read back. -/
theorem parse_code_mixedExpression :
    (Node.program [.expressionStatement mixedExpression]).code {} =
        "(a, 0x1F) ? new (f(...xs).new)() : this[\"k\"] += ((- -b) ** null) ** [, c, , ]?.();\n" ∧
      parse ((Node.program [.expressionStatement mixedExpression]).code {}) =
        .ok (.program [.expressionStatement mixedExpression]) := by
  have hcode : (Node.program [.expressionStatement mixedExpression]).code {} =
      "(a, 0x1F) ? new (f(...xs).new)() : this[\"k\"] += ((- -b) ** null) ** [, c, , ]?.();\n" := by
    decide
  refine ⟨hcode, ?_⟩
  rcases parse_code_of_printable printable_mixedExpression with hok | ⟨hlong, _⟩
  · exact hok
  · rw [hcode] at hlong
    exact absurd hlong (by decide)

/-- The name `\u{` is one by itself, but as a printed expression it takes in the semicolon and the
line break after it. -/
theorem printed_name_takes_semicolon :
    ScansAsName "\\u\x7b" ∧
      (Node.program [.expressionStatement (.identifier "\\u\x7b")]).code {} = "\\u\x7b;\n" ∧
      parse "\\u\x7b;\n" = .ok (.program [.expressionStatement (.identifier "\\u\x7b;\n")]) := by
  refine ⟨by rfl, by decide, ?_⟩
  rw [parse_ofList]
  rfl

end BindingProxy
