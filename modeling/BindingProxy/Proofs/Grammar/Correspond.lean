import BindingProxy.Proofs.Grammar.Likeness
import BindingProxy.Proofs.Grammar.Progress

/-!
# Rules that correspond

If the rules one level further in correspond, so do all the rules built on them, except that looking
ahead for an arrow has to be compared separately.
-/

namespace BindingProxy

namespace Grammar

open Parse Likeness

/-- The rules of two levels correspond, and those on the left advance. -/
structure Corresponding (S : Likeness) (g g' : Grammar) : Prop where
  advancing : g.Advancing
  statement (ctx : Context) : S.Corresponds (g.statement ctx) (g'.statement ctx)
  target (ctx : Context) : S.Corresponds (g.target ctx) (g'.target ctx)
  assignment (ctx : Context) : S.Corresponds (g.assignment ctx) (g'.assignment ctx)
  operand (limit : Nat) (ctx : Context) : S.Corresponds (g.operand limit ctx) (g'.operand limit ctx)
  unary (ctx : Context) : S.Corresponds (g.unary ctx) (g'.unary ctx)
  construction (ctx : Context) : S.Corresponds (g.construction ctx) (g'.construction ctx)

variable {S : Likeness} [hS : S.Lawful] {g g' : Grammar} (hh : Corresponding S g g')
  (ctx : Context)

/-! ### Patterns -/

lemma corresponds_literalToken (kind : LiteralKind) :
    S.Corresponds (literalToken kind) (literalToken kind) := by
  refine Within.of_advancesAt (Within.token fun t t' h => ?_) fun c hc hkind =>
    advancesAt_literalToken hc hkind kind
  rw [h.text_eq]
  exact Corresponds.advance.thenPure.toWithin

include hh

lemma corresponds_propertyKey : S.Corresponds (propertyKey g ctx) (propertyKey g' ctx) := by
  refine .kind (fun k => ?_) rfl
  split
  · exact (corresponds_literalToken _).thenPure
  · exact (corresponds_literalToken _).thenPure
  · exact .advanceThen <| (hh.assignment _).bind fun _ =>
      (Corresponds.expect _).thenPure
  · exact .ite Corresponds.word.thenPure (.reject _ _)

lemma corresponds_withDefault (target : Node) :
    S.Corresponds (withDefault g ctx target) (withDefault g' ctx target) :=
  .ifAccept (hh.assignment _).thenPure (.pure _) (by decide)

lemma corresponds_bindingElement : S.Corresponds (bindingElement g ctx) (bindingElement g' ctx) :=
  (hh.target ctx).bind fun _ => corresponds_withDefault hh ctx _

omit hh in
/-- The end of a turn that another element may follow. -/
lemma corresponds_comma {σ ρ : Type} (s : σ) (r : ρ) :
    S.Corresponds (do if ← accept .comma then return Turn.again s else return Turn.done r)
      (do if ← accept .comma then return Turn.again s else return Turn.done r) :=
  .ifAccept (.pure _) (.pure _) (by decide)

lemma corresponds_parameters : S.Corresponds (parameters g ctx) (parameters g' ctx) := by
  refine .expectThen <| .bind (.repeatFrom fun found => ?_) fun _ =>
    (Corresponds.expect _).thenPure
  refine .ifAtClose (.pure _) (Corresponds.toWithin (.ifAccept ?_ ?_ (by decide))) ?_
  · exact (hh.target _).thenPure
  · exact (corresponds_bindingElement hh _).bind fun _ => corresponds_comma _ _
  · refine Advances.after (.accept _) fun _ => .ite ?_ ?_
    · exact (hh.advancing.target _).thenPure
    · exact (advances_bindingElement hh.advancing _).bind fun _ => follows_comma _ _

lemma corresponds_arrayPattern : S.Corresponds (arrayPattern g ctx) (arrayPattern g' ctx) := by
  refine .expectThen <| .bind (.repeatFrom fun found => ?_) fun _ =>
    (Corresponds.expect _).thenPure
  refine .ifKind (.pure _) ?_ (by decide)
  refine .ifAccept (.pure _) ?_ (by decide)
  refine .ifAccept ?_ ?_ (by decide)
  · exact (hh.target _).thenPure
  · exact (corresponds_bindingElement hh _).bind fun _ => corresponds_comma _ _

lemma corresponds_patternMember : S.Corresponds (patternMember g ctx) (patternMember g' ctx) := by
  refine .kind (fun k => (corresponds_propertyKey hh ctx).bind fun key => ?_) rfl
  refine .ifAccept ?_ ?_ (by decide)
  · exact (corresponds_bindingElement hh ctx).thenPure
  · split
    · exact (corresponds_withDefault hh ctx _).thenPure
    · exact .reject _ _

lemma corresponds_objectPattern : S.Corresponds (objectPattern g ctx) (objectPattern g' ctx) := by
  refine .expectThen <| .bind (.repeatFrom fun found => ?_) fun _ =>
    (Corresponds.expect _).thenPure
  refine .ifKind (.pure _) ?_ (by decide)
  refine .ifAccept ?_ ?_ (by decide)
  · exact Corresponds.name.thenPure
  · exact (corresponds_patternMember hh _).bind fun _ => corresponds_comma _ _

lemma corresponds_bindingTarget : S.Corresponds (bindingTarget g ctx) (bindingTarget g' ctx) := by
  refine .kind (fun k => ?_) rfl
  split
  · exact corresponds_arrayPattern hh ctx
  · exact corresponds_objectPattern hh ctx
  · exact Corresponds.name.thenPure

/-! ### Functions and classes -/

lemma corresponds_block : S.Corresponds (block g ctx) (block g' ctx) := by
  refine .expectThen <| .bind (.repeatFrom fun found => ?_) fun _ => Corresponds.advance.thenPure
  refine .ifKind (.pure _) ?_ (by decide)
  refine .ifKind (.rejectThen _ _) ?_ (by decide)
  exact (hh.statement ctx).thenPure

lemma corresponds_functionRest (isAsync isGenerator : Bool) :
    S.Corresponds (functionRest g isAsync isGenerator) (functionRest g' isAsync isGenerator) :=
  (corresponds_parameters hh _).bind fun _ => (corresponds_block hh _).thenPure

omit hh in
lemma corresponds_optionalName (role : Role) (missing : SyntaxCause) :
    S.Corresponds (optionalName role missing) (optionalName role missing) := by
  refine .kind (fun k => .ite Corresponds.name.thenPure ?_) rfl
  cases role with
  | declaration => exact .reject _ _
  | expression => exact .pure _

lemma corresponds_functionDefinition (role : Role) (isAsync : Bool) :
    S.Corresponds (functionDefinition g role isAsync) (functionDefinition g' role isAsync) :=
  .expectWordThen <| .accept (fun _ => (corresponds_optionalName _ _).bind fun _ =>
    (corresponds_functionRest hh _ _).thenPure) (by decide)

lemma corresponds_methodFunction (isAsync isGenerator : Bool) :
    S.Corresponds (methodFunction g isAsync isGenerator) (methodFunction g' isAsync isGenerator) :=
  (corresponds_functionRest hh _ _).thenPure

omit hh in
/-- A question about the next token whose answer is no at the end of the common text. -/
lemma corresponds_peek {f : Token → Bool} (hf : ∀ t t' : Token, t.LooksAlike t' → f t' = f t)
    (hend : ∀ t : Token, t.kind.IsEnding → f t = false) :
    S.Corresponds (do return f (← peek)) (do return f (← peek)) :=
  .peek fun t t' h => by
    have heq : f t' = f t := by
      rcases h with h | ⟨h, h'⟩
      · exact hf t t' h
      · rw [hend t h, hend t' h']
    rw [heq]
    exact .pure _

omit hh in
lemma corresponds_isModifier : S.Corresponds isModifier isModifier := by
  refine corresponds_peek (fun t t' h => by rw [h.kind_eq, h.afterLineBreak_eq]) fun t h => ?_
  rcases h with h | h | h <;> rw [h] <;> exact Bool.and_false _

omit hh in
lemma corresponds_acceptModifier (w : ContextualWord) :
    S.Corresponds (acceptModifier w) (acceptModifier w) :=
  .ifKind (corresponds_isModifier.bind fun _ => .ite Corresponds.advance.thenPure (.pure _))
    (.pure _) ⟨by rintro ⟨⟩, by rintro ⟨⟩⟩

omit hh in
lemma corresponds_modifiers : S.Corresponds modifiers modifiers := by
  refine (corresponds_acceptModifier _).bind fun _ => ?_
  refine .accept (fun _ => .ite (.pure _) ?_) (by decide)
  refine (corresponds_acceptModifier _).bind fun _ => ?_
  refine .ite (.pure _) ((corresponds_acceptModifier _).bind fun _ => ?_)
  exact .ite (.pure _) (.pure _)

lemma corresponds_classMember : S.Corresponds (classMember g ctx) (classMember g' ctx) := by
  refine (corresponds_acceptModifier _).bind fun _ => corresponds_modifiers.bind fun m => ?_
  refine (corresponds_propertyKey hh ctx).bind fun key => .isAt (fun _ => ?_) (by decide)
  exact .ite (corresponds_methodFunction hh _ _).thenPure (.rejectThen _ _)

lemma corresponds_classDefinition {heritage heritage' : Parse Node}
    (hheritage : S.Corresponds heritage heritage') (role : Role) :
    S.Corresponds (classDefinition g ctx heritage role) (classDefinition g' ctx heritage' role) := by
  refine .expectWordThen <| (corresponds_optionalName _ _).bind fun id => ?_
  extract_lets rest rest'
  have hrest : ∀ superClass, S.Corresponds (rest superClass) (rest' superClass) := by
    refine fun superClass => .expectThen <| .bind (.repeatFrom fun found => ?_) fun _ =>
      Corresponds.advance.thenPure
    refine .ifKind (.pure _) ?_ (by decide)
    refine .acceptSemicolon (.pure _) (Corresponds.toWithin ?_)
    refine .ifKind (.rejectThen _ _) ?_ (by decide)
    exact (corresponds_classMember hh ctx).thenPure
  exact .ifAcceptWord (hheritage.map.bind hrest) (hrest none)

/-! ### Lists and literals -/

lemma corresponds_expression : S.Corresponds (expression g ctx) (expression g' ctx) := by
  refine (hh.assignment ctx).bind fun first => .ifKind ?_ (.pure _) (by decide)
  refine .bind (.repeatFrom fun found => ?_) fun _ => .pure _
  exact .ifAccept (hh.assignment ctx).thenPure (.pure _) (by decide)

lemma corresponds_spreadOrAssignment :
    S.Corresponds (spreadOrAssignment g ctx) (spreadOrAssignment g' ctx) :=
  .ifAccept (hh.assignment ctx).thenPure (hh.assignment ctx) (by decide)

lemma corresponds_arguments : S.Corresponds (arguments g ctx) (arguments g' ctx) := by
  refine .expectThen <| .bind (.repeatFrom fun found => ?_) fun _ =>
    (Corresponds.expect _).thenPure
  refine .ifAtClose (.pure _) (Corresponds.toWithin ?_) ?_
  · exact (corresponds_spreadOrAssignment hh _).bind fun _ => corresponds_comma _ _
  · exact (advances_spreadOrAssignment hh.advancing _).bind fun _ => follows_comma _ _

omit hh in
lemma corresponds_numberLiteral : S.Corresponds numberLiteral numberLiteral := by
  refine Within.of_advancesAt (Within.token fun t t' h => ?_) fun c hc hkind =>
    advancesAt_numberLiteral hc hkind
  rw [h.value_eq]
  exact Corresponds.advance.thenPure.toWithin

lemma corresponds_templateLiteral :
    S.Corresponds (templateLiteral g ctx) (templateLiteral g' ctx) := by
  refine Within.of_advancesAt (Within.token fun t t' h => Corresponds.toWithin ?_)
    fun c hc hkind => advancesAt_templateLiteral hh.advancing ctx hc hkind
  rw [h.kind_eq, h.value_eq]
  refine .ite ?_ Corresponds.advance.thenPure
  refine .bind (.repeatFrom fun parts => ?_) fun _ => Corresponds.advance.thenPure
  refine .advanceThen <| (corresponds_expression hh _).bind fun e => ?_
  refine .ifAt (Within.rereadBrace fun part part' hpart => ?_) (.rejectThen _ _) (by decide)
  rw [hpart.kind_eq, hpart.value_eq]
  exact (Corresponds.ite (.pure _) (.pure _)).toWithin

lemma corresponds_arrayLiteral : S.Corresponds (arrayLiteral g ctx) (arrayLiteral g' ctx) := by
  refine .expectThen <| .bind (.repeatFrom fun found => ?_) fun _ =>
    (Corresponds.expect _).thenPure
  refine .ifKind (.pure _) ?_ (by decide)
  refine .ifAccept (.pure _) ?_ (by decide)
  exact (corresponds_spreadOrAssignment hh _).bind fun _ => corresponds_comma _ _

lemma corresponds_shorthandMember (name : String) :
    S.Corresponds (shorthandMember g ctx name) (shorthandMember g' ctx name) :=
  .ifAccept (hh.assignment ctx).thenPure (.pure _) (by decide)

lemma corresponds_objectMember : S.Corresponds (objectMember g ctx) (objectMember g' ctx) := by
  refine .ifAccept (hh.assignment ctx).thenPure ?_ (by decide)
  refine corresponds_modifiers.bind fun m => ?_
  split
  · exact (corresponds_propertyKey hh ctx).bind fun key =>
      (corresponds_methodFunction hh _ _).thenPure
  · refine .kind (fun k => ?_) rfl
    refine (corresponds_propertyKey hh ctx).bind fun key => .isAt (fun _ => ?_) (by decide)
    refine .ite (corresponds_methodFunction hh _ _).thenPure ?_
    refine .ifAccept ?_ ?_ (by decide)
    · exact (hh.assignment ctx).thenPure
    · split
      · exact corresponds_shorthandMember hh ctx _
      · exact .reject _ _

lemma corresponds_objectLiteral : S.Corresponds (objectLiteral g ctx) (objectLiteral g' ctx) := by
  refine .expectThen <| .bind (.repeatFrom fun found => ?_) fun _ =>
    (Corresponds.expect _).thenPure
  refine .ifKind (.pure _) ?_ (by decide)
  exact (corresponds_objectMember hh _).bind fun _ => corresponds_comma _ _

/-! ### Operands -/

omit hh in
lemma corresponds_isFunctionAhead : S.Corresponds isFunctionAhead isFunctionAhead := by
  refine corresponds_peek (fun t t' h => by rw [h.kind_eq, h.afterLineBreak_eq]) fun t h => ?_
  rcases h with h | h | h <;> rw [h] <;> rfl

lemma corresponds_parenthesized : S.Corresponds (parenthesized g ctx) (parenthesized g' ctx) :=
  .expectThen <| (corresponds_expression hh _).bind fun _ =>
    (Corresponds.expect _).thenPure

lemma corresponds_primaryWith {heritage heritage' : Parse Node}
    (hheritage : S.Corresponds heritage heritage') :
    S.Corresponds (primaryWith g ctx heritage) (primaryWith g' ctx heritage') := by
  have hwithin : S.Within (primaryWith g ctx heritage) (primaryWith g' ctx heritage') := by
    refine Within.token fun t t' h => Corresponds.toWithin ?_
    have hname : S.Corresponds (do return Node.identifier (← name))
        (do return Node.identifier (← name)) := Corresponds.name.thenPure
    rw [h.kind_eq]
    split
    · exact corresponds_isFunctionAhead.bind fun _ =>
        .ite (.advanceThen <| corresponds_functionDefinition hh _ _) hname
    · exact hname
    · exact hname
    · exact corresponds_numberLiteral
    · exact corresponds_literalToken _
    · exact corresponds_literalToken _
    · exact corresponds_literalToken _
    · exact corresponds_literalToken _
    · exact Corresponds.rereadSlash.bind fun _ => corresponds_literalToken _
    · exact Corresponds.rereadSlash.bind fun _ => corresponds_literalToken _
    · exact corresponds_templateLiteral hh ctx
    · exact corresponds_templateLiteral hh ctx
    · exact Corresponds.advance.thenPure
    · exact Corresponds.advance.thenPure
    · exact corresponds_parenthesized hh ctx
    · exact corresponds_arrayLiteral hh ctx
    · exact corresponds_objectLiteral hh ctx
    · exact corresponds_functionDefinition hh _ _
    · exact corresponds_classDefinition hh ctx hheritage _
    · exact .unexpected
  refine ⟨hwithin, fun {c d} h => .lost ?_ (hwithin.right (hS.last_rightPast h))⟩
  have hleft : primaryWith g ctx heritage c = unexpected c := by
    unfold primaryWith
    rw [token_bind, hS.last_left h]
  rw [hleft]
  exact lostLeft_of_advancesAt h (advances_unexpected c (hS.last_atToken h))

lemma corresponds_index : S.Corresponds (index g ctx) (index g' ctx) :=
  .advanceThen <| (corresponds_expression hh _).bind fun _ =>
    (Corresponds.expect _).thenPure

lemma corresponds_optionalLink (owner : Node) :
    S.Corresponds (optionalLink g ctx owner) (optionalLink g' ctx owner) := by
  refine .kind (fun k => ?_) rfl
  split
  · exact (corresponds_arguments hh ctx).thenPure
  · exact (corresponds_index hh ctx).thenPure
  · exact Corresponds.word.thenPure

lemma corresponds_link (calls : Bool) (owner : Node) :
    S.Corresponds (link g ctx calls owner) (link g' ctx calls owner) := by
  refine .kind (fun k => ?_) rfl
  split
  · exact .advanceThen <| Corresponds.word.thenPure
  · exact (corresponds_index hh ctx).thenPure
  · exact .advanceThen <| (corresponds_optionalLink hh ctx owner).thenPure
  · exact (corresponds_arguments hh ctx).thenPure
  · exact (corresponds_templateLiteral hh ctx).thenPure
  · exact (corresponds_templateLiteral hh ctx).thenPure
  · exact .pure _

lemma corresponds_links (calls : Bool) (first : Node) :
    S.Corresponds (links g ctx calls first) (links g' ctx calls first) :=
  .repeatFrom fun _ => corresponds_link hh ctx calls _

/-- The numbers of classes that may be extended need not be the same. -/
lemma corresponds_leftHandSideWithin (bound bound' : List Char) :
    S.Corresponds (leftHandSideWithin g ctx bound) (leftHandSideWithin g' ctx bound') := by
  have hlinks := corresponds_links hh ctx true
  have hstep : ∀ {bound bound' : List Char} (x x' : Char),
      S.Corresponds (leftHandSideWithin g ctx bound) (leftHandSideWithin g' ctx bound') →
      S.Corresponds (leftHandSideWithin g ctx (x :: bound))
        (leftHandSideWithin g' ctx (x' :: bound')) := fun _ _ h =>
    .ifKind ((hh.construction ctx).bind hlinks) ((corresponds_primaryWith hh ctx h).bind hlinks)
      (by decide)
  -- Where one side may not extend any class, the other one still has to stay beyond the end.
  induction bound generalizing bound' with
  | nil =>
    induction bound' with
    | nil => exact ⟨⟨fun _ => .stalledLeft _, fun _ => trivial, fun _ => trivial⟩, fun _ => .stalledLeft _⟩
    | cons x' bound' ih =>
      exact ⟨⟨fun _ => .stalledLeft _, fun _ => trivial, (hstep x' x' ih).right⟩, fun _ => .stalledLeft _⟩
  | cons x bound ih =>
    cases bound' with
    | nil =>
      exact ⟨⟨fun _ => .stalledRight _, (hstep x x (ih [])).left, fun _ => trivial⟩,
        fun _ => .stalledRight _⟩
    | cons x' bound' => exact hstep x x' (ih bound')

lemma corresponds_leftHandSide : S.Corresponds (leftHandSide g ctx) (leftHandSide g' ctx) where
  agree h := (corresponds_leftHandSideWithin hh ctx _ _).agree h
  left h := (corresponds_leftHandSideWithin hh ctx _ []).left h
  right h := (corresponds_leftHandSideWithin hh ctx [] _).right h
  last h := (corresponds_leftHandSideWithin hh ctx _ _).last h

lemma corresponds_primary : S.Corresponds (primary g ctx) (primary g' ctx) :=
  corresponds_primaryWith hh ctx (corresponds_leftHandSide hh ctx)

omit hh in
lemma corresponds_newTarget : S.Corresponds newTarget newTarget :=
  Corresponds.word.bind fun _ => .ite (.pure _) (.rejectThen _ _)

lemma corresponds_newExpression : S.Corresponds (newExpression g ctx) (newExpression g' ctx) := by
  refine .expectWordThen <| .ifAccept corresponds_newTarget ?_ (by decide)
  have hfound : ∀ first : Node, S.Corresponds (do
      let callee ← links g ctx false first
      let found ← if ← isAt (.punctuator .openParen) then arguments g ctx else pure []
      return Node.construction callee found) (do
      let callee ← links g' ctx false first
      let found ← if ← isAt (.punctuator .openParen) then arguments g' ctx else pure []
      return Node.construction callee found) := fun first =>
    (corresponds_links hh ctx false first).bind fun callee =>
      .ifKind (corresponds_arguments hh ctx).thenPure (.pure _) (by decide)
  exact .ifKind ((hh.construction ctx).bind hfound) ((corresponds_primary hh ctx).bind hfound)
    (by decide)

/-! ### Operators -/

omit hh hS in
lemma corresponds_checkPlace (operand : Node) :
    S.Corresponds (checkPlace operand) (checkPlace operand) :=
  .ite (.pure _) (.reject _ _)

lemma corresponds_operandWithUpdate :
    S.Corresponds (operandWithUpdate g ctx) (operandWithUpdate g' ctx) := by
  refine (corresponds_leftHandSide hh ctx).bind fun operand => ?_
  refine ⟨Within.token fun t t' h => ?_, fun {c d} h => ?_⟩
  · rw [h.kind_eq, h.afterLineBreak_eq]
    refine Corresponds.toWithin ?_
    split
    · exact (corresponds_checkPlace _).bind fun _ => Corresponds.advance.thenPure
    · exact .pure _
  · rw [token_bind, token_bind, hS.last_left h, hS.last_right h]
    exact .last operand h

lemma corresponds_unaryExpression :
    S.Corresponds (unaryExpression g ctx) (unaryExpression g' ctx) := by
  refine .kind (fun k => ?_) ?_
  · split
    · exact .advanceThen <| (hh.unary ctx).thenPure
    split
    · exact .advanceThen <| (hh.unary ctx).bind fun _ => (corresponds_checkPlace _).thenPure
    · exact .ite (.advanceThen <| (hh.unary ctx).thenPure) (corresponds_operandWithUpdate hh ctx)
  · rfl

lemma corresponds_joinNext (limit : Nat) (left : Node) :
    S.Corresponds (joinNext g limit ctx left) (joinNext g' limit ctx left) := by
  refine .kind (fun k => ?_) ?_
  · split
    · exact .pure _
    · exact .ite (.pure _) (.advanceThen <| (hh.operand _ ctx).thenPure)
  · rfl

lemma corresponds_binaryExpression (limit : Nat) :
    S.Corresponds (binaryExpression g limit ctx) (binaryExpression g' limit ctx) :=
  (hh.unary ctx).bind fun _ => .repeatFrom fun _ => corresponds_joinNext hh ctx limit _

lemma corresponds_conditionalExpression :
    S.Corresponds (conditionalExpression g ctx) (conditionalExpression g' ctx) :=
  (corresponds_binaryExpression hh ctx 0).bind fun _ =>
    .ifAccept ((hh.assignment _).bind fun _ => .expectThen <| (hh.assignment ctx).thenPure)
    (.pure _) (by decide)

/-! ### Arrow functions and assignments -/

lemma corresponds_arrowParameters :
    S.Corresponds (arrowParameters g ctx) (arrowParameters g' ctx) :=
  .kind (fun _ => .ite Corresponds.name.thenPure (corresponds_parameters hh ctx)) rfl

lemma corresponds_arrowFunction (isAsync : Bool) :
    S.Corresponds (arrowFunction g ctx isAsync) (arrowFunction g' ctx isAsync) := by
  refine (corresponds_arrowParameters hh ctx).bind fun params => .afterLineBreak fun _ =>
    .ite (.rejectThen _ _) ?_
  refine .expectThen <| .ifKind ?_ ?_ (by decide)
  · exact (corresponds_block hh _).thenPure
  · exact (hh.assignment _).thenPure

/-- An arrow function, where the answers to whether one begins here correspond. -/
lemma corresponds_arrowFunction?
    (hasync : S.Corresponds (isAsyncArrowAhead g ctx) (isAsyncArrowAhead g' ctx))
    (harrow : S.Corresponds (isArrowAhead g ctx) (isArrowAhead g' ctx)) :
    S.Corresponds (arrowFunction? g ctx) (arrowFunction? g' ctx) :=
  hasync.bind fun _ => .ite (.advanceThen <| (corresponds_arrowFunction hh ctx true).thenPure)
    (harrow.bind fun _ => .ite (corresponds_arrowFunction hh ctx false).thenPure (.pure _))

lemma corresponds_yielding : S.Corresponds (yielding g ctx) (yielding g' ctx) := by
  refine .advanceThen <| ⟨Within.token fun t t' h => ?_, fun {c d} h => ?_⟩
  · rw [h.kind_eq, h.afterLineBreak_eq]
    refine (Corresponds.ite (.pure _) (.accept (fun _ => ?_) (by decide))).toWithin
    exact (hh.assignment ctx).thenPure
  · rw [token_bind, token_bind, hS.last_left h, hS.last_right h,
      hS.last_afterLineBreak h, if_pos (by simp [canYield]), if_pos (by simp [canYield])]
    exact .last _ h

lemma corresponds_conditionalOrAssignment :
    S.Corresponds (conditionalOrAssignment g ctx) (conditionalOrAssignment g' ctx) := by
  refine (corresponds_conditionalExpression hh ctx).bind fun left => .kind (fun k => ?_) rfl
  split
  · exact .pure _
  split
  · exact .reject _ _
  · exact .advanceThen <| (hh.assignment ctx).thenPure

lemma corresponds_assignmentExpression
    (harrow : S.Corresponds (arrowFunction? g ctx) (arrowFunction? g' ctx)) :
    S.Corresponds (assignmentExpression g ctx) (assignmentExpression g' ctx) := by
  refine .isAt (fun _ => .ite (corresponds_yielding hh ctx) ?_) (by decide)
  refine harrow.bind fun found => ?_
  cases found with
  | some arrow => exact .pure _
  | none => exact corresponds_conditionalOrAssignment hh ctx

/-! ### Statements -/

lemma corresponds_declarator : S.Corresponds (declarator g ctx) (declarator g' ctx) :=
  (hh.target ctx).bind fun _ => .ifAccept (hh.assignment ctx).thenPure (.pure _) (by decide)

lemma corresponds_declaration : S.Corresponds (declaration g ctx) (declaration g' ctx) := by
  refine .kind (fun k => ?_) rfl
  split
  · exact .unexpected
  · refine .advanceThen <| .bind (.repeatFrom fun found => ?_) fun _ => .pure _
    exact (corresponds_declarator hh ctx).bind fun _ => corresponds_comma _ _

omit hh in
lemma corresponds_isLetDeclaration : S.Corresponds isLetDeclaration isLetDeclaration := by
  refine corresponds_peek (fun t t' h => by rw [h.kind_eq]) fun t h => ?_
  rcases h with h | h | h <;> rw [h] <;> rfl

omit hh in
lemma corresponds_isDeclaration : S.Corresponds isDeclaration isDeclaration := by
  refine .kind (fun k => ?_) rfl
  split
  · exact .pure _
  · exact .pure _
  · exact corresponds_isLetDeclaration
  · exact .pure _

lemma corresponds_variableStatement :
    S.Corresponds (variableStatement g ctx) (variableStatement g' ctx) :=
  (corresponds_declaration hh ctx).bind fun _ => Corresponds.endStatement.thenPure

lemma corresponds_ifStatement : S.Corresponds (ifStatement g ctx) (ifStatement g' ctx) :=
  .advanceThen <| (corresponds_parenthesized hh ctx).bind fun _ => (hh.statement ctx).bind fun _ =>
    .ifAcceptWord (hh.statement ctx).thenPure (.pure _)

lemma corresponds_whileStatement : S.Corresponds (whileStatement g ctx) (whileStatement g' ctx) :=
  .advanceThen <| (corresponds_parenthesized hh ctx).bind fun _ => (hh.statement ctx).thenPure

lemma corresponds_doStatement : S.Corresponds (doStatement g ctx) (doStatement g' ctx) :=
  .advanceThen <| (hh.statement ctx).bind fun _ => .expectWordThen <|
    (corresponds_parenthesized hh ctx).bind fun _ =>
    .acceptSemicolon (.pure _) (Corresponds.pure _).toWithin

lemma corresponds_forEachRest (iteration : Iteration) (left : Node) :
    S.Corresponds (forEachRest g ctx iteration left) (forEachRest g' ctx iteration left) := by
  unfold forEachRest
  have hrest : ∀ target right : Node, S.Corresponds (do
      expect .closeParen
      return Node.forEach iteration target right (← g.statement ctx)) (do
      expect .closeParen
      return Node.forEach iteration target right (← g'.statement ctx)) := fun target right =>
    .expectThen <| (hh.statement ctx).thenPure
  split
  · exact .reject _ _
  · refine .advanceThen ?_
    cases iteration with
    | values => exact (hh.assignment _).bind fun right => hrest _ right
    | keys => exact (corresponds_expression hh _).bind fun right => hrest _ right

/-- The part of a loop's head before a punctuator, with what follows from it on. -/
lemma corresponds_expressionBefore {f f' : Option Node → Parse Node} {p : Punctuator}
    (hf : ∀ e, S.Corresponds (f e) (f' e)) (hadvances : ∀ e, Advances (f e)) :
    S.Corresponds (expressionBefore g ctx p >>= f) (expressionBefore g' ctx p >>= f') := by
  refine Within.of_advances ?_ (.after (follows_expressionBefore hh.advancing ctx p) hadvances)
  refine Within.bind (Within.isAt fun b => ?_) hf
  exact (Corresponds.ite (.pure _) (corresponds_expression hh _).thenPure).toWithin

lemma corresponds_forRest (init : Option Node) :
    S.Corresponds (forRest g ctx init) (forRest g' ctx init) := by
  refine .expectThen <| corresponds_expressionBefore hh ctx
    (fun test => .expectThen <| corresponds_expressionBefore hh ctx
    (fun step => .expectThen <| (hh.statement ctx).thenPure) fun step => ?_) fun test => ?_
  · exact (advances_expect _).bind fun _ => (hh.advancing.statement ctx).follows.thenPure
  · exact (advances_expect _).bind fun _ => (follows_expressionBefore hh.advancing ctx _).bind fun _ =>
      (Follows.expect _).bind fun _ => (hh.advancing.statement ctx).follows.thenPure

lemma corresponds_forStatement : S.Corresponds (forStatement g ctx) (forStatement g' ctx) := by
  refine .advanceThen <| .expectThen ?_
  have hinit : S.Within (forInit g ctx) (forInit g' ctx) := by
    refine Within.isAt fun b => Corresponds.toWithin (.ite (.pure _) ?_)
    refine corresponds_isDeclaration.bind fun _ => .ite ?_ ?_
    · exact (corresponds_declaration hh _).thenPure
    · exact (corresponds_expression hh _).thenPure
  refine Within.of_lost (hinit.bind fun init => .kind (fun k => ?_) rfl) fun {c d} h => ?_
  · split
    · exact corresponds_forEachRest hh ctx _ _
    · exact corresponds_forRest hh ctx _
  · have hnone : forInit g ctx c = .ok none c := by
      unfold forInit
      rw [isAt_bind, hS.last_left h]
      rfl
    rw [bind_of_ok hnone, kind_bind, hS.last_left h]
    refine lostLeft_of_advancesAt h ?_
    exact (advances_expect _).bind (fun _ => (follows_expressionBefore hh.advancing ctx _).bind fun _ =>
      (Follows.expect _).bind fun _ => (follows_expressionBefore hh.advancing ctx _).bind fun _ =>
        (Follows.expect _).bind fun _ => (hh.advancing.statement ctx).follows.thenPure) c
        (hS.last_atToken h)

lemma corresponds_branchBody : S.Corresponds (branchBody g ctx) (branchBody g' ctx) := by
  refine .repeatFrom fun found => .kind (fun k => ?_) rfl
  split
  · exact .pure _
  · exact .pure _
  · exact .pure _
  · exact .pure _
  · exact (hh.statement ctx).thenPure

lemma corresponds_branchTest : S.Corresponds (branchTest g ctx) (branchTest g' ctx) :=
  .ifAcceptWord (corresponds_expression hh _).thenPure (.ifAcceptWord (.pure _) (.reject _ _))

lemma corresponds_switchStatement :
    S.Corresponds (switchStatement g ctx) (switchStatement g' ctx) := by
  refine .advanceThen <| (corresponds_parenthesized hh ctx).bind fun _ => .expectThen <|
    .bind (.repeatFrom fun found => ?_) fun _ => Corresponds.advance.thenPure
  refine .ifKind (.pure _) ?_ (by decide)
  exact (corresponds_branchTest hh ctx).bind fun _ => .expectThen <|
    (corresponds_branchBody hh ctx).thenPure

lemma corresponds_expressionStatement :
    S.Corresponds (expressionStatement g ctx) (expressionStatement g' ctx) :=
  (corresponds_expression hh _).bind fun _ => Corresponds.endStatement.thenPure

omit hh in
/-- Passing the last semicolon at the end of a statement. -/
lemma lostLeft_endStatement {β : Type} {c d : Cursor} (h : S.last c d) {f : Unit → Parse β}
    (hf : ∀ {c}, S.leftPast c → S.LostLeft (f () c)) : S.LostLeft ((endStatement >>= f) c) := by
  refine lostLeft_bind ?_ fun _ => hf
  unfold endStatement
  rw [accept_bind_of_at (hS.last_left h)]
  exact lostLeft_bind (lostLeft_advance_last h) fun _ _ h => h

lemma corresponds_returnStatement :
    S.Corresponds (returnStatement g ctx) (returnStatement g' ctx) := by
  refine .advanceThen ?_
  have hrest : ∀ argument : Option Node, S.Corresponds
      (do endStatement; return Node.returning argument)
      (do endStatement; return Node.returning argument) := fun argument =>
    Corresponds.endStatement.thenPure
  refine Within.of_lost (Within.canEnd fun b => ?_) fun {c d} h => ?_
  · exact (Corresponds.ite (hrest none) ((corresponds_expression hh _).map.bind hrest)).toWithin
  · have hend : canEnd c = .ok true c := by
      change Reply.ok (c.token.kind == .punctuator .semicolon || _ || _ || _) c = _
      rw [hS.last_left h]
      rfl
    rw [bind_of_ok hend]
    exact lostLeft_endStatement h fun h => h

omit hh in
lemma corresponds_jumpStatement (jump : Jump) :
    S.Corresponds (jumpStatement jump) (jumpStatement jump) := by
  refine .advanceThen ?_
  have hrest : ∀ label : Option String, S.Corresponds
      (do endStatement; return Node.jump jump label)
      (do endStatement; return Node.jump jump label) := fun label =>
    Corresponds.endStatement.thenPure
  refine ⟨Within.token fun t t' h => ?_, fun {c d} h => ?_⟩
  · rw [h.kind_eq, h.afterLineBreak_eq]
    exact (Corresponds.ite ((Corresponds.name).map.bind hrest) (hrest none)).toWithin
  · rw [token_bind, token_bind, hS.last_left h, hS.last_right h]
    exact (hrest none).last h

lemma corresponds_throwStatement : S.Corresponds (throwStatement g ctx) (throwStatement g' ctx) :=
  .advanceThen <| .afterLineBreak fun _ => .ite (.rejectThen _ _)
    ((corresponds_expression hh _).bind fun _ => Corresponds.endStatement.thenPure)

lemma corresponds_handlerParameter :
    S.Corresponds (handlerParameter g ctx) (handlerParameter g' ctx) :=
  .ifAccept ((hh.target ctx).bind fun _ =>
    (Corresponds.expect _).thenPure) (.pure _) (by decide)

lemma corresponds_tryStatement : S.Corresponds (tryStatement g ctx) (tryStatement g' ctx) := by
  refine .advanceThen <| (corresponds_block hh ctx).bind fun body => ?_
  extract_lets rest rest'
  have hrest : ∀ recovery, S.Corresponds (rest recovery) (rest' recovery) := by
    intro recovery
    have hlast : ∀ finalizer : Option Node, S.Corresponds (do
        if recovery.isNone && finalizer.isNone then reject .handlerExpected
        return Node.guarded body recovery finalizer) (do
        if recovery.isNone && finalizer.isNone then reject .handlerExpected
        return Node.guarded body recovery finalizer) := fun finalizer =>
      .ite (.rejectThen _ _) (.pure _)
    exact .ifAcceptWord ((corresponds_block hh ctx).map.bind hlast) (hlast none)
  exact .ifAcceptWord ((corresponds_handlerParameter hh ctx).bind fun _ =>
    (corresponds_block hh ctx).bind fun _ => hrest _) (hrest none)

lemma corresponds_labeledStatement :
    S.Corresponds (labeledStatement g ctx) (labeledStatement g' ctx) :=
  Corresponds.name.bind fun _ => .expectThen <| (hh.statement ctx).thenPure

lemma corresponds_nameStatement : S.Corresponds (nameStatement g ctx) (nameStatement g' ctx) := by
  refine .peek fun t t' h => ?_
  have hcolon : t'.kind = .punctuator .colon ↔ t.kind = .punctuator .colon := by
    rcases h with h | ⟨h, h'⟩
    · rw [h.kind_eq]
    · rcases h with h | h | h <;> rcases h' with h' | h' | h' <;> rw [h, h'] <;> simp
  rw [if_congr hcolon rfl rfl]
  exact .ite (corresponds_labeledStatement hh ctx) (corresponds_expressionStatement hh ctx)

lemma corresponds_anyStatement : S.Corresponds (anyStatement g ctx) (anyStatement g' ctx) := by
  refine Within.of_advances (Within.kind fun k => Corresponds.toWithin ?_)
    (advances_anyStatement hh.advancing ctx)
  have hname := corresponds_nameStatement hh ctx
  split
  · exact corresponds_block hh ctx
  · exact corresponds_variableStatement hh ctx
  · exact corresponds_variableStatement hh ctx
  · exact corresponds_isLetDeclaration.bind fun _ =>
      .ite (corresponds_variableStatement hh ctx) hname
  · exact corresponds_functionDefinition hh _ _
  · exact corresponds_isFunctionAhead.bind fun _ =>
      .ite (.advanceThen <| corresponds_functionDefinition hh _ _) hname
  · exact corresponds_classDefinition hh ctx (corresponds_leftHandSide hh ctx) _
  · exact corresponds_ifStatement hh ctx
  · exact corresponds_forStatement hh ctx
  · exact corresponds_whileStatement hh ctx
  · exact corresponds_doStatement hh ctx
  · exact corresponds_returnStatement hh ctx
  · exact corresponds_jumpStatement _
  · exact corresponds_jumpStatement _
  · exact corresponds_throwStatement hh ctx
  · exact corresponds_tryStatement hh ctx
  · exact corresponds_switchStatement hh ctx
  · exact Corresponds.advance.thenPure
  · exact .advanceThen <| Corresponds.endStatement.thenPure
  · exact .reject _ _
  · exact hname
  · exact hname
  · exact corresponds_expressionStatement hh ctx

/-! ### Levels -/

/-- The level above, where assignments correspond. -/
lemma Corresponding.above
    (hassignment : ∀ ctx, S.Corresponds (assignmentExpression g ctx) (assignmentExpression g' ctx)) :
    Corresponding S g.above g'.above where
  advancing := hh.advancing.above
  statement := corresponds_anyStatement hh
  target := corresponds_bindingTarget hh
  assignment := hassignment
  operand limit ctx := corresponds_binaryExpression hh ctx limit
  unary := corresponds_unaryExpression hh
  construction := corresponds_newExpression hh

omit hh in
/-- Below the last level everything is refused. -/
lemma corresponding_exhausted (S : Likeness) : Corresponding S exhausted exhausted where
  advancing := advancing_exhausted
  statement _ := .reject _ _
  target _ := .reject _ _
  assignment _ := .reject _ _
  operand _ _ := .reject _ _
  unary _ := .reject _ _
  construction _ := .reject _ _

end Grammar

end BindingProxy
