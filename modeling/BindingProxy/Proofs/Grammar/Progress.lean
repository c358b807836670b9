import BindingProxy.Grammar.Program
import BindingProxy.Proofs.Grammar.Advance
import BindingProxy.Proofs.Token.Flawless

/-!
# Reading a script comes to an end

Every rule that reads an element of a list is past the token that it began at, provided that the
rules one level further in are.  The levels then follow by induction, no repetition runs out of
turns, and a script is read or refused.
-/

namespace BindingProxy

open Relation (ReflTransGen)

namespace Grammar

open Parse

/-- The rules of a level are past the token that they begin at, and those for expressions end just
after a token that can close one. -/
structure Advancing (g : Grammar) : Prop where
  statement (ctx : Context) : Advances (g.statement ctx)
  target (ctx : Context) : Advances (g.target ctx)
  closesAssignment (ctx : Context) : Closes (g.assignment ctx)
  closesOperand (limit : Nat) (ctx : Context) : Closes (g.operand limit ctx)
  closesUnary (ctx : Context) : Closes (g.unary ctx)
  closesConstruction (ctx : Context) : Closes (g.construction ctx)

variable {g : Grammar} (hg : g.Advancing) (ctx : Context) {c : Cursor}

include hg in
lemma Advancing.assignment : Advances (g.assignment ctx) := (hg.closesAssignment ctx).advances

include hg in
lemma Advancing.unary : Advances (g.unary ctx) := (hg.closesUnary ctx).advances

/-! ### Patterns -/

lemma advancesAt_literalToken (hc : c.AtToken) (hkind : c.token.kind ≠ .endOfText)
    (kind : LiteralKind) : AdvancesAt (literalToken kind) c :=
  .token (advancesAt_advance hc hkind (.pure _))

lemma closesAt_literalToken (hc : c.AtToken) (hkind : c.token.kind.CanClose) (kind : LiteralKind) :
    ClosesAt (literalToken kind) c :=
  .token (closesAt_advance hc hkind (.pure _))

include hg

lemma advances_propertyKey : Advances (propertyKey g ctx) := by
  intro c hc
  refine .kind ?_
  split
  · next hkind =>
    have hend : c.token.kind ≠ .endOfText := by rw [hkind]; rintro ⟨⟩
    exact advancesAt_bind (advancesAt_literalToken hc hend _) hc fun _ => .pure _
  · next hkind =>
    have hend : c.token.kind ≠ .endOfText := by rw [hkind]; rintro ⟨⟩
    exact advancesAt_bind (advancesAt_literalToken hc hend _) hc fun _ => .pure _
  · exact Advances.after .advance (fun _ => (hg.assignment _).bind fun _ =>
      (Follows.expect _).thenPure) c hc
  · exact Advances.ite advances_word.thenPure .reject c hc

lemma follows_withDefault (target : Node) : Follows (withDefault g ctx target) :=
  (Follows.accept _).bind fun _ => .ite (hg.assignment _).follows.thenPure (.pure _)

lemma advances_bindingElement : Advances (bindingElement g ctx) :=
  (hg.target ctx).bind fun _ => follows_withDefault hg ctx _

omit hg in
/-- The end of a turn that another element may follow. -/
lemma follows_comma {σ ρ : Type} (s : σ) (r : ρ) :
    Follows (do if ← accept .comma then return Turn.again s else return Turn.done r) :=
  (Follows.accept _).bind fun _ => .ite (.pure _) (.pure _)

omit hg in
/-- A list in brackets.  A turn ends it at the closing bracket and is past its token otherwise. -/
lemma closes_bracketed {σ ρ β : Type} {opening closing : Punctuator} {start : σ} {result : σ → ρ}
    {turn : σ → Parse (Turn σ ρ)} {f : ρ → β} (hclosing : closing ≠ .semicolon)
    (hturn : ∀ s c, c.AtToken → Goes (turn s) c (Turn.Onward c)) :
    Closes (do
      expect opening
      let found ← repeatFrom start fun s => do
        if ← isAt (.punctuator closing) then return .done (result s)
        turn s
      expect closing
      return f found) := by
  refine .after (.expect _) fun _ => .after (.repeatFrom fun s c hc => ?_) fun _ =>
    (closes_expect hclosing).thenPure
  exact .ifAt (fun _ => .pure (Turn.onward_done _)) fun _ => hturn s c hc

lemma advances_parameters : Advances (parameters g ctx) := by
  refine (closes_bracketed (by decide) fun found c hc => AdvancesAt.onward ?_).advances
  refine Advances.after (.accept _) (fun _ => .ite ?_ ?_) c hc
  · exact (hg.target _).thenPure
  · exact (advances_bindingElement hg _).bind fun _ => follows_comma _ _

lemma advances_arrayPattern : Advances (arrayPattern g ctx) := by
  refine (closes_bracketed (by decide) fun found c hc => ?_).advances
  refine .ifAccept (fun c' hpasses => .pure hpasses) (AdvancesAt.onward ?_)
  refine Advances.after (.accept _) (fun _ => .ite ?_ ?_) c hc
  · exact (hg.target _).thenPure
  · exact (advances_bindingElement hg _).bind fun _ => follows_comma _ _

lemma advances_patternMember : Advances (patternMember g ctx) := by
  refine .after .kind fun k => (advances_propertyKey hg ctx).bind fun key => ?_
  refine (Follows.accept _).bind fun _ => .ite ?_ ?_
  · exact (advances_bindingElement hg ctx).follows.thenPure
  · split
    · exact (follows_withDefault hg ctx _).thenPure
    · exact .reject

lemma advances_objectPattern : Advances (objectPattern g ctx) := by
  refine (closes_bracketed (by decide) fun found c hc => AdvancesAt.onward ?_).advances
  refine Advances.after (.accept _) (fun _ => .ite ?_ ?_) c hc
  · exact advances_name.thenPure
  · exact (advances_patternMember hg _).bind fun _ => follows_comma _ _

lemma advances_bindingTarget : Advances (bindingTarget g ctx) := by
  refine .after .kind fun k => ?_
  split
  · exact advances_arrayPattern hg ctx
  · exact advances_objectPattern hg ctx
  · exact advances_name.thenPure

/-! ### Functions and classes -/

lemma closes_block : Closes (block g ctx) := by
  refine .after (.expect _) fun _ => .repeatThen fun found c hc => ?_
  refine .ifAt (fun hkind => .pure ?_) fun _ => .ifAt (fun _ => .rejectThen) fun _ => ?_
  · change c.token.kind.CanClose
    rw [hkind]
    decide
  · exact (hg.statement ctx c hc).bind fun _ _ hpasses => .pure ⟨hpasses, trivial⟩

lemma advances_block : Advances (block g ctx) := (closes_block hg ctx).advances

lemma closes_functionRest (isAsync isGenerator : Bool) :
    Closes (functionRest g isAsync isGenerator) :=
  .after (advances_parameters hg _).follows fun _ => (closes_block hg _).thenPure

omit hg in
lemma follows_optionalName (role : Role) (missing : SyntaxCause) :
    Follows (optionalName role missing) := by
  refine Follows.kind.bind fun k => .ite advances_name.follows.thenPure ?_
  cases role with
  | declaration => exact .reject
  | expression => exact .pure _

lemma closes_functionDefinition (role : Role) (isAsync : Bool) :
    Closes (functionDefinition g role isAsync) :=
  .after (.expectWord _) fun _ => .after (.accept _) fun _ =>
    .after (follows_optionalName _ _) fun _ => (closes_functionRest hg _ _).thenPure

lemma advances_functionDefinition (role : Role) (isAsync : Bool) :
    Advances (functionDefinition g role isAsync) := (closes_functionDefinition hg role isAsync).advances

lemma advances_methodFunction (isAsync isGenerator : Bool) :
    Advances (methodFunction g isAsync isGenerator) :=
  (closes_functionRest hg _ _).advances.thenPure

omit hg in
lemma follows_isModifier : Follows isModifier := Follows.peek.thenPure

omit hg in
lemma follows_acceptModifier (w : ContextualWord) : Follows (acceptModifier w) :=
  (Follows.isAt _).bind fun _ => .ite (follows_isModifier.bind fun _ =>
    .ite Follows.advance.thenPure (.pure _)) (.pure _)

omit hg in
lemma follows_modifiers : Follows modifiers :=
  (follows_acceptModifier _).bind fun _ => (Follows.accept _).bind fun _ => .ite (.pure _)
    ((follows_acceptModifier _).bind fun _ => .ite (.pure _)
      ((follows_acceptModifier _).bind fun _ => .ite (.pure _) (.pure _)))

lemma advances_classMember : Advances (classMember g ctx) := by
  refine .after (follows_acceptModifier _) fun _ => .after follows_modifiers fun m => ?_
  refine (advances_propertyKey hg ctx).bind fun key => (Follows.isAt _).bind fun _ => ?_
  exact .ite (advances_methodFunction hg _ _).follows.thenPure
    (Follows.bind .reject fun _ => (advances_methodFunction hg _ _).follows.thenPure)

/-- A class, where `heritage` closes an expression from every cursor past the word `class`. -/
lemma closesAt_classDefinition {heritage : Parse Node} (hc : c.AtToken)
    (hheritage : ∀ c', c.Passes c' → ClosesAt heritage c') (role : Role) :
    ClosesAt (classDefinition g ctx heritage role) c := by
  refine (advances_expectWord _ c hc).bind fun _ c1 hpasses1 => ?_
  refine (follows_optionalName _ _ c1 (hpasses1.atToken hc)).bind fun id c2 hmoves => ?_
  have hpasses2 := hpasses1.then_moves hc hmoves
  extract_lets rest
  have hrest : ∀ superClass c', c.Passes c' → Goes (rest superClass) c' fun _ c'' => c.Closed c'' := by
    intro superClass c' hpasses
    refine Goes.mono ?_ fun _ _ => .of_moves hpasses.moves
    refine Closes.after (.expect _) (fun _ => .repeatThen fun found c hc => ?_) c'
      (hpasses.atToken hc)
    refine .ifAt (fun hkind => .pure ?_) fun _ => .ifAccept (fun c' hpasses => .pure ⟨hpasses, trivial⟩)
      (.ifAt (fun _ => .rejectThen) fun _ => ?_)
    · change c.token.kind.CanClose
      rw [hkind]
      decide
    · exact (advances_classMember hg ctx c hc).bind fun _ _ hpasses => .pure ⟨hpasses, trivial⟩
  refine .ifAcceptWord (fun c3 hpasses3 => ?_) (hrest none c2 hpasses2)
  have hpasses3 := hpasses2.then_moves hc hpasses3.moves
  refine (Goes.map (R := fun _ c4 => c3.Closed c4) (hheritage c3 hpasses3)).bind fun superClass c4 h => ?_
  exact hrest superClass c4 (hpasses3.then_moves hc h.moves)

/-! ### Lists and literals -/

lemma advances_expression : Advances (expression g ctx) := by
  refine (hg.assignment ctx).bind fun first => (Follows.isAt _).bind fun _ => .ite ?_ (.pure _)
  refine .bind (.repeatFrom fun found c hc => ?_) fun _ => .pure _
  refine .ifAccept (fun c' hpasses => ?_) (.pure (Turn.onward_done _))
  exact (hg.assignment ctx c' (hpasses.atToken hc)).bind fun _ c'' h =>
    .pure (hpasses.then_moves hc h.moves)

lemma advances_spreadOrAssignment : Advances (spreadOrAssignment g ctx) :=
  .after (.accept _) fun _ => .ite (hg.assignment ctx).thenPure (hg.assignment ctx)

lemma closes_arguments : Closes (arguments g ctx) := by
  refine closes_bracketed (by decide) fun found c hc => AdvancesAt.onward ?_
  exact (advances_spreadOrAssignment hg _).bind (fun _ => follows_comma _ _) c hc

lemma advances_arguments : Advances (arguments g ctx) := (closes_arguments hg ctx).advances

omit hg in
lemma advancesAt_numberLiteral (hc : c.AtToken) (hkind : c.token.kind ≠ .endOfText) :
    AdvancesAt numberLiteral c :=
  .token (advancesAt_advance hc hkind (.pure _))

/-- A template without substitutions is one token. -/
lemma goes_templateLiteral (hc : c.AtToken) : Goes (templateLiteral g ctx) c fun _ c' =>
    c.Closed c' ∨ c.next? = some (c', none) := by
  refine .token (.ite (fun _ => ?_) fun _ => Goes.advance.bind fun _ c' hnext => .pure (.inr hnext))
  refine Goes.mono (Closes.repeatThen (fun parts c hc => ?_) c hc) fun _ _ => .inl
  refine (Follows.advance c hc).bind fun _ c1 hmoves => ?_
  refine (advances_expression hg _ c1 (hc.follows hmoves).atToken).bind fun e c2 hpasses => ?_
  refine .ifAt (fun _ => ?_) fun _ => .rejectThen
  have hpasses2 := Cursor.Passes.of_moves hc hmoves hpasses
  refine (Follows.rereadBrace c2 (hpasses2.atToken hc)).bind fun _ c3 hmoves3 => ?_
  refine .token (.ite (fun htail => .pure ?_) fun _ => .pure ⟨hpasses2.then_moves hc hmoves3, trivial⟩)
  change c3.token.kind.CanClose
  rw [htail]
  decide

lemma closesAt_templateLiteral (hc : c.AtToken) (hkind : c.token.kind.CanClose) :
    ClosesAt (templateLiteral g ctx) c := by
  refine (goes_templateLiteral hg ctx hc).mono fun _ c' h => ?_
  rcases h with hclosed | hnext
  · exact hclosed
  · exact ⟨c, .refl, hnext, hkind⟩

lemma advancesAt_templateLiteral (hc : c.AtToken) (hkind : c.token.kind ≠ .endOfText) :
    AdvancesAt (templateLiteral g ctx) c := by
  refine (goes_templateLiteral hg ctx hc).mono fun _ c' h => ?_
  rcases h with hclosed | hnext
  · exact hclosed.passes hc
  · exact .next? hkind hnext

lemma follows_templateLiteral : Follows (templateLiteral g ctx) := fun _ hc =>
  (goes_templateLiteral hg ctx hc).and_moves.mono fun _ _ h => h.1

lemma closes_arrayLiteral : Closes (arrayLiteral g ctx) := by
  refine closes_bracketed (by decide) fun found c hc => ?_
  refine .ifAccept (fun c' hpasses => .pure hpasses) (AdvancesAt.onward ?_)
  exact (advances_spreadOrAssignment hg _).bind (fun _ => follows_comma _ _) c hc

lemma advances_arrayLiteral : Advances (arrayLiteral g ctx) := (closes_arrayLiteral hg ctx).advances

lemma follows_shorthandMember (name : String) : Follows (shorthandMember g ctx name) :=
  (Follows.accept _).bind fun _ => .ite (hg.assignment ctx).follows.thenPure (.pure _)

lemma advances_objectMember : Advances (objectMember g ctx) := by
  refine .after (.accept _) fun _ => .ite (hg.assignment ctx).thenPure ?_
  refine .after follows_modifiers fun m => ?_
  split
  · exact (advances_propertyKey hg ctx).bind fun key =>
      (advances_methodFunction hg _ _).follows.thenPure
  · refine .after .kind fun k => (advances_propertyKey hg ctx).bind fun key => ?_
    refine (Follows.isAt _).bind fun _ => .ite ?_ ((Follows.accept _).bind fun _ => .ite ?_ ?_)
    · exact (advances_methodFunction hg _ _).follows.thenPure
    · exact (hg.assignment ctx).follows.thenPure
    · split
      · exact follows_shorthandMember hg ctx _
      · exact .reject

lemma closes_objectLiteral : Closes (objectLiteral g ctx) := by
  refine closes_bracketed (by decide) fun found c hc => AdvancesAt.onward ?_
  exact (advances_objectMember hg _).bind (fun _ => follows_comma _ _) c hc

lemma advances_objectLiteral : Advances (objectLiteral g ctx) := (closes_objectLiteral hg ctx).advances

/-! ### Operands -/

omit hg in
lemma follows_isFunctionAhead : Follows isFunctionAhead := Follows.peek.thenPure

lemma closes_parenthesized : Closes (parenthesized g ctx) :=
  .after (.expect _) fun _ => .after (advances_expression hg _).follows fun _ =>
    (closes_expect (by decide)).thenPure

lemma advances_parenthesized : Advances (parenthesized g ctx) := (closes_parenthesized hg ctx).advances

omit hg in
/-- A slash that is read again as a regular expression. -/
lemma closesAt_regExp (hc : c.AtToken)
    (hkind : c.token.kind = .punctuator .slash ∨ c.token.kind = .punctuator .slashAssign) :
    ClosesAt (rereadSlash >>= fun _ => literalToken .regExp) c := by
  refine Goes.rereadSlash.bind fun _ c' h => ?_
  have hclose : c'.token.kind.CanClose := by
    rw [(Cursor.kind_of_rereadSlash h hkind).2.2]
    decide
  exact (closesAt_literalToken (Cursor.rereads_of_rereadSlash hc h).atToken hclose _).mono
    fun _ _ => .of_moves (.single (.slash h))

/-- What begins with its own token, where `heritage` closes an expression past that token. -/
lemma closesAt_primaryWith {heritage : Parse Node} (hc : c.AtToken)
    (hheritage : ∀ c', c.Passes c' → ClosesAt heritage c') :
    ClosesAt (primaryWith g ctx heritage) c := by
  have hname : Closes (do return Node.identifier (← name)) := closes_name.thenPure
  by_cases hclose : c.token.kind.CanClose
  swap
  · refine .token ?_
    rcases Decidable.not_and_iff_not_or_not.1 hclose with hkind | hkind <;>
      rw [not_not.1 hkind] <;> exact Closes.unexpected c hc
  refine .token ?_
  split
  · exact Closes.after follows_isFunctionAhead (fun _ => .ite (.after .advance fun _ =>
      closes_functionDefinition hg _ _) hname) c hc
  · exact hname c hc
  · exact hname c hc
  · exact .token (closesAt_advance hc hclose (.pure _))
  · exact closesAt_literalToken hc hclose _
  · exact closesAt_literalToken hc hclose _
  · exact closesAt_literalToken hc hclose _
  · exact closesAt_literalToken hc hclose _
  · next hkind => exact closesAt_regExp hc (.inl hkind)
  · next hkind => exact closesAt_regExp hc (.inr hkind)
  · exact closesAt_templateLiteral hg ctx hc hclose
  · exact closesAt_templateLiteral hg ctx hc hclose
  · exact closesAt_advance hc hclose (.pure _)
  · exact closesAt_advance hc hclose (.pure _)
  · exact closes_parenthesized hg ctx c hc
  · exact closes_arrayLiteral hg ctx c hc
  · exact closes_objectLiteral hg ctx c hc
  · exact closes_functionDefinition hg _ _ c hc
  · exact closesAt_classDefinition hg ctx hc hheritage _
  · exact Closes.unexpected c hc

lemma closes_index : Closes (index g ctx) :=
  .after .advance fun _ => .after (advances_expression hg _).follows fun _ =>
    (closes_expect (by decide)).thenPure

lemma closes_optionalLink (owner : Node) : Closes (optionalLink g ctx owner) := by
  refine .after .kind fun k => ?_
  split
  · exact (closes_arguments hg ctx).thenPure
  · exact (closes_index hg ctx).thenPure
  · exact closes_word.thenPure

lemma goes_link (calls : Bool) (owner : Node) (hc : c.AtToken) :
    Goes (link g ctx calls owner) c (Turn.Extends c) := by
  refine .kind ?_
  split
  · exact ClosesAt.extends (Closes.after .advance (fun _ => closes_word.thenPure) c hc)
  · exact ClosesAt.extends ((closes_index hg ctx).bind (fun _ => .pure _) c hc)
  · exact ClosesAt.extends (Closes.after .advance (fun _ =>
      (closes_optionalLink hg ctx owner).thenPure) c hc)
  · exact ClosesAt.extends ((closes_arguments hg ctx).bind (fun _ => .pure _) c hc)
  · next hkind =>
    have htemplate := closesAt_templateLiteral hg ctx hc (hkind ▸ by decide)
    exact ClosesAt.extends (closesAt_bind htemplate hc fun _ => .pure _)
  · next hkind =>
    have htemplate := closesAt_templateLiteral hg ctx hc (hkind ▸ by decide)
    exact ClosesAt.extends (closesAt_bind htemplate hc fun _ => .pure _)
  · exact .pure (Turn.extends_done _)

lemma staysClosed_links (calls : Bool) (first : Node) : StaysClosed (links g ctx calls first) :=
  .repeatFrom fun _ _ hc => goes_link hg ctx calls _ hc

lemma follows_links (calls : Bool) (first : Node) : Follows (links g ctx calls first) :=
  .repeatFrom fun _ _ hc => (goes_link hg ctx calls _ hc).mono fun _ _ h => h.onward hc

/-- Each class that is extended takes the word `class`, so the text that is left bounds how many
there are. -/
lemma closesAt_leftHandSideWithin {bound : List Char} (hc : c.AtToken)
    (hbound : Suffices bound c) : ClosesAt (leftHandSideWithin g ctx bound) c := by
  induction bound generalizing c with
  | nil => exact absurd hbound.1 (by simp)
  | cons x bound ih =>
    have hlinks := staysClosed_links hg ctx true
    refine .ifAt (fun _ => closesAt_bind (hg.closesConstruction ctx c hc) hc hlinks) fun _ => ?_
    refine closesAt_bind (closesAt_primaryWith hg ctx hc fun c' hpasses => ?_) hc hlinks
    exact ih (hpasses.atToken hc) (hbound.passes hc hpasses)

lemma closes_leftHandSide : Closes (leftHandSide g ctx) := fun c hc =>
  .congr (leftHandSide_apply g ctx c)
    (closesAt_leftHandSideWithin hg ctx hc (suffices_tokenBound c))

lemma advances_leftHandSide : Advances (leftHandSide g ctx) := (closes_leftHandSide hg ctx).advances

lemma advances_classDefinition (role : Role) :
    Advances (classDefinition g ctx (leftHandSide g ctx) role) := fun _ hc =>
  (closesAt_classDefinition hg ctx hc (fun c' hpasses =>
    closes_leftHandSide hg ctx c' (hpasses.atToken hc)) role).mono fun _ _ h => h.passes hc

lemma closes_primary : Closes (primary g ctx) := fun _ hc =>
  closesAt_primaryWith hg ctx hc fun c' hpasses =>
    closes_leftHandSide hg ctx c' (hpasses.atToken hc)

omit hg in
lemma closes_newTarget : Closes newTarget :=
  closes_word.bind fun _ => .ite (.pure _) (StaysClosed.bind .reject fun _ => .pure _)

lemma closes_newExpression : Closes (newExpression g ctx) := by
  refine .after (.expectWord _) fun _ => .after (.accept _) fun _ =>
    .ite closes_newTarget ?_
  have hfound : ∀ first : Node, StaysClosed (do
      let callee ← links g ctx false first
      let found ← if ← isAt (.punctuator .openParen) then arguments g ctx else pure []
      return Node.construction callee found) := fun first =>
    (staysClosed_links hg ctx false first).bind fun callee => .isAt fun _ =>
      .ite (closes_arguments hg ctx).thenPure.staysClosed (.pure _)
  exact .after (.isAt _) fun _ => .ite ((hg.closesConstruction ctx).bind hfound)
    ((closes_primary hg ctx).bind hfound)

/-! ### Operators -/

omit hg in
lemma goes_checkPlace (operand : Node) : Goes (checkPlace operand) c fun _ c' => c' = c :=
  .ite (fun _ => .pure rfl) fun _ => .reject

lemma closes_operandWithUpdate : Closes (operandWithUpdate g ctx) := by
  refine (closes_leftHandSide hg ctx).bind fun operand b c hb hclosed => .token ?_
  split
  · next operator hoperator _ =>
    have hkind : c.token.kind.CanClose := by
      constructor <;> intro hkind <;> rw [hkind] at hoperator <;> cases hoperator
    refine (goes_checkPlace _).bind fun _ c' hc' => ?_
    subst hc'
    exact StaysClosed.advance hb hclosed hkind (.pure _)
  · exact .pure hclosed

lemma closes_unaryExpression : Closes (unaryExpression g ctx) := by
  refine .after .kind fun k => ?_
  split
  · exact .after .advance fun _ => (hg.closesUnary ctx).thenPure
  split
  · exact .after .advance fun _ => (hg.closesUnary ctx).bind fun _ =>
      StaysClosed.bind (.ite (.pure _) .reject) fun _ => .pure _
  · exact .ite (.after .advance fun _ => (hg.closesUnary ctx).thenPure)
      (closes_operandWithUpdate hg ctx)

lemma goes_joinNext (limit : Nat) (left : Node) (hc : c.AtToken) :
    Goes (joinNext g limit ctx left) c (Turn.Extends c) := by
  refine .kind ?_
  split
  · exact .pure (Turn.extends_done _)
  · refine .ite (fun _ => .pure (Turn.extends_done _)) fun _ => ClosesAt.extends ?_
    exact Closes.after .advance (fun _ => (hg.closesOperand _ ctx).thenPure) c hc

lemma closes_binaryExpression (limit : Nat) : Closes (binaryExpression g limit ctx) :=
  (hg.closesUnary ctx).bind fun _ => .repeatFrom fun _ _ hc => goes_joinNext hg ctx limit _ hc

lemma advances_binaryExpression (limit : Nat) : Advances (binaryExpression g limit ctx) :=
  (closes_binaryExpression hg ctx limit).advances

lemma closes_conditionalExpression : Closes (conditionalExpression g ctx) := by
  refine (closes_binaryExpression hg ctx 0).bind fun _ => .ifAccept ?_ (.pure _)
  exact .after (hg.assignment _).follows fun _ => .after (.expect _) fun _ =>
    (hg.closesAssignment ctx).thenPure

/-! ### Arrow functions and assignments -/

lemma follows_isArrowAhead : Follows (isArrowAhead g ctx) :=
  Follows.kind.bind fun _ => .ite Follows.peek.thenPure
    (.ite (.lookAhead ((advances_parameters hg ctx).follows.bind fun _ => Follows.token.thenPure))
    (.pure _))

lemma follows_isAsyncArrowAhead : Follows (isAsyncArrowAhead g ctx) :=
  (Follows.isAt _).bind fun _ => .ite (.lookAhead (Follows.advance.bind fun _ =>
    Follows.afterLineBreak.bind fun _ => .ite (.pure _) (follows_isArrowAhead hg ctx))) (.pure _)

lemma advances_arrowParameters : Advances (arrowParameters g ctx) :=
  .after .kind fun _ => .ite advances_name.thenPure (advances_parameters hg ctx)

lemma closes_arrowFunction (isAsync : Bool) : Closes (arrowFunction g ctx isAsync) := by
  have hbody : ∀ params : List Node, Closes (do
      expect .arrow
      let inner := ctx.ofArrow isAsync
      if ← isAt (.punctuator .openBrace) then
        return Node.arrow params (← block g inner.allowIn) false isAsync
      else
        return .arrow params (← g.assignment inner) true isAsync) := fun params =>
    .after (.expect _) fun _ => .after (.isAt _) fun _ =>
      .ite (closes_block hg _).thenPure (hg.closesAssignment _).thenPure
  exact .after (advances_arrowParameters hg ctx).follows fun params => .after .afterLineBreak fun _ =>
    .ite (Closes.reject.bind fun _ => (hbody params).staysClosed) (hbody params)

/-- An arrow function that begins here is read to its end. -/
lemma goes_arrowFunction? (hc : c.AtToken) : Goes (arrowFunction? g ctx) c fun found c' =>
    ReflTransGen Cursor.Moves c c' ∧ (found ≠ none → c.Closed c') := by
  have hsome : ∀ {p : Parse Node}, Closes p → ∀ c', ReflTransGen Cursor.Moves c c' →
      Goes (p >>= fun arrow => pure (some arrow)) c' fun found c'' =>
        ReflTransGen Cursor.Moves c c'' ∧ (found ≠ none → c.Closed c'') := by
    intro p hp c' hmoves
    refine (hp c' (hc.follows hmoves).atToken).bind fun _ c'' hclosed => .pure ?_
    exact ⟨hmoves.trans hclosed.moves, fun _ => .of_moves hmoves hclosed⟩
  refine (follows_isAsyncArrowAhead hg ctx c hc).bind fun _ c' hmoves => .ite (fun _ => ?_) fun _ => ?_
  · refine (Follows.advance c' (hc.follows hmoves).atToken).bind fun _ c'' hmoves' => ?_
    exact hsome (closes_arrowFunction hg ctx true) c'' (hmoves.trans hmoves')
  · refine (follows_isArrowAhead hg ctx c' (hc.follows hmoves).atToken).bind fun _ c'' hmoves' => ?_
    refine .ite (fun _ => ?_) fun _ => .pure ⟨hmoves.trans hmoves', fun h => absurd rfl h⟩
    exact hsome (closes_arrowFunction hg ctx false) c'' (hmoves.trans hmoves')

lemma closesAt_yielding (hc : c.AtToken) (hkind : c.token.kind.CanClose) :
    ClosesAt (yielding g ctx) c := by
  refine closesAt_advance hc hkind fun b c hb hclosed => .token (.ite (fun _ => .pure hclosed) fun _ => ?_)
  exact Closes.staysClosed (.after (.accept _) fun _ => (hg.closesAssignment ctx).thenPure) b c hb
    hclosed

lemma closes_conditionalOrAssignment : Closes (conditionalOrAssignment g ctx) := by
  refine (closes_conditionalExpression hg ctx).bind fun left => .kind fun k => ?_
  split
  · exact .pure _
  split
  · exact .reject
  · exact Closes.staysClosed (.after .advance fun _ => (hg.closesAssignment ctx).thenPure)

lemma closes_assignmentExpression : Closes (assignmentExpression g ctx) := by
  intro c hc
  refine .isAt (.ite (fun hyield => ?_) fun _ => ?_)
  · refine closesAt_yielding hg ctx hc ?_
    rw [beq_iff_eq.1 (Bool.and_eq_true_iff.1 hyield).1]
    decide
  · refine (goes_arrowFunction? hg ctx hc).bind fun found c' ⟨hmoves, hclosed⟩ => ?_
    cases found with
    | some arrow => exact .pure (hclosed (by rintro ⟨⟩))
    | none =>
      exact (closes_conditionalOrAssignment hg ctx c' (hc.follows hmoves).atToken).mono
        fun _ _ => .of_moves hmoves

/-! ### Statements -/

lemma advances_declarator : Advances (declarator g ctx) :=
  (hg.target ctx).bind fun _ => (Follows.accept _).bind fun _ =>
    .ite (hg.assignment ctx).follows.thenPure (.pure _)

lemma advances_declaration : Advances (declaration g ctx) := by
  refine .after .kind fun k => ?_
  split
  · exact advances_unexpected
  · refine .after .advance fun _ => Advances.bind (.repeatFrom fun found => ?_) fun _ => .pure _
    exact (advances_declarator hg ctx).bind fun _ => follows_comma _ _

omit hg in
lemma follows_isLetDeclaration : Follows isLetDeclaration := Follows.peek.thenPure

omit hg in
lemma follows_isDeclaration : Follows isDeclaration := by
  refine Follows.kind.bind fun k => ?_
  split
  · exact .pure _
  · exact .pure _
  · exact follows_isLetDeclaration
  · exact .pure _

lemma advances_variableStatement : Advances (variableStatement g ctx) :=
  (advances_declaration hg ctx).bind fun _ => Follows.endStatement.thenPure

lemma advances_ifStatement : Advances (ifStatement g ctx) :=
  .after .advance fun _ => (advances_parenthesized hg ctx).bind fun _ =>
    (hg.statement ctx).follows.bind fun _ => (Follows.acceptWord _).bind fun _ =>
    .ite (hg.statement ctx).follows.thenPure (.pure _)

lemma advances_whileStatement : Advances (whileStatement g ctx) :=
  .after .advance fun _ => (advances_parenthesized hg ctx).bind fun _ =>
    (hg.statement ctx).follows.thenPure

lemma advances_doStatement : Advances (doStatement g ctx) :=
  .after .advance fun _ => (hg.statement ctx).bind fun _ => (Follows.expectWord _).bind fun _ =>
    (advances_parenthesized hg ctx).follows.bind fun _ => (Follows.accept _).thenPure

lemma follows_forInit : Follows (forInit g ctx) :=
  (Follows.isAt _).bind fun _ => .ite (.pure _) (follows_isDeclaration.bind fun _ =>
    .ite (advances_declaration hg _).follows.thenPure (advances_expression hg _).follows.thenPure)

lemma follows_forEachRest (iteration : Iteration) (left : Node) :
    Follows (forEachRest g ctx iteration left) := by
  unfold forEachRest
  have hrest : ∀ target right : Node, Follows (do
      expect .closeParen
      return Node.forEach iteration target right (← g.statement ctx)) := fun target right =>
    (Follows.expect _).bind fun _ => (hg.statement ctx).follows.thenPure
  split
  · exact .reject
  · refine Follows.advance.bind fun _ => ?_
    cases iteration with
    | values => exact (hg.assignment _).follows.bind fun right => hrest _ right
    | keys => exact (advances_expression hg _).follows.bind fun right => hrest _ right

lemma follows_expressionBefore (p : Punctuator) : Follows (expressionBefore g ctx p) :=
  (Follows.isAt _).bind fun _ => .ite (.pure _) (advances_expression hg _).follows.thenPure

lemma follows_forRest (init : Option Node) : Follows (forRest g ctx init) :=
  (Follows.expect _).bind fun _ => (follows_expressionBefore hg ctx _).bind fun _ =>
    (Follows.expect _).bind fun _ => (follows_expressionBefore hg ctx _).bind fun _ =>
      (Follows.expect _).bind fun _ => (hg.statement ctx).follows.thenPure

lemma advances_forStatement : Advances (forStatement g ctx) := by
  refine .after .advance fun _ => (advances_expect _).bind fun _ => (follows_forInit hg ctx).bind
    fun init => Follows.kind.bind fun k => ?_
  split
  · exact follows_forEachRest hg ctx _ _
  · exact follows_forRest hg ctx _

lemma follows_branchBody : Follows (branchBody g ctx) := by
  refine .repeatFrom fun found c hc => .kind ?_
  split
  · exact .pure (Turn.onward_done _)
  · exact .pure (Turn.onward_done _)
  · exact .pure (Turn.onward_done _)
  · exact .pure (Turn.onward_done _)
  · exact ((hg.statement ctx).bind (fun _ => .pure _) c hc).onward

lemma follows_branchTest : Follows (branchTest g ctx) :=
  (Follows.acceptWord _).bind fun _ => .ite (advances_expression hg _).follows.thenPure
    ((Follows.acceptWord _).bind fun _ => .ite (.pure _) .reject)

lemma advances_switchStatement : Advances (switchStatement g ctx) := by
  refine .after .advance fun _ => (advances_parenthesized hg ctx).bind fun _ =>
    (Follows.expect _).bind fun _ => .bind (.repeatFrom fun found c hc => ?_) fun _ =>
      Follows.advance.thenPure
  refine .ifAt (fun _ => .pure (Turn.onward_done _)) fun _ => AdvancesAt.onward ?_
  exact Advances.after (follows_branchTest hg ctx)
    (fun _ => (advances_expect _).bind fun _ => (follows_branchBody hg ctx).thenPure) c hc

lemma advances_expressionStatement : Advances (expressionStatement g ctx) :=
  (advances_expression hg _).bind fun _ => Follows.endStatement.thenPure

/-- A return with what may follow it. -/
lemma advancesAt_returnStatement (hc : c.AtToken) (hkind : c.token.kind ≠ .endOfText) :
    AdvancesAt (returnStatement g ctx) c := by
  have hrest : ∀ argument : Option Node, Follows (do
      endStatement
      return Node.returning argument) := fun argument => Follows.endStatement.thenPure
  exact advancesAt_advance hc hkind (Follows.canEnd.bind fun _ =>
    .ite (hrest none) ((advances_expression hg _).follows.map.bind hrest))

omit hg in
lemma advancesAt_jumpStatement (hc : c.AtToken) (hkind : c.token.kind ≠ .endOfText) (jump : Jump) :
    AdvancesAt (jumpStatement jump) c := by
  have hrest : ∀ label : Option String, Follows (do
      endStatement
      return Node.jump jump label) := fun label => Follows.endStatement.thenPure
  exact advancesAt_advance hc hkind (Follows.token.bind fun _ =>
    .ite (advances_name.follows.map.bind hrest) (hrest none))

lemma advances_throwStatement : Advances (throwStatement g ctx) := by
  have hargument : Advances (do
      let argument ← expression g ctx.allowIn
      endStatement
      return Node.throwing argument) :=
    (advances_expression hg _).bind fun _ => Follows.endStatement.thenPure
  exact .after .advance fun _ => .after .afterLineBreak fun _ =>
    .ite (.after .reject fun _ => hargument) hargument

lemma follows_handlerParameter : Follows (handlerParameter g ctx) :=
  (Follows.accept _).bind fun _ => .ite ((hg.target ctx).follows.bind fun _ =>
    (Follows.expect _).thenPure) (.pure _)

lemma advances_tryStatement : Advances (tryStatement g ctx) := by
  refine .after .advance fun _ => (advances_block hg ctx).bind fun body => ?_
  have hend : ∀ recovery finalizer : Option Node, Follows (do
      if recovery.isNone && finalizer.isNone then reject .handlerExpected
      return Node.guarded body recovery finalizer) := fun recovery finalizer =>
    .ite (Follows.bind .reject fun _ => .pure _) (.pure _)
  have hfinally : ∀ recovery : Option Node, Follows (do
      let finalizer ← if ← acceptWord .kwFinally then some <$> block g ctx else pure none
      if recovery.isNone && finalizer.isNone then reject .handlerExpected
      return Node.guarded body recovery finalizer) := fun recovery =>
    (Follows.acceptWord _).bind fun _ => .ite
      ((advances_block hg ctx).follows.map.bind fun finalizer => hend recovery finalizer)
      (hend recovery none)
  refine (Follows.acceptWord _).bind fun _ => .ite ?_ (hfinally none)
  exact (follows_handlerParameter hg ctx).bind fun _ => (advances_block hg ctx).follows.bind
    fun handled => hfinally _

lemma advances_labeledStatement : Advances (labeledStatement g ctx) :=
  advances_name.bind fun _ => (Follows.expect _).bind fun _ => (hg.statement ctx).follows.thenPure

lemma advances_nameStatement : Advances (nameStatement g ctx) :=
  .after .peek fun _ => .ite (advances_labeledStatement hg ctx) (advances_expressionStatement hg ctx)

lemma advances_anyStatement : Advances (anyStatement g ctx) := by
  intro c hc
  by_cases hend : c.token.kind = .endOfText
  · refine .kind ?_
    rw [hend]
    exact advances_expressionStatement hg ctx c hc
  refine .kind ?_
  split
  · exact advances_block hg ctx c hc
  · exact advances_variableStatement hg ctx c hc
  · exact advances_variableStatement hg ctx c hc
  · exact Advances.after follows_isLetDeclaration
      (fun _ => .ite (advances_variableStatement hg ctx) (advances_nameStatement hg ctx)) c hc
  · exact advances_functionDefinition hg _ _ c hc
  · exact Advances.after follows_isFunctionAhead
      (fun _ => .ite (.after .advance fun _ => advances_functionDefinition hg _ _)
        (advances_nameStatement hg ctx)) c hc
  · exact advances_classDefinition hg ctx _ c hc
  · exact advances_ifStatement hg ctx c hc
  · exact advances_forStatement hg ctx c hc
  · exact advances_whileStatement hg ctx c hc
  · exact advances_doStatement hg ctx c hc
  · exact advancesAt_returnStatement hg ctx hc hend
  · exact advancesAt_jumpStatement hc hend _
  · exact advancesAt_jumpStatement hc hend _
  · exact advances_throwStatement hg ctx c hc
  · exact advances_tryStatement hg ctx c hc
  · exact advances_switchStatement hg ctx c hc
  · exact advancesAt_advance hc hend (.pure _)
  · exact advancesAt_advance hc hend Follows.endStatement.thenPure
  · exact .reject
  · exact advances_nameStatement hg ctx c hc
  · exact advances_nameStatement hg ctx c hc
  · exact advances_expressionStatement hg ctx c hc

/-! ### Levels -/

omit hg in
lemma advancing_exhausted : exhausted.Advancing where
  statement _ := .reject
  target _ := .reject
  closesAssignment _ := .reject
  closesOperand _ _ := .reject
  closesUnary _ := .reject
  closesConstruction _ := .reject

lemma Advancing.above : g.above.Advancing where
  statement := advances_anyStatement hg
  target := advances_bindingTarget hg
  closesAssignment := closes_assignmentExpression hg
  closesOperand limit ctx := closes_binaryExpression hg ctx limit
  closesUnary := closes_unaryExpression hg
  closesConstruction := closes_newExpression hg

omit hg in
theorem advancing_level (n : Nat) : (level n).Advancing := by
  induction n with
  | zero => exact advancing_exhausted
  | succ n ih => exact ih.above

end Grammar

/-! ### Scripts -/

namespace Parse

variable {α : Type} {p : Parse α}

/-- From every cursor that is reached in a text, `p` gives a value at another such cursor, or refuses
the text, or comes to a token that cannot be read. -/
def EndsIn (text : String) (p : Parse α) : Prop :=
  ∀ c, Cursor.Reached text c →
    (∃ a c', p c = .ok a c' ∧ Cursor.Reached text c') ∨ (∃ e, p c = .fail (.refused e)) ∨
      (p c = .fail .unreadable ∧ ∃ c', Cursor.Reached text c' ∧ c'.next? = none)

/-- Besides, where `p` gives a value it did not begin at the end of the text, and the token that it
ends at starts after the one that it began at. -/
def ProgressesIn (text : String) (p : Parse α) : Prop :=
  EndsIn text p ∧ ∀ c a c', Cursor.Reached text c → p c = .ok a c' →
    c.token.kind ≠ .endOfText ∧ c.token.start < c'.token.start

lemma Follows.endsIn (h : Follows p) (text : String) : EndsIn text p := by
  intro c hc
  have hgoes := h c hc.atToken
  cases hread : p c with
  | ok a c' => exact .inl ⟨a, c', rfl, hc.moves (hgoes.of_ok hread).1⟩
  | fail failure =>
    rcases hgoes.of_fail hread with ⟨e, rfl⟩ | ⟨rfl, c', hmoves, hnext⟩
    · exact .inr (.inl ⟨e, rfl⟩)
    · exact .inr (.inr ⟨rfl, c', hc.moves hmoves, hnext⟩)

lemma Advances.progressesIn (h : Advances p) (text : String) : ProgressesIn text p := by
  refine ⟨h.follows.endsIn text, fun c a c' hc hok => ?_⟩
  have hpasses := ((h c hc.atToken).of_ok hok).2
  exact ⟨hpasses.not_end, hpasses.start_lt hc.atToken⟩

end Parse

open Parse

namespace Grammar

lemma goes_program {g : Grammar} (hg : g.Advancing) (c : Cursor) :
    Goes g.program c fun _ _ => True := by
  refine Goes.advance.bind fun _ first hfirst => ?_
  have hbody : Follows (repeatFrom [] fun found => do
      if ← isAt .endOfText then return .done found.reverse
      return .again ((← g.statement {}) :: found)) := by
    refine .repeatFrom fun found c hc => ?_
    refine .ifAt (fun _ => .pure (Turn.onward_done _)) fun _ => AdvancesAt.onward ?_
    exact (hg.statement _).bind (fun _ => .pure _) c hc
  exact ((hbody first (Cursor.atToken_of_next? hfirst)).bind fun _ _ _ => .pure trivial)

end Grammar

/-- The tree of a script that is given by its characters. -/
def parseChars (chars : List Char) : Except ParseFailure Node :=
  match (Grammar.level Grammar.maxNesting).program ⟨⟨.unknown, 0, "", "", false⟩, chars⟩ with
  | .ok program _ => .ok program
  | .fail failure => .error failure

lemma parse_eq_parseChars {text : String} {chars : List Char} (h : text.toList = chars) :
    parse text = parseChars chars := by
  subst h
  rfl

/-- To evaluate the reading of a script, its characters are taken from how it is written. -/
lemma parse_ofList (chars : List Char) : parse (.ofList chars) = parseChars chars :=
  parse_eq_parseChars String.toList_ofList

lemma parse_ofList_append (front back : List Char) :
    parse (.ofList front ++ .ofList back) = parseChars (front ++ back) := by
  rw [← String.ofList_append, parse_ofList]

/-- A tree that was read and passes a check. -/
lemma exists_of_parse_any {text : String} {check : Node → Bool}
    (h : (parse text).toOption.any check = true) : ∃ n, parse text = .ok n ∧ check n = true := by
  cases hparse : parse text with
  | ok n =>
    rw [hparse] at h
    exact ⟨n, rfl, h⟩
  | error failure =>
    rw [hparse] at h
    cases h

/-- A script is read or refused, unless a token in it cannot be read. -/
lemma parse_ends (text : String) :
    (∃ tree, parse text = .ok tree) ∨ (∃ e, parse text = .error (.refused e)) ∨
      (parse text = .error .unreadable ∧
        ∃ c, (c = .start text ∨ Cursor.Reached text c) ∧ c.next? = none) := by
  have hgoes := Grammar.goes_program (Grammar.advancing_level Grammar.maxNesting) (.start text)
  unfold parse
  cases hread : (Grammar.level Grammar.maxNesting).program (.start text) with
  | ok tree c => exact .inl ⟨tree, rfl⟩
  | fail failure =>
    rcases hgoes.of_fail hread with ⟨e, rfl⟩ | ⟨rfl, c, hmoves, hnext⟩
    · exact .inr (.inl ⟨e, rfl⟩)
    · exact .inr (.inr ⟨rfl, c, Cursor.reached_of_moves_start hmoves, hnext⟩)

open Grammar in
/-- Reading makes progress, so it comes to an end.  On every level and in every context, the rules
that read the elements of lists are past the token that they began at, the rules that repeat them
never run out of turns, and every script is read, refused, or found to have a token that cannot be
read. -/
theorem reading_progresses (text : String) (n : Nat) (ctx : Context) :
    (ProgressesIn text ((level n).statement ctx) ∧ ProgressesIn text ((level n).assignment ctx) ∧
      ProgressesIn text ((level n).unary ctx) ∧ ProgressesIn text ((level n).target ctx) ∧
      ProgressesIn text (objectMember (level n) ctx) ∧
      ProgressesIn text (classMember (level n) ctx) ∧
      ProgressesIn text (propertyKey (level n) ctx)) ∧
    (EndsIn text (block (level n) ctx) ∧ EndsIn text (switchStatement (level n) ctx) ∧
      EndsIn text (branchBody (level n) ctx) ∧
      (∀ role, EndsIn text (classDefinition (level n) ctx (leftHandSide (level n) ctx) role)) ∧
      EndsIn text (arguments (level n) ctx) ∧ EndsIn text (parameters (level n) ctx) ∧
      EndsIn text (arrayLiteral (level n) ctx) ∧ EndsIn text (objectLiteral (level n) ctx) ∧
      EndsIn text (arrayPattern (level n) ctx) ∧ EndsIn text (objectPattern (level n) ctx) ∧
      (∀ calls first, EndsIn text (links (level n) ctx calls first)) ∧
      EndsIn text (leftHandSide (level n) ctx) ∧ EndsIn text (templateLiteral (level n) ctx) ∧
      EndsIn text (expression (level n) ctx) ∧ EndsIn text (declaration (level n) ctx) ∧
      ∀ limit, EndsIn text (binaryExpression (level n) limit ctx)) ∧
    ((∃ tree, parse text = .ok tree) ∨ (∃ e, parse text = .error (.refused e)) ∨
      (parse text = .error .unreadable ∧
        ∃ c, (c = .start text ∨ Cursor.Reached text c) ∧ c.next? = none)) := by
  have hg := advancing_level n
  refine ⟨⟨(hg.statement ctx).progressesIn _, (hg.assignment ctx).progressesIn _,
    (hg.unary ctx).progressesIn _, (hg.target ctx).progressesIn _,
    (advances_objectMember hg ctx).progressesIn _, (advances_classMember hg ctx).progressesIn _,
    (advances_propertyKey hg ctx).progressesIn _⟩, ?_, parse_ends text⟩
  have hclass : ∀ role, Advances (classDefinition (level n) ctx (leftHandSide (level n) ctx) role) :=
    advances_classDefinition hg ctx
  exact ⟨(advances_block hg ctx).follows.endsIn _, (advances_switchStatement hg ctx).follows.endsIn _,
    (follows_branchBody hg ctx).endsIn _, fun role => (hclass role).follows.endsIn _,
    (advances_arguments hg ctx).follows.endsIn _, (advances_parameters hg ctx).follows.endsIn _,
    (advances_arrayLiteral hg ctx).follows.endsIn _,
    (advances_objectLiteral hg ctx).follows.endsIn _,
    (advances_arrayPattern hg ctx).follows.endsIn _,
    (advances_objectPattern hg ctx).follows.endsIn _,
    fun calls first => (follows_links hg ctx calls first).endsIn _,
    (advances_leftHandSide hg ctx).follows.endsIn _, (follows_templateLiteral hg ctx).endsIn _,
    (advances_expression hg ctx).follows.endsIn _, (advances_declaration hg ctx).follows.endsIn _,
    fun limit => (advances_binaryExpression hg ctx limit).follows.endsIn _⟩

end BindingProxy
