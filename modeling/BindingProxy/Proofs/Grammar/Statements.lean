import BindingProxy.Proofs.Code.Statements
import BindingProxy.Proofs.Grammar.ReadBack
import BindingProxy.Proofs.Tree.Depth

/-!
# Reading plain statements back

A plain statement is read back from the words that it is printed as.  The levels of the grammar are
taken one by one: `ReadsPlain n g` says what the rules of a grammar with `n` levels read, every rule
is carried through its words in terms of the level below, and `readsPlain_level` puts the levels
together.

What follows a statement matters in two places.  An `else` would go with the last conditional that
has none, and a `finally` with a guarded block that has none (`MayFollow`).
-/

namespace BindingProxy

open Word

namespace Grammar

open Parse

/-- The kinds of words before which an expression that is a name ends. -/
def endsExpression (ctx : Context) : TokenKind → Bool
  | .punctuator .closeParen | .punctuator .comma | .punctuator .colon | .punctuator .semicolon
  | .contextual .kwOf => true
  | .reserved .kwIn => ctx.withoutIn
  | _ => false

/-- Nothing that goes on with an expression is among them. -/
lemma endsExpression_cases {ctx : Context} {k : TokenKind} (h : endsExpression ctx k = true) :
    continuesOperand k = false ∧ operatorAt? ctx k = none ∧ AssignmentOperator.ofToken? k = none ∧
      k ≠ .punctuator .question ∧ k ≠ .punctuator .arrow := by
  unfold endsExpression at h
  split at h
  case h_6 => exact ⟨rfl, if_pos ⟨rfl, h⟩, rfl, nofun, nofun⟩
  case h_7 => cases h
  all_goals exact ⟨rfl, if_neg nofun, rfl, nofun, nofun⟩

/-- Whether a word of the kind may follow a statement without being taken for a part of it. -/
def MayFollow (endsOpen : Bool) (k : TokenKind) : Prop :=
  k ≠ .reserved .kwFinally ∧ (endsOpen = true → k ≠ .reserved .kwElse)

lemma MayFollow.every {k : TokenKind} (h : MayFollow true k) (endsOpen : Bool) :
    MayFollow endsOpen k :=
  ⟨h.1, fun _ => h.2 rfl⟩

/-- The rules of a grammar with a number of levels read names and plain statements back, in every
context.  A statement takes at most one level more than its tree is high. -/
structure ReadsPlain (n : Nat) (g : Grammar) : Prop where
  target {F : SyntaxCause → Prop} {ctx : Context} {x : String} {b : Bool} {rest : List LineWord}
    (hlevels : Affords F n 1) :
    Reads F (g.target ctx) (⟨Word.name x, b⟩ :: rest) (.identifier x) rest
  assignment {F : SyntaxCause → Prop} {ctx : Context} {x : String} {b : Bool}
    {rest : List LineWord} (hrest : endsExpression ctx (headKind rest) = true)
    (hlevels : Affords F n 2) :
    Reads F (g.assignment ctx) (⟨Word.name x, b⟩ :: rest) (.identifier x) rest
  unary {F : SyntaxCause → Prop} {ctx : Context} {x : String} {b : Bool} {rest : List LineWord}
    (hrest : continuesOperand (headKind rest) = false) (hlevels : Affords F n 1) :
    Reads F (g.unary ctx) (⟨Word.name x, b⟩ :: rest) (.identifier x) rest
  statement {F : SyntaxCause → Prop} {ctx : Context} {s : Node} {level : Nat}
    {rest : List LineWord} (h : Plain .statement s)
    (hrest : MayFollow s.endsOpen (headKind rest)) (hlevels : Affords F n (s.height + 1)) :
    Reads F (g.statement ctx) (wordsOf (s.pieces level) ++ rest) s rest

/-! ### Names -/

section

variable {F : SyntaxCause → Prop} {n : Nat} {g : Grammar} {ctx : Context} {x : String} {b : Bool}
  {rest : List LineWord}

lemma reads_bindingTarget_name :
    Reads F (bindingTarget g ctx) (⟨Word.name x, b⟩ :: rest) (.identifier x) rest :=
  Runs.kind (Runs.name rfl Runs.value)

lemma reads_primaryWith_name (heritage : Parse Node) :
    Reads F (primaryWith g ctx heritage) (⟨Word.name x, b⟩ :: rest) (.identifier x) rest := by
  refine Runs.tokenOfKind fun t ht => ?_
  rw [ht]
  exact Runs.name rfl Runs.value

lemma reads_leftHandSide_name (hrest : startsLink (headKind rest) = false) :
    Reads F (leftHandSide g ctx) (⟨Word.name x, b⟩ :: rest) (.identifier x) rest := by
  intro c hc
  have hread : Reads F (leftHandSideWithin g ctx (tokenBound c)) (⟨Word.name x, b⟩ :: rest)
      (.identifier x) rest := by
    refine Runs.isAt_false nofun (Runs.seq (reads_primaryWith_name _) ?_)
    exact (Loops.done (reads_link_end hrest true _) ⟨rfl, rfl⟩).repeatFrom
  exact hread c hc

/-- An operand that begins with a name and that no update follows. -/
lemma reads_unaryExpression_of_name {e : Node} {ws : List LineWord}
    (h : Reads F (leftHandSide g ctx) (⟨Word.name x, b⟩ :: ws) e rest)
    (hrest : continuesOperand (headKind rest) = false) :
    Reads F (unaryExpression g ctx) (⟨Word.name x, b⟩ :: ws) e rest := by
  obtain ⟨_, hupdate⟩ := Bool.or_eq_false_iff.1 hrest
  have hoperand : Reads F (operandWithUpdate g ctx) (⟨Word.name x, b⟩ :: ws) e rest := by
    refine Runs.seq h (Runs.tokenOfKind fun t ht => ?_)
    rw [ht, Option.isSome_eq_false_iff.1 hupdate |> Option.isNone_iff_eq_none.1]
    exact Runs.value
  refine Runs.kind ?_
  change Runs F (if TokenKind.identifier = .contextual .kwAwait ∧ ctx.inAsync then _ else _) _ _
  rw [if_neg nofun]
  exact hoperand

lemma reads_unaryExpression_name (hrest : continuesOperand (headKind rest) = false) :
    Reads F (unaryExpression g ctx) (⟨Word.name x, b⟩ :: rest) (.identifier x) rest :=
  reads_unaryExpression_of_name (reads_leftHandSide_name (Bool.or_eq_false_iff.1 hrest).1) hrest

/-- No arrow function begins at a name that no arrow follows. -/
lemma reads_arrowFunction?_name (hrest : headKind rest ≠ .punctuator .arrow) :
    Reads F (arrowFunction? g ctx) (⟨Word.name x, b⟩ :: rest) none (⟨Word.name x, b⟩ :: rest) := by
  have hasync : Reads F (isAsyncArrowAhead g ctx) (⟨Word.name x, b⟩ :: rest) false
      (⟨Word.name x, b⟩ :: rest) := Runs.isAt_false nofun Runs.value
  have harrow : Reads F (isArrowAhead g ctx) (⟨Word.name x, b⟩ :: rest) false
      (⟨Word.name x, b⟩ :: rest) := by
    refine Runs.kind (Runs.peek fun t ht => Runs.pure ⟨?_, rfl⟩)
    rw [ht, beq_eq_false_iff_ne.2 hrest, Bool.false_and]
  exact Runs.seq hasync (Runs.seq harrow Runs.value)

/-- An expression that is one operand and begins with a name. -/
lemma reads_assignmentExpression_of_name {e : Node} {ws : List LineWord}
    (h : Reads F (g.unary ctx) (⟨Word.name x, b⟩ :: ws) e rest)
    (harrow : headKind ws ≠ .punctuator .arrow)
    (hrest : endsExpression ctx (headKind rest) = true) :
    Reads F (assignmentExpression g ctx) (⟨Word.name x, b⟩ :: ws) e rest := by
  obtain ⟨_, hoperator, hassign, hquestion, _⟩ := endsExpression_cases hrest
  have hbinary : Reads F (binaryExpression g 0 ctx) (⟨Word.name x, b⟩ :: ws) e rest := by
    refine Runs.seq h (Loops.done (Runs.kind ?_) ⟨rfl, rfl⟩).repeatFrom
    rw [hoperator]
    exact Runs.value
  have hconditional : Reads F (conditionalExpression g ctx) (⟨Word.name x, b⟩ :: ws) e rest :=
    Runs.seq hbinary (Runs.accept_false hquestion Runs.value)
  have hread : Reads F (conditionalOrAssignment g ctx) (⟨Word.name x, b⟩ :: ws) e rest := by
    refine Runs.seq hconditional (Runs.kind ?_)
    rw [hassign]
    exact Runs.value
  refine Runs.isAt_false nofun ?_
  rw [Bool.false_and, if_neg Bool.false_ne_true]
  exact Runs.seq (reads_arrowFunction?_name harrow) hread

lemma reads_endStatement :
    Reads F endStatement (⟨punctuator .semicolon, b⟩ :: rest) () rest :=
  Runs.accept_true rfl Runs.value

/-- An expression statement that begins with a name. -/
lemma reads_nameStatement_of_name {e : Node} {ws : List LineWord} {b' : Bool}
    (h : Reads F (expression g ctx.allowIn) (⟨Word.name x, b⟩ :: ws) e
      (⟨punctuator .semicolon, b'⟩ :: rest))
    (hcolon : headKind ws ≠ .punctuator .colon) :
    Reads F (nameStatement g ctx) (⟨Word.name x, b⟩ :: ws) (.expressionStatement e) rest := by
  have hread : Reads F (expressionStatement g ctx) (⟨Word.name x, b⟩ :: ws)
      (.expressionStatement e) rest :=
    Runs.seq h (Runs.seq reads_endStatement Runs.value)
  refine Runs.peek fun t ht => ?_
  rw [ht, if_neg hcolon]
  exact hread

variable (hg : ReadsPlain n g)
include hg

lemma reads_assignmentExpression_name (hrest : endsExpression ctx (headKind rest) = true)
    (hlevels : Affords F n 1) :
    Reads F (assignmentExpression g ctx) (⟨Word.name x, b⟩ :: rest) (.identifier x) rest := by
  obtain ⟨hoperand, _, _, _, harrow⟩ := endsExpression_cases hrest
  exact reads_assignmentExpression_of_name (hg.unary hoperand hlevels) harrow hrest

lemma reads_expression_name (hrest : endsExpression ctx (headKind rest) = true)
    (hcomma : headKind rest ≠ .punctuator .comma) (hlevels : Affords F n 2) :
    Reads F (expression g ctx) (⟨Word.name x, b⟩ :: rest) (.identifier x) rest :=
  Runs.seq (hg.assignment hrest hlevels) (Runs.isAt_false hcomma Runs.value)

lemma reads_parenthesized_name {b' b'' : Bool} (hlevels : Affords F n 2) :
    Reads F (parenthesized g ctx)
      (⟨punctuator .openParen, b'⟩ :: ⟨Word.name x, b⟩ :: ⟨punctuator .closeParen, b''⟩ :: rest)
      (.identifier x) rest := by
  refine Runs.expect rfl (Runs.seq (reads_expression_name hg rfl nofun hlevels) ?_)
  exact Runs.expect rfl Runs.value

end

/-! ### The height of a tree -/

section

variable {F : SyntaxCause → Prop} {n : Nat} {s c : Node}

lemma Affords.child (h : Affords F n s.height) (hc : c ∈ s.children) :
    Affords F n (c.height + 1) :=
  h.of_le (Node.height_lt_of_mem_children hc)

lemma Affords.below_child (h : Affords F n s.height) (hc : c ∈ s.children) : Affords F n c.height :=
  (h.child hc).of_le (Nat.le_succ _)

/-- A tree with a child is high enough for a name. -/
lemma Affords.name (h : Affords F n s.height) (hne : s.children ≠ []) : Affords F n 2 := by
  obtain ⟨c, hc⟩ := List.exists_mem_of_ne_nil _ hne
  have hpos : 1 ≤ c.height := by
    rw [c.height_eq]
    exact Nat.le_add_left _ _
  exact (h.child hc).of_le (Nat.succ_le_succ hpos)

end

/-! ### Lists -/

section

variable {F : SyntaxCause → Prop} {level : Nat} {ns : List Node}
  {turn : List Node → Parse (Turn (List Node) (List Node))} {close : List LineWord}

/-- Parts that follow each other are read one by one, if each turn reads one before words that
satisfy `E`, as the words of every part do. -/
lemma loops_each {E : List LineWord → Prop} (hclose : E close)
    (hstart : ∀ m ∈ ns, ∀ rest, E (wordsOf (m.pieces level) ++ rest))
    (hne : ∀ m ∈ ns, wordsOf (m.pieces level) ≠ [])
    (hend : ∀ found, Reads F (turn found) close (.done found.reverse) close)
    (hmore : ∀ m ∈ ns, ∀ found rest, E rest →
      Reads F (turn found) (wordsOf (m.pieces level) ++ rest) (.again (m :: found)) rest)
    (found : List Node) :
    Loops F turn found ((Node.piecesEach ns level).flatMap wordsOf ++ close)
      fun r vs => r = found.reverse ++ ns ∧ vs = close := by
  induction ns generalizing found with
  | nil => exact Loops.done (hend found) ⟨by simp, rfl⟩
  | cons m ns ih =>
    have hrest := ih (fun k hk => hstart k (List.mem_cons_of_mem _ hk))
      (fun k hk => hne k (List.mem_cons_of_mem _ hk))
      (fun k hk => hmore k (List.mem_cons_of_mem _ hk)) (m :: found)
    have hnext : E ((Node.piecesEach ns level).flatMap wordsOf ++ close) := by
      cases ns with
      | nil => exact hclose
      | cons k ns =>
        have hk := hstart k (by simp) ((Node.piecesEach ns level).flatMap wordsOf ++ close)
        rwa [← List.append_assoc] at hk
    have hpos := List.length_pos_iff.2 (hne m List.mem_cons_self)
    have hwords : (Node.piecesEach (m :: ns) level).flatMap wordsOf ++ close =
        wordsOf (m.pieces level) ++ ((Node.piecesEach ns level).flatMap wordsOf ++ close) :=
      List.append_assoc _ _ _
    rw [hwords]
    refine Loops.again (hmore m List.mem_cons_self found _ hnext) ?_ (hrest.mono ?_)
    · simp only [List.length_append]
      omega
    · rintro _ _ ⟨rfl, rfl⟩
      exact ⟨by simp, rfl⟩

/-- Parts with commas between them are read one by one. -/
lemma loops_commas (hne : ns ≠ [])
    (hlast : ∀ m ∈ ns, ∀ found,
      Reads F (turn found) (wordsOf (m.pieces level) ++ close) (.done (m :: found).reverse) close)
    (hmore : ∀ m ∈ ns, ∀ found rest,
      Reads F (turn found) (wordsOf (m.pieces level) ++ ⟨punctuator .comma, false⟩ :: rest)
        (.again (m :: found)) rest) (found : List Node) :
    Loops F turn found (wordsOf (commaPieces (Node.piecesEach ns level)) ++ close)
      fun r vs => r = found.reverse ++ ns ∧ vs = close := by
  induction ns generalizing found with
  | nil => exact absurd rfl hne
  | cons m ns ih =>
    cases ns with
    | nil => exact Loops.done (hlast m List.mem_cons_self found) ⟨by simp, rfl⟩
    | cons k ns =>
      have hrest := ih (List.cons_ne_nil _ _) (fun j hj => hlast j (List.mem_cons_of_mem _ hj))
        (fun j hj => hmore j (List.mem_cons_of_mem _ hj)) (m :: found)
      have hwords : wordsOf (commaPieces (Node.piecesEach (m :: k :: ns) level)) ++ close =
          wordsOf (m.pieces level) ++ ⟨punctuator .comma, false⟩ ::
            (wordsOf (commaPieces (Node.piecesEach (k :: ns) level)) ++ close) := by
        change wordsOf (m.pieces level ++ mark .comma :: .blank ::
          commaPieces (Node.piecesEach (k :: ns) level)) ++ close = _
        simp
      rw [hwords]
      refine Loops.again (hmore m List.mem_cons_self found _) ?_ (hrest.mono ?_)
      · simp only [List.length_append, List.length_cons]
        omega
      · rintro _ _ ⟨rfl, rfl⟩
        exact ⟨by simp, rfl⟩

end

/-! ### Statements in a list -/

/-- The kinds of words that no statement begins with. -/
def endsStatements : TokenKind → Bool
  | .reserved .kwElse | .reserved .kwFinally | .reserved .kwCase | .reserved .kwDefault
  | .punctuator .closeBrace | .endOfText => true
  | _ => false

lemma headKind_block {b : Node} (h : Plain .block b) (level : Nat) (rest : List LineWord) :
    headKind (wordsOf (b.pieces level) ++ rest) = .punctuator .openBrace := by
  cases h
  change headKind (wordsOf (bracedPieces level _) ++ rest) = _
  rw [wordsOf_bracedPieces]
  rfl

/-- No statement begins with a word that ends the statements before it. -/
lemma endsStatements_pieces {s : Node} (h : Plain .statement s) (level : Nat)
    (rest : List LineWord) :
    endsStatements (headKind (wordsOf (s.pieces level) ++ rest)) = false := by
  cases h with
  | nested h =>
    rw [headKind_block h]
    rfl
  | expressionStatement he =>
    cases he
    rfl
  | @forLoop init _ _ _ hinit =>
    cases init with
    | none => rfl
    | some e =>
      cases hinit e rfl
      rfl
  | forEach _ hleft =>
    cases hleft
    rfl
  | jump kind => cases kind <;> rfl
  | declaration kind => cases kind <;> rfl
  | function isAsync => cases isAsync <;> rfl
  | _ => rfl

section

variable {F : SyntaxCause → Prop} {n : Nat} {g : Grammar} {ctx : Context} {level : Nat}
  {rest : List LineWord}

lemma headKind_statement_ne {s : Node} (h : Plain .statement s) {k : TokenKind}
    (hk : endsStatements k = true) : headKind (wordsOf (s.pieces level) ++ rest) ≠ k := by
  intro heq
  have := endsStatements_pieces h level rest
  rw [heq, hk] at this
  cases this

/-- Statements that follow each other are read one by one. -/
lemma loops_statements {turn : List Node → Parse (Turn (List Node) (List Node))}
    {close : List LineWord} {body : List Node} (hbody : ∀ s ∈ body, Plain .statement s)
    (hclose : MayFollow true (headKind close))
    (hend : ∀ found, Reads F (turn found) close (.done found.reverse) close)
    (hmore : ∀ s ∈ body, ∀ found rest, MayFollow s.endsOpen (headKind rest) →
      Reads F (turn found) (wordsOf (s.pieces level) ++ rest) (.again (s :: found)) rest) :
    Loops F turn [] ((Node.piecesEach body level).flatMap wordsOf ++ close)
      fun r vs => r = body ∧ vs = close := by
  refine loops_each (E := fun ws => MayFollow true (headKind ws)) hclose ?_ ?_ hend ?_ []
  · intro s hs rest
    exact ⟨headKind_statement_ne (hbody s hs) rfl, fun _ => headKind_statement_ne (hbody s hs) rfl⟩
  · intro s hs hnil
    have hkind := endsStatements_pieces (hbody s hs) level []
    rw [hnil] at hkind
    cases hkind
  · exact fun s hs found rest hrest => hmore s hs found rest (hrest.every _)

variable (hg : ReadsPlain n g)
include hg

/-! ### Declarations -/

lemma reads_declarator {d : Node} (h : Plain .declarator d)
    (hrest : endsExpression ctx (headKind rest) = true) (hlevels : Affords F n 2) :
    Reads F (declarator g ctx) (wordsOf (d.pieces level) ++ rest) d rest := by
  have hassign : headKind rest ≠ .punctuator .assign := by
    intro heq
    rw [heq] at hrest
    cases hrest
  cases h with
  | @declarator id init hid hinit =>
    cases hid
    refine Runs.seq (hg.target (hlevels.of_le (Nat.le_succ 1))) ?_
    cases init with
    | none => exact Runs.accept_false hassign Runs.value
    | some e =>
      cases hinit e rfl
      refine Runs.accept_true rfl (Runs.seq (hg.assignment hrest hlevels) ?_)
      exact Runs.value

omit hg in
lemma reads_isLetDeclaration {w : LineWord} {ws : List LineWord} (h : headKind ws = .identifier) :
    Reads F isLetDeclaration (w :: ws) true (w :: ws) := by
  refine Runs.peek fun t ht => Runs.pure ⟨?_, rfl⟩
  rw [ht, h]
  rfl

omit hg in
lemma wordsOf_declaration (kind : VariableKind) (declarators : List Node) :
    wordsOf ((Node.declaration kind declarators).pieces level) ++ rest =
      wordsOf (declarationPieces kind (Node.piecesEach declarators level)) ++
        ⟨punctuator .semicolon, false⟩ :: rest := by
  change wordsOf (declarationPieces kind (Node.piecesEach declarators level) ++
    [mark .semicolon]) ++ rest = _
  simp

section

variable (kind : VariableKind) {declarators : List Node} (hne : declarators ≠ [])
  (h : ∀ d ∈ declarators, Plain .declarator d)
include hne h

omit hg in
/-- The first of the declared targets is a name. -/
lemma headKind_declarators :
    headKind (wordsOf (commaPieces (Node.piecesEach declarators level)) ++ rest) = .identifier := by
  match declarators, hne with
  | d :: declarators, _ =>
    cases h d List.mem_cons_self with
    | declarator hid =>
      cases hid
      cases declarators <;> rfl

omit hg in
/-- The word of a declaration is known by the name that follows it. -/
lemma reads_isDeclaration :
    Reads F isDeclaration
      (wordsOf (declarationPieces kind (Node.piecesEach declarators level)) ++ rest) true
      (wordsOf (declarationPieces kind (Node.piecesEach declarators level)) ++ rest) := by
  refine Runs.kind ?_
  cases kind with
  | functionScoped => exact Runs.value
  | constant => exact Runs.value
  | blockScoped => exact reads_isLetDeclaration (headKind_declarators hne h)

lemma reads_declaration (hrest : endsExpression ctx (headKind rest) = true)
    (hcomma : headKind rest ≠ .punctuator .comma) (hlevels : Affords F n 2) :
    Reads F (declaration g ctx)
      (wordsOf (declarationPieces kind (Node.piecesEach declarators level)) ++ rest)
      (.declaration kind declarators) rest := by
  have hkind : variableKind? kind.spelling.kind = some kind := by cases kind <;> rfl
  have hhead : headKind (wordsOf (declarationPieces kind (Node.piecesEach declarators level)) ++
      rest) = kind.spelling.kind := rfl
  refine Runs.kind ?_
  rw [hhead, hkind]
  refine Runs.advance (Runs.seq (loops_commas hne ?_ ?_ []).repeatFrom Runs.value)
  · intro d hd found
    refine Runs.seq (reads_declarator hg (h d hd) hrest hlevels) ?_
    exact Runs.accept_false hcomma Runs.value
  · intro d hd found rest
    refine Runs.seq (reads_declarator hg (h d hd) rfl hlevels) ?_
    exact Runs.accept_true rfl Runs.value

lemma reads_variableStatement (hlevels : Affords F n 2) :
    Reads F (variableStatement g ctx)
      (wordsOf (declarationPieces kind (Node.piecesEach declarators level)) ++
        ⟨punctuator .semicolon, false⟩ :: rest)
      (.declaration kind declarators) rest := by
  refine Runs.seq (reads_declaration hg kind hne h rfl nofun hlevels) ?_
  exact Runs.seq reads_endStatement Runs.value

/-- A declaration in the first part of the head of a loop. -/
lemma reads_forInit_declaration (hrest : endsExpression ctx.disallowIn (headKind rest) = true)
    (hcomma : headKind rest ≠ .punctuator .comma) (hlevels : Affords F n 2) :
    Reads F (forInit g ctx)
      (wordsOf (declarationPieces kind (Node.piecesEach declarators level)) ++ rest)
      (some (.declaration kind declarators)) rest := by
  have hstart : headKind (wordsOf (declarationPieces kind (Node.piecesEach declarators level)) ++
      rest) ≠ .punctuator .semicolon := by
    cases kind <;> exact nofun
  refine Runs.isAt_false hstart (Runs.seq (reads_isDeclaration kind hne h) ?_)
  exact Runs.seq (reads_declaration hg kind hne h hrest hcomma hlevels) Runs.value

end

/-! ### Blocks and functions -/

lemma reads_block {b : Node} (h : Plain .block b) (hlevels : Affords F n b.height) :
    Reads F (block g ctx) (wordsOf (b.pieces level) ++ rest) b rest := by
  cases h with
  | @block body hbody =>
    have hwords : wordsOf ((Node.block body).pieces level) ++ rest =
        ⟨punctuator .openBrace, true⟩ ::
          ((Node.piecesEach body (level + 1)).flatMap wordsOf ++
            ⟨punctuator .closeBrace, true⟩ :: rest) := by
      change wordsOf (bracedPieces level (Node.piecesEach body (level + 1))) ++ rest = _
      simp
    rw [hwords]
    refine Runs.expect rfl (Runs.seq (loops_statements hbody ?_ ?_ ?_).repeatFrom ?_)
    · exact ⟨nofun, fun _ => nofun⟩
    · exact fun found => Runs.isAt_true rfl Runs.value
    · intro s hs found rest hrest
      refine Runs.isAt_false (headKind_statement_ne (hbody s hs) rfl) ?_
      refine Runs.isAt_false (headKind_statement_ne (hbody s hs) rfl) ?_
      refine Runs.seq (hg.statement (hbody s hs) hrest (hlevels.child hs)) ?_
      exact Runs.value
    · exact Runs.advance Runs.value

lemma reads_bindingElement_name {x : String} {b : Bool}
    (hrest : headKind rest ≠ .punctuator .assign) (hlevels : Affords F n 1) :
    Reads F (bindingElement g ctx) (⟨Word.name x, b⟩ :: rest) (.identifier x) rest :=
  Runs.seq (hg.target hlevels) (Runs.accept_false hrest Runs.value)

/-- The words of parameters, before others. -/
abbrev listWords (params : List Node) (level : Nat) (rest : List LineWord) : List LineWord :=
  ⟨punctuator .openParen, false⟩ :: (wordsOf (commaPieces (Node.piecesEach params level)) ++
    ⟨punctuator .closeParen, false⟩ :: rest)

/-- The words of a function after its keyword, before others. -/
abbrev functionWords (name : String) (params : List Node) (body : Node) (isGenerator : Bool)
    (level : Nat) (rest : List LineWord) : List LineWord :=
  (if isGenerator then [⟨punctuator .star, false⟩] else []) ++
    ⟨Word.name name, false⟩ :: listWords params level (wordsOf (body.pieces level) ++ rest)

lemma reads_parameters {params : List Node} (h : ∀ p ∈ params, Plain .name p)
    (hlevels : Affords F n 1) :
    Reads F (parameters g ctx) (listWords params level rest) params rest := by
  -- An empty list ends before its first turn, any other one with its last parameter.
  have hclose : Runs F (do expect .closeParen; return params)
      ((⟨punctuator .closeParen, false⟩ : LineWord) :: rest) fun r vs => r = params ∧ vs = rest :=
    Runs.expect rfl Runs.value
  refine Runs.expect rfl ?_
  by_cases hne : params = []
  · subst hne
    refine Runs.seq (Loops.done ?_ ⟨rfl, rfl⟩).repeatFrom hclose
    exact Runs.isAt_true rfl Runs.value
  · refine Runs.seq (loops_commas hne ?_ ?_ []).repeatFrom hclose
    · intro p hp found
      cases h p hp
      refine Runs.isAt_false nofun (Runs.accept_false nofun ?_)
      refine Runs.seq (reads_bindingElement_name hg nofun hlevels) ?_
      exact Runs.accept_false nofun Runs.value
    · intro p hp found rest
      cases h p hp
      refine Runs.isAt_false nofun (Runs.accept_false nofun ?_)
      refine Runs.seq (reads_bindingElement_name hg nofun hlevels) ?_
      exact Runs.accept_true rfl Runs.value

lemma reads_functionDefinition {name : String} {params : List Node} {body : Node}
    (isAsync isGenerator : Bool) {b : Bool} (hparams : ∀ p ∈ params, Plain .name p)
    (hbody : Plain .block body)
    (hlevels : Affords F n
      (Node.function .declaration (some name) params body isAsync isGenerator).height) :
    Reads F (functionDefinition g .declaration isAsync)
      (⟨reserved .kwFunction, b⟩ :: functionWords name params body isGenerator level rest)
      (.function .declaration (some name) params body isAsync isGenerator) rest := by
  have hchild : body ∈
      (Node.function .declaration (some name) params body isAsync isGenerator).children :=
    List.mem_append_right _ List.mem_cons_self
  have hlevel : Affords F n 1 :=
    (hlevels.name (List.ne_nil_of_mem hchild)).of_le (Nat.le_succ 1)
  have hrest : Reads F (functionRest g isAsync isGenerator)
      (listWords params level (wordsOf (body.pieces level) ++ rest)) (params, body) rest :=
    Runs.seq (reads_parameters hg hparams hlevel)
      (Runs.seq (reads_block hg hbody (hlevels.below_child hchild)) Runs.value)
  have hname : ∀ rest, Reads F (optionalName .declaration .functionNameExpected)
      ((⟨Word.name name, false⟩ : LineWord) :: rest) (some name) rest :=
    fun rest => Runs.kind (Runs.name rfl Runs.value)
  refine Runs.expectWord rfl ?_
  cases isGenerator with
  | false =>
    refine Runs.accept_false nofun (Runs.seq (hname _) (Runs.seq hrest ?_))
    exact Runs.value
  | true =>
    refine Runs.accept_true rfl (Runs.seq (hname _) (Runs.seq hrest ?_))
    exact Runs.value

/-! ### Branches and loops -/

/-- A word with a name in parentheses after it is passed. -/
lemma runs_headed {test : Node} (h : Plain .name test) (hlevels : Affords F n 2) {w : ReservedWord}
    {f : Node → Parse Node} {R : Node → List LineWord → Prop} (hf : Runs F (f test) rest R) :
    Runs F (advance >>= fun _ => parenthesized g ctx >>= f)
      (wordsOf (headPieces w (test.pieces level)) ++ rest) R := by
  cases h
  rw [wordsOf_headPieces]
  exact Runs.advance (Runs.seq (reads_parenthesized_name hg hlevels) hf)

lemma reads_ifStatement {test consequent : Node} {alternate : Option Node}
    (htest : Plain .name test) (hconsequent : Plain .statement consequent)
    (halternate : ∀ s ∈ alternate, consequent.endsOpen = false ∧ Plain .statement s)
    (hrest : MayFollow (Node.conditionalStatement test consequent alternate).endsOpen
      (headKind rest))
    (hlevels : Affords F n (Node.conditionalStatement test consequent alternate).height) :
    Reads F (ifStatement g ctx)
      (wordsOf ((Node.conditionalStatement test consequent alternate).pieces level) ++ rest)
      (.conditionalStatement test consequent alternate) rest := by
  have hname := hlevels.name (List.cons_ne_nil _ _)
  have hthen := hlevels.child (List.mem_cons_of_mem _ List.mem_cons_self)
  cases alternate with
  | none =>
    have hwords : wordsOf ((Node.conditionalStatement test consequent none).pieces level) ++ rest =
        wordsOf (headPieces .kwIf (test.pieces level)) ++
          (wordsOf (consequent.pieces level) ++ rest) := by
      change wordsOf (headPieces .kwIf (test.pieces level) ++ consequent.pieces level ++ []) ++
        rest = _
      simp
    rw [hwords]
    refine runs_headed hg htest hname ?_
    refine Runs.seq (hg.statement hconsequent (hrest.every _) hthen) ?_
    exact Runs.acceptWord_false (hrest.2 rfl) Runs.value
  | some alternate =>
    obtain ⟨hclosed, hplain⟩ := halternate alternate rfl
    have hwords : wordsOf ((Node.conditionalStatement test consequent (some alternate)).pieces
        level) ++ rest = wordsOf (headPieces .kwIf (test.pieces level)) ++
          (wordsOf (consequent.pieces level) ++ ⟨reserved .kwElse, false⟩ ::
            (wordsOf (alternate.pieces level) ++ rest)) := by
      change wordsOf (headPieces .kwIf (test.pieces level) ++ consequent.pieces level ++
        .blank :: inLine (reserved .kwElse) :: .blank :: alternate.pieces level) ++ rest = _
      simp
    have helse : Affords F n (alternate.height + 1) :=
      hlevels.child (List.mem_cons_of_mem _ (List.mem_cons_of_mem _ List.mem_cons_self))
    rw [hwords]
    refine runs_headed hg htest hname ?_
    refine Runs.seq (hg.statement hconsequent ⟨nofun, by simp [hclosed]⟩ hthen) ?_
    refine Runs.acceptWord_true rfl (Runs.seq (hg.statement hplain hrest helse) ?_)
    exact Runs.value

lemma reads_whileStatement {test body : Node} (htest : Plain .name test)
    (hbody : Plain .statement body) (hrest : MayFollow body.endsOpen (headKind rest))
    (hlevels : Affords F n (Node.whileLoop test body).height) :
    Reads F (whileStatement g ctx) (wordsOf ((Node.whileLoop test body).pieces level) ++ rest)
      (.whileLoop test body) rest := by
  have hname := hlevels.name (List.cons_ne_nil _ _)
  have hlevel := hlevels.child (List.mem_cons_of_mem _ List.mem_cons_self)
  have hwords : wordsOf ((Node.whileLoop test body).pieces level) ++ rest =
      wordsOf (headPieces .kwWhile (test.pieces level)) ++
        (wordsOf (body.pieces level) ++ rest) := by
    change wordsOf (headPieces .kwWhile (test.pieces level) ++ body.pieces level) ++ rest = _
    rw [wordsOf_append, List.append_assoc]
  rw [hwords]
  refine runs_headed hg htest hname ?_
  exact Runs.seq (hg.statement hbody hrest hlevel) Runs.value

lemma reads_doStatement {body test : Node} (hbody : Plain .statement body)
    (htest : Plain .name test) (hlevels : Affords F n (Node.doWhileLoop body test).height) :
    Reads F (doStatement g ctx) (wordsOf ((Node.doWhileLoop body test).pieces level) ++ rest)
      (.doWhileLoop body test) rest := by
  have hname := hlevels.name (List.cons_ne_nil _ _)
  have hlevel := hlevels.child List.mem_cons_self
  cases htest with
  | @identifier x =>
    have hwords : wordsOf ((Node.doWhileLoop body (.identifier x)).pieces level) ++ rest =
        ⟨reserved .kwDo, true⟩ :: (wordsOf (body.pieces level) ++ ⟨reserved .kwWhile, true⟩ ::
          ⟨punctuator .openParen, false⟩ :: ⟨Word.name x, false⟩ ::
          ⟨punctuator .closeParen, false⟩ :: ⟨punctuator .semicolon, false⟩ :: rest) := by
      change wordsOf (keyword .kwDo :: .blank :: body.pieces level ++ .blank :: keyword .kwWhile ::
        .blank :: mark .openParen :: [inLine (Word.name x)] ++
        [mark .closeParen, mark .semicolon]) ++ rest = _
      simp
    rw [hwords]
    refine Runs.advance (Runs.seq (hg.statement hbody ⟨nofun, fun _ => nofun⟩ hlevel) ?_)
    refine Runs.expectWord rfl (Runs.seq (reads_parenthesized_name hg hname) ?_)
    exact Runs.accept_true rfl Runs.value

omit hg in
/-- The word between the sides of a loop over a value ends the left side. -/
lemma endsExpression_iteration (ctx : Context) (iteration : Iteration) :
    endsExpression ctx.disallowIn iteration.spelling.kind = true ∧
      iteration.spelling.kind ≠ .punctuator .comma := by
  cases iteration with
  | keys => exact ⟨rfl, nofun⟩
  | values => exact ⟨rfl, nofun⟩

/-- A name in the first part of the head of a loop. -/
lemma reads_forInit_name {x : String} {b : Bool}
    (hrest : endsExpression ctx.disallowIn (headKind rest) = true)
    (hcomma : headKind rest ≠ .punctuator .comma) (hlevels : Affords F n 2) :
    Reads F (forInit g ctx) (⟨Word.name x, b⟩ :: rest) (some (.identifier x)) rest := by
  have hdeclares : Reads F isDeclaration ((⟨Word.name x, b⟩ : LineWord) :: rest) false
      (⟨Word.name x, b⟩ :: rest) := Runs.kind Runs.value
  refine Runs.isAt_false nofun (Runs.seq hdeclares ?_)
  exact Runs.seq (reads_expression_name hg hrest hcomma hlevels) Runs.value

lemma reads_expressionBefore {e : Option Node} (h : ∀ m ∈ e, Plain .name m) {p : Punctuator}
    (hp : p = .semicolon ∨ p = .closeParen) {b : Bool} (hlevels : Affords F n 2) :
    Reads F (expressionBefore g ctx p)
      (wordsOf ((Node.piecesOption e level).getD []) ++ ⟨punctuator p, b⟩ :: rest) e
      (⟨punctuator p, b⟩ :: rest) := by
  cases e with
  | none => exact Runs.isAt_true rfl Runs.value
  | some m =>
    cases h m rfl
    refine Runs.isAt_false nofun (Runs.seq (reads_expression_name hg ?_ ?_ hlevels) ?_)
    · rcases hp with rfl | rfl <;> rfl
    · rcases hp with rfl | rfl <;> exact nofun
    · exact Runs.value

/-- A loop with a head in three parts, the first of which is known to be read. -/
lemma reads_forStatement {init test step : Option Node} {body : Node} {ps : List LinePiece}
    (hinit : ∀ rest, Reads F (forInit g ctx) (wordsOf ps ++ ⟨punctuator .semicolon, false⟩ :: rest)
      init (⟨punctuator .semicolon, false⟩ :: rest))
    (htest : ∀ e ∈ test, Plain .name e) (hstep : ∀ e ∈ step, Plain .name e)
    (hbody : Plain .statement body) (hrest : MayFollow body.endsOpen (headKind rest))
    (hlevels : Affords F n (Node.forLoop init test step body).height) :
    Reads F (forStatement g ctx)
      (wordsOf (headPieces .kwFor
        (ps ++ mark .semicolon :: .blank :: (Node.piecesOption test level).getD [] ++
          mark .semicolon :: .blank :: (Node.piecesOption step level).getD []) ++
        body.pieces level) ++ rest)
      (.forLoop init test step body) rest := by
  have hchild : body ∈ (Node.forLoop init test step body).children :=
    List.mem_append_right _ List.mem_cons_self
  have hname := hlevels.name (List.ne_nil_of_mem hchild)
  have hparts : Reads F (forRest g ctx init) (⟨punctuator .semicolon, false⟩ ::
      (wordsOf ((Node.piecesOption test level).getD []) ++ ⟨punctuator .semicolon, false⟩ ::
        (wordsOf ((Node.piecesOption step level).getD []) ++ ⟨punctuator .closeParen, false⟩ ::
          (wordsOf (body.pieces level) ++ rest)))) (.forLoop init test step body) rest := by
    refine Runs.expect rfl (Runs.seq (reads_expressionBefore hg htest (.inl rfl) hname) ?_)
    refine Runs.expect rfl (Runs.seq (reads_expressionBefore hg hstep (.inr rfl) hname) ?_)
    refine Runs.expect rfl (Runs.seq (hg.statement hbody hrest (hlevels.child hchild)) ?_)
    exact Runs.value
  simp only [wordsOf_append, wordsOf_headPieces, wordsOf_mark, wordsOf_blank, List.append_assoc,
    List.cons_append, List.nil_append]
  refine Runs.advance (Runs.expect rfl (Runs.seq (hinit _) (Runs.kind ?_)))
  cases init with
  | none => exact hparts
  | some left => exact hparts

/-- A loop over a value, the left side of which is known to be read. -/
lemma reads_forStatement_each (iteration : Iteration) {left right body : Node} {ps : List LinePiece}
    (hinit : ∀ rest, Reads F (forInit g ctx) (wordsOf ps ++ ⟨iteration.spelling, false⟩ :: rest)
      (some left) (⟨iteration.spelling, false⟩ :: rest))
    (hleft : loopTarget left = .ok left) (hright : Plain .name right)
    (hbody : Plain .statement body) (hrest : MayFollow body.endsOpen (headKind rest))
    (hlevels : Affords F n (Node.forEach iteration left right body).height) :
    Reads F (forStatement g ctx)
      (wordsOf (headPieces .kwFor
        (ps ++ .blank :: inLine iteration.spelling :: .blank :: right.pieces level) ++
        body.pieces level) ++ rest)
      (.forEach iteration left right body) rest := by
  have hname := hlevels.name (List.cons_ne_nil _ _)
  have hlevel : Affords F n (body.height + 1) :=
    hlevels.child (List.mem_cons_of_mem _ (List.mem_cons_of_mem _ List.mem_cons_self))
  have hsides : Reads F (forEachRest g ctx iteration left) (⟨iteration.spelling, false⟩ ::
      (wordsOf (right.pieces level) ++ ⟨punctuator .closeParen, false⟩ ::
        (wordsOf (body.pieces level) ++ rest))) (.forEach iteration left right body) rest := by
    have hend : Runs F (do
          expect .closeParen
          return Node.forEach iteration left right (← g.statement ctx))
        ((⟨punctuator .closeParen, false⟩ : LineWord) :: (wordsOf (body.pieces level) ++ rest))
        fun r vs => r = .forEach iteration left right body ∧ vs = rest :=
      Runs.expect rfl (Runs.seq (hg.statement hbody hrest hlevel) Runs.value)
    cases hright
    rw [forEachRest, hleft]
    refine Runs.advance ?_
    cases iteration with
    | keys => exact Runs.seq (reads_expression_name hg rfl nofun hname) hend
    | values => exact Runs.seq (hg.assignment rfl hname) hend
  simp only [wordsOf_append, wordsOf_headPieces, wordsOf_inLine, wordsOf_blank, List.append_assoc,
    List.cons_append, List.nil_append]
  refine Runs.advance (Runs.expect rfl (Runs.seq (hinit _) (Runs.kind ?_)))
  cases iteration with
  | keys => exact hsides
  | values => exact hsides

/-- The words after a branch: another branch, or the end of the switch. -/
def EndsBranch (ws : List LineWord) : Prop :=
  headKind ws = .reserved .kwCase ∨ headKind ws = .reserved .kwDefault ∨
    headKind ws = .punctuator .closeBrace

lemma reads_branchBody {body : List Node} (h : ∀ s ∈ body, Plain .statement s)
    (hlevels : ∀ s ∈ body, Affords F n (s.height + 1))
    (hrest : EndsBranch rest) :
    Reads F (branchBody g ctx) ((Node.piecesEach body level).flatMap wordsOf ++ rest) body
      rest := by
  refine (loops_statements h ?_ ?_ ?_).repeatFrom
  · rcases hrest with heq | heq | heq <;> rw [heq] <;> exact ⟨nofun, fun _ => nofun⟩
  · intro found
    refine Runs.kind ?_
    rcases hrest with heq | heq | heq <;> rw [heq] <;> exact Runs.value
  · intro s hs found rest hrest
    have hread : Reads F (do return .again ((← g.statement ctx) :: found))
        (wordsOf (s.pieces level) ++ rest) (Turn.again (s :: found) : Turn (List Node) (List Node))
        rest :=
      Runs.seq (hg.statement (h s hs) hrest (hlevels s hs)) Runs.value
    refine Runs.kind ?_
    have hstart := endsStatements_pieces (h s hs) level rest
    split
    case h_5 => exact hread
    all_goals
      rename_i hkind
      rw [hkind] at hstart
      cases hstart

/-- A branch is read up to the next branch or the closing brace. -/
lemma reads_branch {b : Node} (h : Plain .branch b) (found : List Node)
    (hlevels : Affords F n b.height)
    (hrest : EndsBranch rest) :
    Reads F (do
        let test ← branchTest g ctx
        expect .colon
        return .again (.switchCase test (← branchBody g ctx) :: found))
      (wordsOf (b.pieces level) ++ rest)
      (Turn.again (b :: found) : Turn (List Node) (List Node)) rest := by
  cases h with
  | @branch test body htest hbody =>
    have hlevel : ∀ s ∈ body, Affords F n (s.height + 1) :=
      fun s hs => hlevels.child (List.mem_append_right _ hs)
    have hread : Reads F (branchBody g ctx)
        ((Node.piecesEach body (level + 1)).flatMap wordsOf ++ rest) body rest :=
      reads_branchBody hg hbody hlevel hrest
    cases test with
    | none =>
      have hwords : wordsOf ((Node.switchCase none body).pieces level) ++ rest =
          ⟨reserved .kwDefault, true⟩ :: ⟨punctuator .colon, false⟩ ::
            ((Node.piecesEach body (level + 1)).flatMap wordsOf ++ rest) := by
        change wordsOf ([keyword .kwDefault, mark .colon] ++
          newLines (level + 1) (Node.piecesEach body (level + 1))) ++ rest = _
        simp
      have htest : ∀ rest, Reads F (branchTest g ctx)
          ((⟨reserved .kwDefault, true⟩ : LineWord) :: rest) none rest := fun rest =>
        Runs.acceptWord_false nofun (Runs.acceptWord_true rfl Runs.value)
      rw [hwords]
      exact Runs.seq (htest _) (Runs.expect rfl (Runs.seq hread Runs.value))
    | some e =>
      cases htest e rfl with
      | @identifier x =>
        have hwords : wordsOf ((Node.switchCase (some (.identifier x)) body).pieces level) ++ rest =
            ⟨reserved .kwCase, true⟩ :: ⟨Word.name x, false⟩ :: ⟨punctuator .colon, false⟩ ::
              ((Node.piecesEach body (level + 1)).flatMap wordsOf ++ rest) := by
          change wordsOf (keyword .kwCase :: .blank :: [inLine (Word.name x)] ++ [mark .colon] ++
            newLines (level + 1) (Node.piecesEach body (level + 1))) ++ rest = _
          simp
        have htest : ∀ rest, Reads F (branchTest g ctx)
            ((⟨reserved .kwCase, true⟩ : LineWord) :: ⟨Word.name x, false⟩ ::
              ⟨punctuator .colon, false⟩ :: rest) (some (.identifier x))
            (⟨punctuator .colon, false⟩ :: rest) := by
          intro rest
          have hname := hlevels.name (List.cons_ne_nil _ _)
          refine Runs.acceptWord_true rfl ?_
          exact Runs.seq (reads_expression_name hg rfl nofun hname) Runs.value
        rw [hwords]
        exact Runs.seq (htest _) (Runs.expect rfl (Runs.seq hread Runs.value))

lemma reads_switchStatement {discriminant : Node} {branches : List Node}
    (hdiscriminant : Plain .name discriminant) (hbranches : ∀ b ∈ branches, Plain .branch b)
    (hlevels : Affords F n (Node.switch discriminant branches).height) :
    Reads F (switchStatement g ctx)
      (wordsOf ((Node.switch discriminant branches).pieces level) ++ rest)
      (.switch discriminant branches) rest := by
  have hname := hlevels.name (List.cons_ne_nil _ _)
  have hlevel : ∀ b ∈ branches, Affords F n b.height :=
    fun b hb => hlevels.below_child (List.mem_cons_of_mem _ hb)
  have hstart : ∀ b ∈ branches, ∀ rest,
      headKind (wordsOf (b.pieces (level + 1)) ++ rest) = .reserved .kwCase ∨
      headKind (wordsOf (b.pieces (level + 1)) ++ rest) = .reserved .kwDefault := by
    intro b hb rest
    cases hbranches b hb with
    | @branch test =>
      cases test with
      | none => exact .inr rfl
      | some e => exact .inl rfl
  have hwords : wordsOf ((Node.switch discriminant branches).pieces level) ++ rest =
      wordsOf (headPieces .kwSwitch (discriminant.pieces level)) ++
        ⟨punctuator .openBrace, true⟩ ::
          ((Node.piecesEach branches (level + 1)).flatMap wordsOf ++
            ⟨punctuator .closeBrace, true⟩ :: rest) := by
    change wordsOf (headPieces .kwSwitch (discriminant.pieces level) ++
      opening (punctuator .openBrace) :: newLines (level + 1)
        (Node.piecesEach branches (level + 1)) ++ closing level) ++ rest = _
    simp
  rw [hwords]
  refine runs_headed hg hdiscriminant hname (Runs.expect rfl ?_)
  refine Runs.seq (Loops.repeatFrom (loops_each (E := EndsBranch) ?_ ?_ ?_ ?_ ?_ [])) ?_
  · exact .inr (.inr rfl)
  · exact fun b hb rest => (hstart b hb rest).imp_right .inl
  · intro b hb hnil
    have := hstart b hb []
    rw [hnil] at this
    rcases this with heq | heq <;> cases heq
  · exact fun found => Runs.isAt_true rfl Runs.value
  · intro b hb found rest hrest
    have hbrace : headKind (wordsOf (b.pieces (level + 1)) ++ rest) ≠ .punctuator .closeBrace := by
      rcases hstart b hb rest with heq | heq <;> rw [heq] <;> exact nofun
    exact Runs.isAt_false hbrace (reads_branch hg (hbranches b hb) found (hlevel b hb) hrest)
  · exact Runs.advance Runs.value

/-! ### Other statements -/

lemma reads_returnStatement {argument : Option Node} (h : ∀ e ∈ argument, Plain .name e)
    (hlevels : Affords F n (Node.returning argument).height) :
    Reads F (returnStatement g ctx) (wordsOf ((Node.returning argument).pieces level) ++ rest)
      (.returning argument) rest := by
  have hdone : Runs F (do endStatement; return Node.returning argument)
      ((⟨punctuator .semicolon, false⟩ : LineWord) :: rest)
      fun r vs => r = .returning argument ∧ vs = rest :=
    Runs.seq reads_endStatement Runs.value
  refine Runs.advance ?_
  cases argument with
  | none =>
    have hend : Reads F canEnd ((⟨punctuator .semicolon, false⟩ : LineWord) :: rest) true
        (⟨punctuator .semicolon, false⟩ :: rest) :=
      Runs.tokenOfKind fun t ht => Runs.pure ⟨by rw [ht]; rfl, rfl⟩
    exact Runs.seq hend (Runs.seq Runs.value hdone)
  | some e =>
    have hname := hlevels.name (List.cons_ne_nil _ _)
    cases h e rfl with
    | @identifier x =>
      have hend : ∀ ws, Reads F canEnd ((⟨Word.name x, false⟩ : LineWord) :: ws) false
          (⟨Word.name x, false⟩ :: ws) :=
        fun ws => Runs.tokenOnLine fun t hkind _ _ hline =>
          Runs.pure ⟨by rw [hkind, hline rfl]; rfl, rfl⟩
      refine Runs.seq (hend _) (Runs.seq (Runs.map some ?_) hdone)
      exact reads_expression_name hg rfl nofun hname

lemma reads_throwStatement {argument : Node} (h : Plain .name argument)
    (hlevels : Affords F n (Node.throwing argument).height) :
    Reads F (throwStatement g ctx) (wordsOf ((Node.throwing argument).pieces level) ++ rest)
      (.throwing argument) rest := by
  have hname := hlevels.name (List.cons_ne_nil _ _)
  cases h
  refine Runs.advance (Runs.afterLineBreak rfl ?_)
  refine Runs.seq (reads_expression_name hg rfl nofun hname) ?_
  exact Runs.seq reads_endStatement Runs.value

omit hg in
lemma reads_jumpStatement (kind : Jump) (label : Option String) :
    Reads F (jumpStatement kind) (wordsOf ((Node.jump kind label).pieces level) ++ rest)
      (.jump kind label) rest := by
  have hdone : Runs F (do endStatement; return Node.jump kind label)
      ((⟨punctuator .semicolon, false⟩ : LineWord) :: rest)
      fun r vs => r = .jump kind label ∧ vs = rest :=
    Runs.seq reads_endStatement Runs.value
  refine Runs.advance ?_
  cases label with
  | none =>
    refine Runs.tokenOfKind fun t ht => ?_
    rw [ht]
    exact Runs.seq Runs.value hdone
  | some x =>
    refine Runs.tokenOnLine fun t hkind _ _ hline => ?_
    rw [hkind, hline rfl]
    exact Runs.seq (Runs.name rfl Runs.value) hdone

/-- The words of the target that a handler may bind. -/
def parameterWords (level : Nat) : Option Node → List LineWord
  | some param => ⟨punctuator .openParen, false⟩ ::
      (wordsOf (param.pieces level) ++ [⟨punctuator .closeParen, false⟩])
  | none => []

/-- The words of the block that may end a guarded block. -/
def finallyWords (level : Nat) : Option Node → List LineWord
  | some b => ⟨reserved .kwFinally, true⟩ :: wordsOf (b.pieces level)
  | none => []

omit hg in
lemma wordsOf_handler (param : Option Node) (body : Node) :
    wordsOf ((Node.handler param body).pieces level) =
      ⟨reserved .kwCatch, true⟩ :: (parameterWords level param ++ wordsOf (body.pieces level)) := by
  cases param with
  | none => rfl
  | some param =>
    change wordsOf (.blank :: keyword .kwCatch :: .blank ::
      (mark .openParen :: param.pieces level ++ [mark .closeParen, .blank]) ++
      body.pieces level) = _
    simp [parameterWords]

omit hg in
lemma wordsOf_guarded (body : Node) (recovery finalizer : Option Node) :
    wordsOf ((Node.guarded body recovery finalizer).pieces level) =
      ⟨reserved .kwTry, true⟩ :: (wordsOf (body.pieces level) ++
        (wordsOf ((Node.piecesOption recovery level).getD []) ++
          finallyWords level finalizer)) := by
  cases finalizer with
  | none =>
    change wordsOf (keyword .kwTry :: .blank :: body.pieces level ++
      (Node.piecesOption recovery level).getD [] ++ []) = _
    simp [finallyWords]
  | some b =>
    change wordsOf (keyword .kwTry :: .blank :: body.pieces level ++
      (Node.piecesOption recovery level).getD [] ++
      .blank :: keyword .kwFinally :: .blank :: b.pieces level) = _
    simp [finallyWords]

lemma reads_handlerParameter {param : Option Node} (h : ∀ e ∈ param, Plain .name e)
    (hrest : headKind rest ≠ .punctuator .openParen) (hlevels : Affords F n 1) :
    Reads F (handlerParameter g ctx) (parameterWords level param ++ rest) param rest := by
  cases param with
  | none => exact Runs.accept_false hrest Runs.value
  | some e =>
    cases h e rfl
    refine Runs.accept_true rfl (Runs.seq (hg.target hlevels) ?_)
    exact Runs.expect rfl Runs.value

/-- The end of a guarded block, from what follows its handler on. -/
lemma reads_finally {body : Node} {recovery finalizer : Option Node}
    (h : ∀ b ∈ finalizer, Plain .block b)
    (hneeded : recovery.isSome = true ∨ finalizer.isSome = true)
    (hrest : headKind rest ≠ .reserved .kwFinally)
    (hlevels : ∀ b ∈ finalizer, Affords F n b.height) :
    Reads F (do
        let finalizer ← if ← acceptWord .kwFinally then some <$> block g ctx else pure none
        if recovery.isNone && finalizer.isNone then reject .handlerExpected
        return Node.guarded body recovery finalizer)
      (finallyWords level finalizer ++ rest) (.guarded body recovery finalizer) rest := by
  have hdone : Runs F (do
      if recovery.isNone && finalizer.isNone then reject .handlerExpected
      return Node.guarded body recovery finalizer) rest
      fun r vs => r = .guarded body recovery finalizer ∧ vs = rest := by
    have hsome : (recovery.isNone && finalizer.isNone) = false := by
      rcases hneeded with hsome | hsome <;> simp [Option.isNone_eq_false_iff.2 hsome]
    rw [hsome]
    exact Runs.value
  cases finalizer with
  | none => exact Runs.acceptWord_false hrest (Runs.seq Runs.value hdone)
  | some b =>
    refine Runs.acceptWord_true rfl (Runs.seq (Runs.map some ?_) hdone)
    exact reads_block hg (h b rfl) (hlevels b rfl)

lemma reads_tryStatement {body : Node} {recovery finalizer : Option Node}
    (hbody : Plain .block body) (hrecovery : ∀ h ∈ recovery, Plain .handler h)
    (hfinalizer : ∀ b ∈ finalizer, Plain .block b)
    (hneeded : recovery.isSome = true ∨ finalizer.isSome = true)
    (hrest : headKind rest ≠ .reserved .kwFinally)
    (hlevels : Affords F n (Node.guarded body recovery finalizer).height) :
    Reads F (tryStatement g ctx)
      (wordsOf ((Node.guarded body recovery finalizer).pieces level) ++ rest)
      (.guarded body recovery finalizer) rest := by
  have hblock := hlevels.below_child List.mem_cons_self
  have hfinal : ∀ b ∈ finalizer, Affords F n b.height := by
    intro b hb
    exact hlevels.below_child (List.mem_cons_of_mem _ (List.mem_append_right _ (by simpa using hb)))
  cases recovery with
  | none =>
    have hwords : wordsOf ((Node.guarded body none finalizer).pieces level) ++ rest =
        ⟨reserved .kwTry, true⟩ ::
          (wordsOf (body.pieces level) ++ (finallyWords level finalizer ++ rest)) := by
      rw [wordsOf_guarded, List.cons_append, List.append_assoc]
      rfl
    have hcatch : headKind (finallyWords level finalizer ++ rest) ≠ .reserved .kwCatch := by
      obtain ⟨b, rfl⟩ := Option.isSome_iff_exists.1 (hneeded.resolve_left nofun)
      exact nofun
    rw [hwords]
    refine Runs.advance (Runs.seq (reads_block hg hbody hblock) ?_)
    refine Runs.acceptWord_false hcatch (Runs.seq Runs.value ?_)
    exact reads_finally hg hfinalizer hneeded hrest hfinal
  | some handler =>
    have hhandler : Affords F n handler.height :=
      hlevels.below_child (List.mem_cons_of_mem _ List.mem_cons_self)
    cases hrecovery handler rfl with
    | @handler param recover hparam hrecover =>
      have hwords : wordsOf ((Node.guarded body (some (.handler param recover)) finalizer).pieces
          level) ++ rest = ⟨reserved .kwTry, true⟩ :: (wordsOf (body.pieces level) ++
            ⟨reserved .kwCatch, true⟩ :: (parameterWords level param ++
              (wordsOf (recover.pieces level) ++ (finallyWords level finalizer ++ rest)))) := by
        have hcatch : wordsOf ((Node.piecesOption (some (.handler param recover)) level).getD []) =
            ⟨reserved .kwCatch, true⟩ ::
              (parameterWords level param ++ wordsOf (recover.pieces level)) :=
          wordsOf_handler param recover
        rw [wordsOf_guarded, hcatch]
        simp
      have hchild : recover ∈ (Node.handler param recover).children :=
        List.mem_append_right _ List.mem_cons_self
      have hname : Affords F n 1 :=
        (hhandler.name (List.ne_nil_of_mem hchild)).of_le (Nat.le_succ 1)
      have hbrace : headKind (wordsOf (recover.pieces level) ++
          (finallyWords level finalizer ++ rest)) ≠ .punctuator .openParen := by
        rw [headKind_block hrecover]
        exact nofun
      rw [hwords]
      refine Runs.advance (Runs.seq (reads_block hg hbody hblock) (Runs.acceptWord_true rfl ?_))
      refine Runs.seq (reads_handlerParameter hg hparam hbrace hname) ?_
      refine Runs.seq (reads_block hg hrecover (hhandler.below_child hchild)) ?_
      refine Runs.seq Runs.value ?_
      exact reads_finally hg hfinalizer hneeded hrest hfinal

lemma reads_nameStatement_labeled {label : String} {body : Node} (hbody : Plain .statement body)
    (hrest : MayFollow body.endsOpen (headKind rest))
    (hlevels : Affords F n (Node.labeled label body).height) :
    Reads F (nameStatement g ctx) (wordsOf ((Node.labeled label body).pieces level) ++ rest)
      (.labeled label body) rest := by
  have hread : Reads F (labeledStatement g ctx)
      (wordsOf ((Node.labeled label body).pieces level) ++ rest) (.labeled label body) rest := by
    refine Runs.name rfl (Runs.expect rfl ?_)
    exact Runs.seq (hg.statement hbody hrest (hlevels.child List.mem_cons_self))
      Runs.value
  refine Runs.peek fun t ht => ?_
  rw [ht]
  exact hread

lemma reads_nameStatement_expression {x : String} {b b' : Bool} (hlevels : Affords F n 2) :
    Reads F (nameStatement g ctx) (⟨Word.name x, b⟩ :: ⟨punctuator .semicolon, b'⟩ :: rest)
      (.expressionStatement (.identifier x)) rest :=
  reads_nameStatement_of_name (reads_expression_name hg rfl nofun hlevels) nofun

omit hg in
lemma reads_isFunctionAhead {w : LineWord} :
    Reads F isFunctionAhead (w :: ⟨reserved .kwFunction, false⟩ :: rest) true
      (w :: ⟨reserved .kwFunction, false⟩ :: rest) := by
  refine Runs.peekOnLine fun t hkind hline => Runs.pure ⟨?_, rfl⟩
  rw [hkind, hline rfl]
  rfl

/-- The first word tells which rule reads a statement. -/
lemma reads_anyStatement_plain {s : Node} (h : Plain .statement s)
    (hrest : MayFollow s.endsOpen (headKind rest)) (hlevels : Affords F n s.height) :
    Reads F (anyStatement g ctx) (wordsOf (s.pieces level) ++ rest) s rest := by
  refine Runs.kind ?_
  cases h with
  | expressionStatement he =>
    have hname := hlevels.name (List.cons_ne_nil _ _)
    cases he
    exact reads_nameStatement_expression hg hname
  | nested h =>
    rw [headKind_block h]
    exact reads_block hg h hlevels
  | empty => exact Runs.advance Runs.value
  | debugger => exact Runs.advance (Runs.seq reads_endStatement Runs.value)
  | returning h => exact reads_returnStatement hg h hlevels
  | throwing h => exact reads_throwStatement hg h hlevels
  | jump kind =>
    cases kind with
    | leave => exact reads_jumpStatement .leave _
    | «repeat» => exact reads_jumpStatement .repeat _
  | ifThen htest hconsequent =>
    exact reads_ifStatement hg htest hconsequent (by simp) hrest hlevels
  | ifElse htest hconsequent hclosed halternate =>
    exact reads_ifStatement hg htest hconsequent (by simpa using ⟨hclosed, halternate⟩) hrest
      hlevels
  | whileLoop htest hbody => exact reads_whileStatement hg htest hbody hrest hlevels
  | doWhileLoop hbody htest => exact reads_doStatement hg hbody htest hlevels
  | @forLoop init test step body hinit htest hstep hbody =>
    have hname := hlevels.name (List.append_ne_nil_of_right_ne_nil _ (List.cons_ne_nil _ _))
    cases init with
    | none =>
      have hnone : ∀ rest, Reads F (forInit g ctx)
          (wordsOf ([] : List LinePiece) ++ ⟨punctuator .semicolon, false⟩ :: rest) none
          (⟨punctuator .semicolon, false⟩ :: rest) :=
        fun rest => Runs.isAt_true rfl Runs.value
      exact reads_forStatement hg hnone htest hstep hbody hrest hlevels
    | some e =>
      cases hinit e rfl
      exact reads_forStatement hg (fun _ => reads_forInit_name hg rfl nofun hname) htest hstep hbody
        hrest hlevels
  | forLoopDeclaring kind hne h htest hstep hbody =>
    have hname := hlevels.name (List.cons_ne_nil _ _)
    exact reads_forStatement hg (fun _ => reads_forInit_declaration hg kind hne h rfl nofun hname)
      htest hstep hbody hrest hlevels
  | forEach iteration hleft hright hbody =>
    have hname := hlevels.name (List.cons_ne_nil _ _)
    cases hleft
    refine reads_forStatement_each hg iteration (fun rest => ?_) rfl hright hbody hrest hlevels
    have hends := endsExpression_iteration ctx iteration
    exact reads_forInit_name hg hends.1 hends.2 hname
  | @forEachDeclaring iteration kind id _ _ hid hright hbody =>
    have hname := hlevels.name (List.cons_ne_nil _ _)
    have hdeclares : ∀ d ∈ [Node.declarator id none], Plain .declarator d :=
      List.forall_mem_singleton.2 (.declarator hid (by simp))
    refine reads_forStatement_each hg iteration (fun rest => ?_) rfl hright hbody hrest hlevels
    have hends := endsExpression_iteration ctx iteration
    exact reads_forInit_declaration hg kind (List.cons_ne_nil _ _) hdeclares hends.1 hends.2 hname
  | guarded hbody hrecovery hfinalizer hneeded =>
    exact reads_tryStatement hg hbody hrecovery hfinalizer hneeded hrest.1 hlevels
  | switch hdiscriminant hbranches =>
    exact reads_switchStatement hg hdiscriminant hbranches hlevels
  | labeled _ hbody => exact reads_nameStatement_labeled hg hbody hrest hlevels
  | @declaration kind declarators hne h =>
    have hname := hlevels.name hne
    rw [wordsOf_declaration]
    cases kind with
    | functionScoped => exact reads_variableStatement hg .functionScoped hne h hname
    | constant => exact reads_variableStatement hg .constant hne h hname
    | blockScoped =>
      refine Runs.seq (reads_isLetDeclaration (headKind_declarators hne h)) ?_
      exact reads_variableStatement hg .blockScoped hne h hname
  | @function name params body isAsync isGenerator _ hparams hbody =>
    have hwords : wordsOf ((Node.function .declaration (some name) params body isAsync
        isGenerator).pieces level) ++ rest =
        (if isAsync then [⟨Word.contextual .kwAsync, true⟩] else []) ++
        ⟨reserved .kwFunction, !isAsync⟩ :: functionWords name params body isGenerator level rest := by
      change wordsOf (functionHead name isAsync isGenerator ++
        (mark .openParen :: commaPieces (Node.piecesEach params level) ++ [mark .closeParen]) ++
        .blank :: body.pieces level) ++ rest = _
      cases isAsync <;> cases isGenerator <;> simp [functionHead, functionWords, listWords]
    rw [hwords]
    cases isAsync with
    | false => exact reads_functionDefinition hg false isGenerator hparams hbody hlevels
    | true =>
      refine Runs.seq reads_isFunctionAhead (Runs.advance ?_)
      exact reads_functionDefinition hg true isGenerator hparams hbody hlevels

end

/-! ### All levels -/

lemma readsPlain_exhausted : ReadsPlain 0 exhausted where
  target hlevels := Runs.reject (hlevels.resolve_right (by omega))
  assignment _ hlevels := Runs.reject (hlevels.resolve_right (by omega))
  unary _ hlevels := Runs.reject (hlevels.resolve_right (by omega))
  statement _ _ hlevels := Runs.reject (hlevels.resolve_right (by omega))

lemma ReadsPlain.above {n : Nat} {g : Grammar} (hg : ReadsPlain n g) :
    ReadsPlain (n + 1) g.above where
  target _ := reads_bindingTarget_name
  assignment hrest hlevels := reads_assignmentExpression_name hg hrest hlevels.below
  unary hrest _ := reads_unaryExpression_name hrest
  statement h hrest hlevels := reads_anyStatement_plain hg h hrest hlevels.below

/-- Every level of the grammar reads plain statements back. -/
lemma readsPlain_level (n : Nat) : ReadsPlain n (level n) := by
  induction n with
  | zero => exact readsPlain_exhausted
  | succ n ih => exact ih.above

/-! ### Scripts -/

/-- The words of plain statements are read as the script of these statements. -/
lemma program_of_plain {F : SyntaxCause → Prop} {n : Nat} {g : Grammar} (hg : ReadsPlain n g)
    {body : List Node} (hbody : ∀ s ∈ body, Plain .statement s)
    (hlevels : Affords F n (Node.program body).height) {start c : Cursor}
    (hnext : start.next? = some (c, none))
    (hat : c.At ((Node.piecesEach body 0).flatMap wordsOf)) :
    (∃ next, g.program start = .ok (.program body) next) ∨
      ∃ cause span, g.program start = .fail (.refused ⟨cause, span⟩) ∧ F cause := by
  rw [program, advance_bind hnext]
  rw [← List.append_nil (List.flatMap _ _)] at hat
  refine Runs.outcome ?_ hat
  refine Runs.seq (loops_statements hbody ?_ ?_ ?_).repeatFrom (Runs.pure rfl)
  · exact ⟨by rintro ⟨⟩, by rintro - ⟨⟩⟩
  · exact fun found => Runs.isAt_true rfl Runs.value
  · intro s hs found rest hrest
    refine Runs.isAt_false (headKind_statement_ne (hbody s hs) rfl) ?_
    exact Runs.seq (hg.statement (hbody s hs) hrest (hlevels.child hs)) Runs.value

end Grammar

open Grammar in
/-- A text whose words are those of plain statements is the script of these statements.  It can only
be refused for its nesting, and only if the tree of the script is too high. -/
theorem parse_of_plain {text : String} {c : Cursor} {body : List Node}
    (hbody : ∀ s ∈ body, Plain .statement s) (hnext : (Cursor.start text).next? = some (c, none))
    (hat : c.At ((Node.piecesEach body 0).flatMap wordsOf)) :
    parse text = .ok (.program body) ∨
      (maxNesting < (Node.program body).height ∧
        ∃ span, parse text = .error (.refused ⟨.nestedTooDeeply, span⟩)) := by
  let F : SyntaxCause → Prop := fun cause =>
    maxNesting < (Node.program body).height ∧ cause = .nestedTooDeeply
  have hlevels : Affords F maxNesting (Node.program body).height := by
    rcases Nat.lt_or_ge maxNesting (Node.program body).height with hlt | hge
    · exact .inl ⟨hlt, rfl⟩
    · exact .inr hge
  rw [parse]
  rcases program_of_plain (readsPlain_level maxNesting) hbody hlevels hnext hat with
    ⟨next, hok⟩ | ⟨_, span, hfail, hhigh, rfl⟩
  · exact .inl (by rw [hok])
  · exact .inr ⟨hhigh, span, by rw [hfail]⟩

end BindingProxy
