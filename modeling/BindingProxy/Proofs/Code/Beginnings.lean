import BindingProxy.Proofs.Code.Openings
import BindingProxy.Proofs.Grammar.Nesting

/-!
# How printed expression statements begin

A statement is told by its first token, and after a name also by the second one.  `beginsOther` says
whether they make the reader take another rule than that of expression statements.  The printer puts
parentheses around an expression that begins with a brace or with one of the words `function`,
`class` and `async`, but it does not look for the name `let` before a bracket.  The main result is
that nothing else goes wrong.
-/

namespace BindingProxy

open Lexeme (EndsName)

/-- The words that begin another statement than an expression. -/
def ReservedWord.ofStatements : List ReservedWord :=
  [.kwVar, .kwConst, .kwFunction, .kwClass, .kwIf, .kwFor, .kwWhile, .kwDo, .kwReturn, .kwBreak,
    .kwContinue, .kwThrow, .kwTry, .kwSwitch, .kwDebugger, .kwWith]

/-- The kinds of tokens that begin another statement than an expression, whatever follows. -/
def TokenKind.beginsStatement : TokenKind → Bool
  | punctuator p => p == .openBrace || p == .semicolon
  | reserved w => ReservedWord.ofStatements.contains w
  | _ => false

namespace Cursor

/-- Whether the token after the current one passes a test. -/
def nextIs (c : Cursor) (test : Token → Bool) : Bool := c.next?.any fun reached => test reached.1.token

/-- Whether the statement at a cursor is another one than an expression: it begins with a brace, a
semicolon or a word of statements, or it has a label, or it is a declaration with `let` or of an
async function. -/
def beginsOther (c : Cursor) : Bool :=
  c.token.kind.beginsStatement ||
    (c.token.kind.isName && c.nextIs fun t => t.kind == .punctuator .colon) ||
    (c.token.kind == .contextual .kwLet && c.nextIs fun t => t.kind.isName ||
      t.kind == .punctuator .openBracket || t.kind == .punctuator .openBrace) ||
    (c.token.kind == .contextual .kwAsync && c.nextIs fun t => t.kind == .reserved .kwFunction &&
      !t.afterLineBreak)

end Cursor

namespace Grammar

open Parse

variable {c c' : Cursor} {flaw : Option Flaw}

lemma nameStatement_of_ne_colon (h : c.next? = some (c', flaw))
    (hcolon : c'.token.kind ≠ .punctuator .colon) (g : Grammar) (ctx : Context) :
    nameStatement g ctx c = expressionStatement g ctx c := by
  rw [nameStatement, bind_of_ok (peek_of_next? h), if_neg hcolon]

/-- Where no other statement begins, an expression statement is read, as long as the next token can
be looked at. -/
lemma anyStatement_of_not_beginsOther (h : c.beginsOther = false) (g : Grammar) (ctx : Context) :
    c.next? = none ∨ anyStatement g ctx c = expressionStatement g ctx c := by
  cases hnext : c.next? with
  | none => exact .inl rfl
  | some reached =>
    obtain ⟨c', flaw⟩ := reached
    right
    simp only [Cursor.beginsOther, Cursor.nextIs, hnext, Option.any_some, Bool.or_eq_false_iff] at h
    obtain ⟨⟨⟨hkind, hcolon⟩, hlet⟩, hasync⟩ := h
    have hname : c.token.kind.isName = true →
        nameStatement g ctx c = expressionStatement g ctx c := by
      intro hname
      refine nameStatement_of_ne_colon hnext (fun heq => ?_) g ctx
      rw [hname, heq] at hcolon
      cases hcolon
    unfold anyStatement
    rw [kind_bind]
    cases hk : c.token.kind with
    | punctuator p =>
      rw [hk] at hkind
      cases p <;> first | rfl | cases hkind
    | reserved w =>
      rw [hk] at hkind
      cases w <;> first | rfl | cases hkind
    | contextual w =>
      rw [hk] at hname hlet hasync
      have hrule := hname rfl
      cases w with
      | kwLet =>
        rw [beq_self_eq_true, Bool.true_and] at hlet
        have hdeclares : isLetDeclaration c = .ok false c := by
          rw [isLetDeclaration, bind_of_ok (peek_of_next? hnext), hlet]
          rfl
        exact (bind_of_ok hdeclares).trans hrule
      | kwAsync =>
        rw [beq_self_eq_true, Bool.true_and] at hasync
        have hfunction : isFunctionAhead c = .ok false c := by
          rw [isFunctionAhead, bind_of_ok (peek_of_next? hnext), hasync]
          rfl
        exact (bind_of_ok hfunction).trans hrule
      | _ => exact hrule
    | identifier => exact hname (by rw [hk]; rfl)
    | _ => rfl

end Grammar

/-! ### The first tokens of a text -/

lemma not_beginsStatement_of_isName {k : TokenKind} (h : k.isName = true) :
    k.beginsStatement = false := by
  cases k with
  | identifier => rfl
  | contextual => rfl
  | _ => cases h

namespace Cursor

variable {c c' : Cursor} {flaw : Option Flaw}

lemma nextIs_eq_true {test : Token → Bool} :
    c.nextIs test = true ↔ ∃ c' flaw, c.next? = some (c', flaw) ∧ test c'.token = true := by
  simp [nextIs, Option.any_eq_true]

/-- What is no name begins another statement by itself or not at all. -/
lemma not_beginsOther_of_not_isName (hkind : c.token.kind.beginsStatement = false)
    (hname : c.token.kind.isName = false) : c.beginsOther = false := by
  have hcontextual : ∀ w, (c.token.kind == .contextual w) = false := by
    intro w
    refine beq_false_of_ne fun heq => ?_
    rw [heq] at hname
    cases hname
  simp [beginsOther, hkind, hname, hcontextual]

/-- A name other than `let` and `async` begins another statement only as a label. -/
lemma not_beginsOther_of_isName (hname : c.token.kind.isName = true)
    (hlet : c.token.kind ≠ .contextual .kwLet) (hasync : c.token.kind ≠ .contextual .kwAsync)
    (h : ∀ c' flaw, c.next? = some (c', flaw) → c'.token.kind ≠ .punctuator .colon) :
    c.beginsOther = false := by
  have hkind := not_beginsStatement_of_isName hname
  have hcolon : (c.nextIs fun t => t.kind == .punctuator .colon) = false := by
    unfold nextIs
    cases hnext : c.next? with
    | none => rfl
    | some reached => exact beq_false_of_ne (h reached.1 reached.2 hnext)
  simp [beginsOther, hkind, hcolon, hlet, hasync]

end Cursor

/-- What the first token of a text says of the statement that it begins: it is another one than an
expression only if the text begins with `let[`. -/
def BeginsRightly (text : List Char) : Prop :=
  ∀ c flaw, Cursor.nextAfter false 0 text = some (c, flaw) →
    (c.beginsOther = true ↔ "let[".toList <+: text)

/-- A text whose first token begins no other statement. -/
lemma BeginsRightly.of_not {text : List Char} (hlet : ¬ "let[".toList <+: text)
    (h : ∀ c flaw, Cursor.nextAfter false 0 text = some (c, flaw) → c.beginsOther = false) :
    BeginsRightly text := by
  intro c flaw hnext
  rw [h c flaw hnext]
  exact ⟨fun hno => absurd hno Bool.false_ne_true, fun hprefix => absurd hprefix hlet⟩

lemma not_let_of_head? {text : List Char} (h : text.head? ≠ some 'l') : ¬ "let[".toList <+: text := by
  rintro ⟨rest, rfl⟩
  exact h rfl

lemma BeginsName.not_let {w : String} (hw : BeginsName w) (h : w.toList.head? ≠ some 'l')
    (tail : List Char) : ¬ "let[".toList <+: w.toList ++ tail := by
  obtain ⟨x, xs, htext, _⟩ := hw
  rw [htext] at h ⊢
  exact not_let_of_head? h

lemma Marked.beginsRightly {text : List Char} (h : Marked text) : BeginsRightly text := by
  refine .of_not (not_let_of_head? fun hhead => ?_) fun c flaw hnext => ?_
  · obtain ⟨rest, rfl⟩ := List.head?_eq_some_iff.1 hhead
    have hname := (h.head 'l' rest rfl).1
    revert hname
    decide
  · obtain ⟨hword, hbrace, hsemicolon⟩ := h.kind hnext
    apply Cursor.not_beginsOther_of_not_isName
    · cases hk : c.token.kind with
      | punctuator p =>
        rw [hk] at hbrace hsemicolon
        simp only [TokenKind.beginsStatement, Bool.or_eq_false_iff]
        exact ⟨beq_false_of_ne fun hp => hbrace (by rw [hp]),
          beq_false_of_ne fun hp => hsemicolon (by rw [hp])⟩
      | reserved w =>
        rw [hk] at hword
        cases hword
      | _ => rfl
    · by_contra hname
      rw [TokenKind.isWord_of_isName (eq_true_of_ne_false hname)] at hword
      cases hword

/-- The first token of a text that begins with a word which stands. -/
lemma next_of_stands {w : Word} {tail : List Char} (h : w.Stands tail) {c : Cursor}
    {flaw : Option Flaw} (hnext : Cursor.nextAfter false 0 (w.text.toList ++ tail) = some (c, flaw)) :
    c.token.kind = w.kind ∧ ∃ offset, c.next? = Cursor.nextAfter false offset tail := by
  rw [Cursor.nextAfter_word h] at hnext
  cases hnext
  exact ⟨rfl, _, Cursor.next?_eq _⟩

lemma beginsRightly_word {r : ReservedWord} (hr : r ∈ Node.leadingWords) {tail : List Char}
    (htail : EndsName tail) : BeginsRightly (r.text.toList ++ tail) := by
  have hwords : ∀ r ∈ Node.leadingWords, (TokenKind.reserved r).beginsStatement = false ∧
      r.text.toList.head? ≠ some 'l' := by decide
  obtain ⟨hkind, hhead⟩ := hwords r hr
  refine .of_not ((beginsName_reserved r).not_let hhead tail) fun c flaw hnext => ?_
  have hstands := (Word.isToken_reserved r).stands_of_isWord rfl htail
  obtain ⟨hreserved, _⟩ := next_of_stands hstands hnext
  apply Cursor.not_beginsOther_of_not_isName
  · rw [hreserved]
    exact hkind
  · rw [hreserved]
    rfl

lemma beginsRightly_operator {w : String} (hw : w ∈ ["yield", "await"]) {tail : List Char}
    (hend : EndsName tail) (htail : Colonless tail) : BeginsRightly (w.toList ++ tail) := by
  have hwords : ∀ w ∈ ["yield", "await"], Whole w ∧ (nameWord w).kind.isName = true ∧
      (nameWord w).kind ≠ .contextual .kwLet ∧ (nameWord w).kind ≠ .contextual .kwAsync ∧
        w.toList.head? ≠ some 'l' := by
    decide
  obtain ⟨hwhole, hname, hlet, hasync, hhead⟩ := hwords w hw
  have hbegins := Node.beginsName_operator hw
  refine .of_not (hbegins.not_let hhead tail) fun c flaw hnext => ?_
  obtain ⟨hkind, offset, hafter⟩ := next_of_stands (hwhole.stands hbegins hend) hnext
  rw [← hkind] at hname hlet hasync
  refine Cursor.not_beginsOther_of_isName hname hlet hasync fun c' flaw' hnext' => ?_
  rw [hafter] at hnext'
  exact htail.ne_colon hnext'

/-! ### Names -/

/-- What follows a name in an expression statement: a bracket stands there right away or not at
all. -/
lemma Trail.next {tail : List Char} (h : Trail tail) {start : Nat} {c : Cursor} {flaw : Option Flaw}
    (hnext : Cursor.nextAfter false start (tail ++ [';']) = some (c, flaw)) :
    (c.token.kind.isName = false ∧ c.token.kind ≠ .punctuator .openBrace ∧
      c.token.kind ≠ .punctuator .colon ∧ c.token.kind ≠ .reserved .kwFunction) ∧
        (c.token.kind = .punctuator .openBracket → ['['] <+: tail ++ [';']) := by
  cases h with
  | nil =>
    have hread : Cursor.nextAfter false start ([] ++ [';']) = _ :=
      Cursor.nextAfter_word (Word.stands_punctuator_final (p := .semicolon) rfl []) false start
    rw [hread] at hnext
    cases hnext
    exact ⟨⟨rfl, by rintro ⟨⟩, by rintro ⟨⟩, by rintro ⟨⟩⟩, by rintro ⟨⟩⟩
  | @link x rest hx =>
    have hmarked := marked_link hx (rest ++ [';'])
    obtain ⟨hword, hbrace, _⟩ := hmarked.kind hnext
    refine ⟨⟨?_, hbrace, hmarked.solid.ne_colon hnext, ?_⟩, fun hkind => ?_⟩
    · by_contra hname
      rw [TokenKind.isWord_of_isName (eq_true_of_ne_false hname)] at hword
      cases hword
    · intro hkind
      rw [hkind] at hword
      cases hword
    · obtain ⟨l, hread, rfl⟩ := hmarked.solid.exists_read hnext
      obtain ⟨cs, hcs⟩ := Lexeme.begins_of_read_punctuator hread hkind
      obtain rfl : '[' = x := (List.cons.inj hcs).1
      exact ⟨rest ++ [';'], rfl⟩
  | @operator p rest hp =>
    have hread := Cursor.nextAfter_word (Word.stands_punctuator_blank p (rest ++ [';'])) false
      (start + 1)
    rw [List.cons_append, Cursor.nextAfter_blank, List.append_assoc] at hnext
    cases hread.symm.trans hnext
    simp only [List.mem_cons, List.not_mem_nil, or_false, not_or] at hp
    obtain ⟨hbrace, hbracket, hcolon⟩ := hp
    exact ⟨⟨rfl, fun heq => hbrace (TokenKind.punctuator.inj heq),
      fun heq => hcolon (TokenKind.punctuator.inj heq), by rintro ⟨⟩⟩,
      fun heq => absurd (TokenKind.punctuator.inj heq) hbracket⟩
  | @word r rest hr =>
    have hends : EndsName (' ' :: rest ++ [';']) := ⟨by decide, by decide⟩
    have hread := Cursor.nextAfter_word ((Word.isToken_reserved r).stands_of_isWord rfl hends) false
      (start + 1)
    rw [List.cons_append, Cursor.nextAfter_blank, List.append_assoc] at hnext
    cases hread.symm.trans hnext
    exact ⟨⟨rfl, by rintro ⟨⟩, by rintro ⟨⟩, fun heq => hr (TokenKind.reserved.inj heq)⟩,
      by rintro ⟨⟩⟩

/-- A text that begins with `let[` begins with the name `let`. -/
lemma nameRun_let (rest : List Char) : Lexeme.nameRun .parts 0 ("let[".toList ++ rest) =
    some ("let".toList, none, '[' :: rest) := by
  have hwhole : Lexeme.nameRun .parts 0 ("let".toList ++ [';']) = some ("let".toList, none, [';']) := by
    decide
  exact Lexeme.nameRun_append rfl hwhole 0 ⟨by decide, by decide⟩

lemma eq_of_kind_nameWord {w : String} {r : ContextualWord} (h : (nameWord w).kind = .contextual r) :
    w = r.text := by
  rcases TokenKind.ofWord?_cases w with hof | ⟨r', hof, _⟩ | ⟨r', hof, htext⟩ <;>
    rw [nameWord, hof] at h <;> cases h
  exact htext

/-- A name with an end of its own is another statement's beginning only before a bracket, and if it
is `let`. -/
lemma beginsRightly_name {w : String} (hw : IsName w) (hwhole : Whole w) {tail : List Char}
    (htail : Trail tail) : BeginsRightly (w.toList ++ (tail ++ [';'])) := by
  intro c flaw hnext
  have hends : EndsName (tail ++ [';']) := htail.endsName.append IsEnd.semicolon.endsName
  obtain ⟨hkind, offset, hafter⟩ := next_of_stands (hwhole.stands hw.head hends) hnext
  have hname : c.token.kind.isName = true := hkind ▸ hw.isName_kind
  constructor
  · intro hother
    simp only [Cursor.beginsOther, Bool.or_eq_true, Bool.and_eq_true, Cursor.nextIs_eq_true, hafter,
      beq_iff_eq] at hother
    rcases hother with ((hstatement | ⟨_, c', flaw', hnext', hcolon⟩) |
      ⟨hlet, c', flaw', hnext', htarget⟩) | ⟨_, c', flaw', hnext', hfunction, _⟩
    · rw [not_beginsStatement_of_isName hname] at hstatement
      cases hstatement
    · exact absurd hcolon (htail.next hnext').1.2.2.1
    · obtain ⟨⟨hno, hbrace, _⟩, hbracket⟩ := htail.next hnext'
      have hopen : c'.token.kind = .punctuator .openBracket := by
        rcases htarget with (htarget | htarget) | htarget
        · rw [hno] at htarget
          cases htarget
        · exact htarget
        · exact absurd htarget hbrace
      obtain ⟨rest, hrest⟩ := hbracket hopen
      obtain rfl : w = "let" := eq_of_kind_nameWord (hkind.symm.trans hlet)
      rw [← hrest]
      exact ⟨rest, rfl⟩
    · exact absurd hfunction (htail.next hnext').1.2.2.2
  · rintro ⟨rest, hrest⟩
    have hrun := Lexeme.nameRun_append rfl hwhole 0 hends
    rw [← hrest, nameRun_let] at hrun
    simp only [Option.some.injEq, Prod.mk.injEq, true_and] at hrun
    obtain ⟨hlet, hbracket⟩ := hrun
    obtain rfl : "let" = w := String.toList_inj.1 hlet
    have hopen := Cursor.nextAfter_word (Word.stands_punctuator_final (p := .openBracket) rfl rest)
      false offset
    rw [← hbracket] at hafter
    have hnext' := hafter.trans hopen
    have hcontextual : c.token.kind = .contextual .kwLet := hkind
    simp [Cursor.beginsOther, Cursor.nextIs, hnext', hcontextual, Word.punctuator]

/-- A name alone, which may be cut short and then takes in the semicolon. -/
lemma beginsRightly_bareName {w : String} (hw : IsName w) : BeginsRightly (w.toList ++ [';']) := by
  have hread : ∀ start, Lexeme.read start (w.toList ++ [';']) =
      Lexeme.name start (w.toList ++ [';']) := by
    intro start
    obtain ⟨x, xs, htext, hx⟩ := hw.head
    rw [htext]
    exact Lexeme.read_eq_name hx start _
  cases hrun : Lexeme.nameRun .parts 0 (w.toList ++ [';']) with
  | none =>
    intro c flaw hnext
    obtain ⟨l, hl, _⟩ := (hw.head.solid.append [';']).exists_read hnext
    rw [hread, Lexeme.name, hrun] at hl
    cases hl
  | some run =>
    have hbefore := hw.beforeSemicolon 0
    rw [hrun] at hbefore
    cases hbefore with
    | whole => exact beginsRightly_name hw hrun .nil
    | cut =>
      refine .of_not ?_ fun c flaw hnext => ?_
      · rintro ⟨rest, hrest⟩
        rw [← hrest, nameRun_let, hrest] at hrun
        simp at hrun
      · have hnone : TokenKind.ofWord? (String.ofList (w.toList ++ [';'])) = none :=
          Lexeme.ofWord?_of_mem (.inl (by simp))
        obtain ⟨l, hl, rfl⟩ := (hw.head.solid.append [';']).exists_read hnext
        rw [hread, Lexeme.name_of_run hrun, hnone] at hl
        obtain rfl := Option.some.inj hl
        refine Cursor.not_beginsOther_of_isName rfl (by rintro ⟨⟩) (by rintro ⟨⟩) fun c' flaw' hnext' => ?_
        rw [Cursor.kind_of_rest_eq_nil rfl hnext']
        rintro ⟨⟩

/-! ### Expression statements -/

open Node

/-- The name that leads the expression, if one does, has an end of its own or is all there is. -/
def Node.HasWholeLead (e : Node) : Prop :=
  ∀ w, e.lead? = some (identifier w) → Whole w ∨ e.isBareName = true

lemma Node.Headed.hasWholeLead {e : Node} (h : e.Headed) : e.HasWholeLead := by
  intro w hw
  rcases h w hw with rfl | ⟨_, hwhole⟩
  · exact .inl (by decide)
  · exact hwhole

/-- What is known of how the code of an expression opens is enough for a statement. -/
lemma Node.Opens.beginsRightly {e : Node} {text : List Char} (h : Opens e text)
    (he : e.needsParensAsStatement = false)
    (hwhole : ∀ w, e.lead? = some (identifier w) → Whole w) : BeginsRightly (text ++ [';']) := by
  have hsemicolon : Colonless [';'] := .solid (.plain (by decide) (by decide))
  cases h with
  | name hlead hw htail =>
    rw [List.append_assoc]
    exact beginsRightly_name hw (hwhole _ hlead) htail
  | word hr hend =>
    rw [List.append_assoc]
    exact beginsRightly_word hr (hend.append IsEnd.semicolon.endsName)
  | operator hw hend htail =>
    rw [List.append_assoc]
    exact beginsRightly_operator hw (hend.append IsEnd.semicolon.endsName) (htail.append hsemicolon)
  | mark h => exact (h.append [';']).beginsRightly
  | enclosed hneeds _ _ =>
    rw [he] at hneeds
    cases hneeds

/-- A plain name, or one with an update in front of it, as a statement. -/
lemma beginsRightly_of_isBareName {e : Node} (h : e.isBareName = true) (hled : e.WellLed)
    (b : CodeBuffer) : BeginsRightly ((b.written e.steps).toList ++ [';']) := by
  cases e with
  | identifier w =>
    have htext : (b.written (identifier w).steps).toList = w.toList ++ [] :=
      b.toList_written_text w []
    rw [htext, List.append_nil]
    cases hled (identifier w) rfl with
    | name hw => exact beginsRightly_bareName hw
    | new => exact beginsRightly_word (r := .kwNew) (by decide) IsEnd.semicolon.endsName
  | update operator leading argument =>
    cases leading with
    | false => cases h
    | true =>
      have hmarked : Marked (b.written (update operator true argument).steps).toList := by
        cases operator with
        | increment => exact marked_text (s := "++") rfl (by decide) _ b
        | decrement => exact marked_text (s := "--") rfl (by decide) _ b
      exact (hmarked.append [';']).beginsRightly
  | _ => cases h

lemma beginsRightly_expressionStatement {e : Node} (he : e.isExpression = true) (htidy : e.Tidy)
    (hplaced : e.Everywhere fun m => ∃ s, Placed s m) (hled : e.WellLed) (hwhole : e.HasWholeLead)
    (b : CodeBuffer) : BeginsRightly (b.written (expressionStatement e).steps).toList := by
  have hsteps : (expressionStatement e).steps =
    inParensIf e.needsParensAsStatement e.steps ++ [.text ";"] := rfl
  obtain ⟨b', hwritten⟩ := b.exists_written_append (inParensIf e.needsParensAsStatement e.steps)
    [.text ";"]
  have hsemicolon : (b'.written [.text ";"]).toList = [';'] := b'.toList_written_text ";" []
  rw [hsteps, hwritten, hsemicolon]
  cases hparens : e.needsParensAsStatement with
  | true => exact ((marked_inParens e.steps b).append [';']).beginsRightly
  | false =>
    by_cases hbare : e.isBareName = true
    · exact beginsRightly_of_isBareName hbare hled b
    · exact (opens_steps he htidy hplaced hled b).beginsRightly hparens
        fun w hw => (hwhole w hw).resolve_right hbare

/-- A printed expression statement is taken for another statement only if its text begins with
`let[`, and otherwise it is read as an expression statement again, as long as the second token can be
looked at.  So it is in every script that is read.  After it is instrumented, the name that leads the
expression must have an end of its own, or be all of the expression. -/
theorem expressionStatement_begins {text : String} {n : Node} (h : parse text = .ok n) (o : Options)
    {tree : Node} (htree : tree ∈ o.versions n) {e : Node} (he : expressionStatement e ∈ tree.walk)
    (hlead : tree = n ∨ e.HasWholeLead) (b : CodeBuffer) {c : Cursor} {flaw : Option Flaw}
    (hnext : (Cursor.start (b.written (expressionStatement e).steps)).next? = some (c, flaw)) :
    (c.beginsOther = true ↔ "let[".toList <+: (b.written (expressionStatement e).steps).toList) ∧
      (c.beginsOther = false → ∀ g ctx,
        c.next? = none ∨
          Grammar.anyStatement g ctx c = Grammar.expressionStatement g ctx c) := by
  obtain ⟨htidy, hplaced⟩ := tidy_and_placed h o htree he
  have hmem : e ∈ (expressionStatement e).children := by simp [children]
  obtain ⟨s, hled⟩ := hplaced.root
  have hwhole : e.HasWholeLead := by
    rcases hlead with htree | hwhole
    · rw [htree] at he
      have hgenuine : n.Everywhere fun m => ∃ s, Genuine s m :=
        ((genuineIn_of_parse h).mono fun s _ hk => ⟨s, hk⟩).everywhere
      obtain ⟨s, hheaded⟩ := hgenuine _ he
      exact hheaded.hasWholeLead
    · exact hwhole
  have hbegins := beginsRightly_expressionStatement htidy.root (htidy.child hmem)
    (hplaced.child hmem) hled hwhole b
  exact ⟨hbegins c flaw hnext, fun hother g ctx =>
    Grammar.anyStatement_of_not_beginsOther hother g ctx⟩

/-- An expression statement whose expression passes a check. -/
def Node.isStatementWith (check : Node → Bool) : Node → Bool
  | expressionStatement e => check e
  | _ => false

lemma Node.exists_of_isStatementWith {check : Node → Bool} {m : Node}
    (h : m.isStatementWith check = true) : ∃ e, m = expressionStatement e ∧ check e = true := by
  cases m with
  | expressionStatement e => exact ⟨e, rfl, h⟩
  | _ => cases h

/-- The first token of an expression statement, if it can be read. -/
def Node.firstCursor? (e : Node) : Option (Cursor × Option Flaw) :=
  (Cursor.start (CodeBuffer.written ⟨{}, "", 0⟩ (expressionStatement e).steps)).next?

/-- An update of `let` becomes a call that begins with `let.`, which declares nothing. -/
theorem expressionStatement_begins_let :
    ∃ n e c, parse "++let;" = .ok n ∧
      expressionStatement e ∈ (({} : Options).instrumentTree n).1.walk ∧
        e.firstCursor? = some (c, none) ∧ c.token.kind = .contextual .kwLet ∧ ∀ g ctx,
          Grammar.anyStatement g ctx c = Grammar.expressionStatement g ctx c := by
  obtain ⟨n, hparse, hcheck⟩ := exists_of_parse_any
    (show (parse "++let;").toOption.any (fun n => (({} : Options).instrumentTree n).1.walk.any
      (isStatementWith fun e => e.lead?.bind name? == some "let" &&
        CodeBuffer.written ⟨{}, "", 0⟩ (expressionStatement e).steps == "let.set(let.get() + 1);" &&
          e.firstCursor?.any fun reached => reached.2.isNone &&
            reached.1.token.kind == .contextual .kwLet && reached.1.next?.isSome)) = true by
        rw [parse_ofList]
        decide)
  obtain ⟨m, hm, hstatement⟩ := List.any_eq_true.1 hcheck
  obtain ⟨e, rfl, he⟩ := exists_of_isStatementWith hstatement
  simp only [Bool.and_eq_true, beq_iff_eq, Option.any_eq_true, Option.isNone_iff_eq_none] at he
  obtain ⟨⟨hlead, hwritten⟩, ⟨c, flaw⟩, hfirst, ⟨rfl, hkind⟩, hnext⟩ := he
  have hwhole : e.HasWholeLead := by
    intro w hw
    rw [hw] at hlead
    cases hlead
    exact .inl (by decide)
  have htree : (({} : Options).instrumentTree n).1 ∈ ({} : Options).versions n := by
    simp [Options.versions]
  obtain ⟨hother, hrule⟩ := expressionStatement_begins hparse {} htree hm (.inr hwhole) _ hfirst
  have hnot : c.beginsOther = false := by
    rw [← Bool.not_eq_true, hother, hwritten]
    decide
  refine ⟨n, e, c, hparse, hm, hfirst, hkind, fun g ctx => (hrule hnot g ctx).resolve_left fun hnone => ?_⟩
  rw [hnone] at hnext
  cases hnext

/-- The name `let` before an index loses its parentheses and begins a declaration, which cannot be
read. -/
theorem beginsOther_of_let_index :
    ∃ n e c, parse "(let)[0];" = .ok n ∧ expressionStatement e ∈ n.walk ∧
      e.firstCursor? = some (c, none) ∧ c.beginsOther = true ∧ n.code {} = "let[0];\n" ∧
        (parse "let[0];\n").toOption.isNone = true := by
  obtain ⟨n, hparse, hcheck⟩ := exists_of_parse_any
    (show (parse "(let)[0];").toOption.any (fun n => n.code {} == "let[0];\n" &&
      (parse "let[0];\n").toOption.isNone && n.walk.any (isStatementWith fun e =>
        e.firstCursor?.any fun reached => reached.2.isNone && reached.1.beginsOther)) = true by
        decide +kernel)
  simp only [Bool.and_eq_true, beq_iff_eq] at hcheck
  obtain ⟨⟨hcode, hfails⟩, hsome⟩ := hcheck
  obtain ⟨m, hm, hstatement⟩ := List.any_eq_true.1 hsome
  obtain ⟨e, rfl, he⟩ := exists_of_isStatementWith hstatement
  simp only [Option.any_eq_true, Bool.and_eq_true, Option.isNone_iff_eq_none] at he
  obtain ⟨⟨c, flaw⟩, hfirst, rfl, hother⟩ := he
  exact ⟨n, e, c, hparse, hm, hfirst, hother, hcode, hfails⟩

end BindingProxy
