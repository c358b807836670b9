import BindingProxy.Proofs.Code.Spelling
import BindingProxy.Proofs.Proxy.Formed
import BindingProxy.Proofs.Proxy.Scoped
import BindingProxy.Proofs.Proxy.VariableNames
import BindingProxy.Proofs.Token.Openings

/-!
# How the code of an expression opens

The code of an expression begins with that of its leftmost part, or with the parenthesis around it.
`Opens` lists what this comes to: a name that was read, a word of the language, a mark, or one of the
few things that must not stand at the beginning of a statement.  What follows a name is a `Trail`: a
link, or an operator with a blank on either side.

The body of an arrow function is the first use: its code begins with a brace if the body is a block,
and also if it is an assignment to an object pattern, for which the printer puts no parentheses.
-/

namespace BindingProxy

open Lexeme (EndsName)

/-! ### The text that steps write -/

namespace CodeBuffer

/-- The text that steps add to a buffer. -/
def written (b : CodeBuffer) (steps : List CodeStep) : String :=
  (run { b with output := "" } steps).output

/-- What a buffer holds does not matter for what is added to it. -/
lemma run_append_output (b : CodeBuffer) (s : String) (steps : List CodeStep) :
    run { b with output := s ++ b.output } steps =
      { b.run steps with output := s ++ (b.run steps).output } := by
  induction steps generalizing b with
  | nil => rfl
  | cons step steps ih =>
    have hstep : CodeBuffer.step { b with output := s ++ b.output } step =
        { b.step step with output := s ++ (b.step step).output } := by
      cases step <;> simp [CodeBuffer.step, append, indentation, String.append_assoc]
    have hrun := ih (b.step step)
    rw [← hstep] at hrun
    exact hrun

/-- The buffer after some steps holds what they have written after what it held before. -/
lemma output_run (b : CodeBuffer) (steps : List CodeStep) :
    (b.run steps).output = b.output ++ b.written steps := by
  have hrun := run_append_output { b with output := "" } b.output steps
  rw [String.append_empty] at hrun
  exact congrArg CodeBuffer.output hrun

lemma toList_written_text (b : CodeBuffer) (s : String) (steps : List CodeStep) :
    (b.written (.text s :: steps)).toList = s.toList ++ (b.written steps).toList := by
  have hrun := output_run (CodeBuffer.append { b with output := "" } s) steps
  have hwritten : b.written (.text s :: steps) = s ++ b.written steps :=
    hrun.trans (congrArg (· ++ b.written steps) String.empty_append)
  rw [hwritten, String.toList_append]

/-- What follows some steps is written by some buffer. -/
lemma exists_written_append (b : CodeBuffer) (s t : List CodeStep) :
    ∃ b' : CodeBuffer,
      (b.written (s ++ t)).toList = (b.written s).toList ++ (b'.written t).toList := by
  have hrun : run { b with output := "" } (s ++ t) = (run { b with output := "" } s).run t :=
    List.foldl_append
  refine ⟨run { b with output := "" } s, ?_⟩
  rw [written, hrun, output_run, String.toList_append]
  rfl

end CodeBuffer

/-! ### What follows a name -/

/-- What follows a leading name in the code of an expression. -/
inductive Trail : List Char → Prop where
  | nil : Trail []
  | link {c : Char} {rest : List Char} (hc : c ∈ ['.', '?', '[', '(', '\x60', '+', '-']) :
    Trail (c :: rest)
  | operator {p : Punctuator} {rest : List Char}
    (hp : p ∉ [Punctuator.openBrace, .openBracket, .colon]) :
    Trail (' ' :: (p.text.toList ++ ' ' :: rest))
  | word {r : ReservedWord} {rest : List Char} (hr : r ≠ .kwFunction) :
    Trail (' ' :: (r.text.toList ++ ' ' :: rest))

/-- A punctuator before a blank begins no comment. -/
lemma solid_punctuator {p : Punctuator} (hp : p ≠ .colon) (rest : List Char) :
    Solid (p.text.toList ++ ' ' :: rest) := by
  cases p with
  | colon => exact absurd rfl hp
  | slash => exact .slash (by decide)
  | slashAssign => exact .slash (by decide)
  | _ => exact .plain (by decide) (by decide)

lemma beginsName_reserved (r : ReservedWord) : BeginsName r.text := by
  cases r <;> exact ⟨_, _, rfl, by decide⟩

lemma BeginsName.head?_ne {w : String} (h : BeginsName w) (tail : List Char) :
    (w.toList ++ tail).head? ≠ some '\x7b' := by
  obtain ⟨x, xs, hw, hx⟩ := h
  rw [hw, List.cons_append, List.head?_cons]
  rintro ⟨⟩
  revert hx
  decide

namespace Trail

variable {tail tail' : List Char}

lemma append (h : Trail tail) (h' : Trail tail') : Trail (tail ++ tail') := by
  cases h with
  | nil => exact h'
  | link hc => exact .link hc
  | operator hp =>
    rw [List.cons_append, List.append_assoc]
    exact .operator hp
  | word hr =>
    rw [List.cons_append, List.append_assoc]
    exact .word hr

lemma marked_link {c : Char} (hc : c ∈ ['.', '?', '[', '(', '\x60', '+', '-']) (rest : List Char) :
    Marked (c :: rest) := by
  have hall : ∀ d ∈ ['.', '?', '[', '(', '\x60', '+', '-'], isBlank d = false ∧
      isNameStart d = false ∧ d ∉ ['/', '#', ':', '\\', '\x7b', ';'] := by
    simp only [List.forall_mem_cons, List.not_mem_nil, false_implies, implies_true, and_true]
    decide
  obtain ⟨hblank, hname, hother⟩ := hall c hc
  exact .of_char hblank hname hother

lemma endsName (h : Trail tail) : EndsName tail := by
  cases h with
  | nil => trivial
  | link hc =>
    have hall : ∀ d ∈ ['.', '?', '[', '(', '\x60', '+', '-'], isNamePart d = false ∧ d ≠ '\\' := by
      simp only [List.forall_mem_cons, List.not_mem_nil, false_implies, implies_true, and_true]
      decide
    exact hall _ hc
  | operator => exact ⟨by decide, by decide⟩
  | word => exact ⟨by decide, by decide⟩

lemma colonless (h : Trail tail) : Colonless tail := by
  cases h with
  | nil => exact .nil
  | link hc => exact .solid (marked_link hc _).solid
  | operator hp =>
    refine .blank (solid_punctuator ?_ _)
    rintro rfl
    exact hp (by decide)
  | word hr => exact .blank ((beginsName_reserved _).solid.append _)

end Trail

/-- An infix operator with a blank on either side. -/
lemma InfixOperator.trail (operator : InfixOperator) (rest : List Char) :
    Trail (' ' :: (operator.text.toList ++ ' ' :: rest)) := by
  have hword : (∃ p ∉ [Punctuator.openBrace, .openBracket, .colon],
      operator.word = Word.punctuator p) ∨ ∃ r ≠ ReservedWord.kwFunction,
        operator.word = Word.reserved r := by
    rcases operator with operator | operator <;> cases operator <;>
      first | exact .inl ⟨_, by decide, rfl⟩ | exact .inr ⟨_, by decide, rfl⟩
  rw [← operator.text_word]
  rcases hword with ⟨p, hp, hword⟩ | ⟨r, hr, hword⟩ <;> rw [hword]
  · exact .operator hp
  · exact .word hr

/-- An assignment operator with a blank on either side. -/
lemma AssignmentOperator.trail (operator : AssignmentOperator) (rest : List Char) :
    Trail (' ' :: (operator.text.toList ++ ' ' :: rest)) := by
  have hword : ∃ p ∉ [Punctuator.openBrace, .openBracket, .colon],
      operator.word = Word.punctuator p := by
    cases operator <;> exact ⟨_, by decide, rfl⟩
  obtain ⟨p, hp, hword⟩ := hword
  rw [← operator.text_word, hword]
  exact .operator hp

/-! ### What the code of an expression begins with -/

namespace Node

/-- An object literal or an assignment to an object pattern, which begins like a block. -/
def isBraced : Node → Bool
  | object _ => true
  | assignment _ (objectPattern _) _ => true
  | _ => false

/-- The reserved words that begin an expression which needs no parentheses as a statement. -/
def leadingWords : List ReservedWord :=
  [.kwThis, .kwSuper, .kwNew, .kwTypeof, .kwVoid, .kwDelete, .kwNull, .kwTrue, .kwFalse]

/-- What a text begins with that is the code of an expression. -/
inductive Opens (e : Node) : List Char → Prop where
  | name {w : String} {tail : List Char} (hlead : e.lead? = some (identifier w)) (hw : IsName w)
    (htail : Trail tail) : Opens e (w.toList ++ tail)
  | word {r : ReservedWord} {tail : List Char} (hr : r ∈ leadingWords) (htail : EndsName tail) :
    Opens e (r.text.toList ++ tail)
  /-- The words `yield` and `await`, which are names elsewhere. -/
  | operator {w : String} {tail : List Char} (hw : w ∈ ["yield", "await"]) (hend : EndsName tail)
    (htail : Colonless tail) : Opens e (w.toList ++ tail)
  | mark {text : List Char} (h : Marked text) : Opens e text
  | enclosed {text : List Char} (he : e.needsParensAsStatement = true) (h : Solid text)
    (hbrace : text.head? = some '\x7b' → e.isBraced = true) : Opens e text

lemma beginsName_operator {w : String} (hw : w ∈ ["yield", "await"]) : BeginsName w := by
  simp only [List.mem_cons, List.not_mem_nil, or_false] at hw
  rcases hw with rfl | rfl
  · exact ⟨'y', "ield".toList, rfl, by decide⟩
  · exact ⟨'a', "wait".toList, rfl, by decide⟩

namespace Opens

variable {e : Node} {text : List Char}

lemma solid (h : Opens e text) : Solid text := by
  cases h with
  | name _ hw _ => exact hw.head.solid.append _
  | word _ _ => exact (beginsName_reserved _).solid.append _
  | operator hw _ _ => exact (beginsName_operator hw).solid.append _
  | mark h => exact h.solid
  | enclosed _ h _ => exact h

/-- Only what begins like a block begins with a brace. -/
lemma isBraced (h : Opens e text) (hhead : text.head? = some '\x7b') : e.isBraced = true := by
  cases h with
  | name _ hw _ => exact absurd hhead (hw.head.head?_ne _)
  | word _ _ => exact absurd hhead ((beginsName_reserved _).head?_ne _)
  | operator hw _ _ => exact absurd hhead ((beginsName_operator hw).head?_ne _)
  | mark h =>
    obtain ⟨rest, rfl⟩ := List.head?_eq_some_iff.1 hhead
    exact absurd rfl (h.head _ _ rfl).2.2.1
  | enclosed _ _ hbrace => exact hbrace hhead

/-- What begins with the code of a part begins as the part does. -/
lemma follow {n : Node} {tail : List Char} (h : Opens e text)
    (he : e.needsParensAsStatement = false) (hlead : n.lead? = e.lead?) (htail : Trail tail) :
    Opens n (text ++ tail) := by
  cases h with
  | name hname hw htrail =>
    rw [List.append_assoc]
    exact .name (hlead.trans hname) hw (htrail.append htail)
  | word hr hend =>
    rw [List.append_assoc]
    exact .word hr (hend.append htail.endsName)
  | operator hw hend hcolonless =>
    rw [List.append_assoc]
    exact .operator hw (hend.append htail.endsName) (hcolonless.append htail.colonless)
  | mark h => exact .mark (h.append tail)
  | enclosed hneeds _ _ =>
    rw [he] at hneeds
    cases hneeds

end Opens

/-! ### Texts of pieces of layout -/

lemma solid_text {s : String} {c : Char} {cs : List Char} (hs : s.toList = c :: cs)
    (hblank : isBlank c = false) (hother : c ≠ '/' ∧ c ≠ '#' ∧ c ≠ ':') (t : List CodeStep)
    (b : CodeBuffer) : Solid (b.written (.text s :: t)).toList := by
  rw [b.toList_written_text, hs]
  exact .plain hblank hother

lemma marked_text {s : String} {c : Char} {cs : List Char} (hs : s.toList = c :: cs)
    (hc : c ∈ ['(', '[', '+', '-', '!', '~', '\x60']) (t : List CodeStep) (b : CodeBuffer) :
    Marked (b.written (.text s :: t)).toList := by
  have hmark : isBlank c = false ∧ isNameStart c = false ∧
      c ∉ ['/', '#', ':', '\\', '\x7b', ';'] := by
    simp only [List.mem_cons, List.not_mem_nil, or_false] at hc
    rcases hc with rfl | rfl | rfl | rfl | rfl | rfl | rfl <;> decide
  obtain ⟨hblank, hname, hother⟩ := hmark
  rw [b.toList_written_text, hs]
  exact .of_char hblank hname hother

/-- Steps in parentheses begin with one. -/
lemma marked_inParens (steps : List CodeStep) (b : CodeBuffer) :
    Marked (b.written (inParens steps)).toList :=
  marked_text (s := "(") rfl (by decide) _ b

lemma trail_text {s : String} {c : Char} {cs : List Char} (hs : s.toList = c :: cs)
    (hc : c ∈ ['.', '?', '[', '(', '\x60', '+', '-']) (t : List CodeStep) (b : CodeBuffer) :
    Trail (b.written (.text s :: t)).toList := by
  rw [b.toList_written_text, hs]
  exact .link hc

/-- An operator of which it is known how it goes on after a name. -/
lemma trail_infixSteps {operator : String}
    (h : ∀ rest, Trail (' ' :: (operator.toList ++ ' ' :: rest))) (right : List CodeStep)
    (b : CodeBuffer) : Trail (b.written (.text " " :: .text operator :: .text " " :: right)).toList := by
  rw [b.toList_written_text, b.toList_written_text, b.toList_written_text]
  exact h _

/-! ### Parentheses around the leftmost part -/

variable {n : Node}

/-- A place that puts what is enclosed in parentheses, and assignments too. -/
lemma needsParensAsStatement_of_or {weak : Bool}
    (h : (n.tightness == .enclosed || weak) = false)
    (hweak : n.tightness = .assignment → weak = true) : n.needsParensAsStatement = false := by
  obtain ⟨htight, hrank⟩ := Bool.or_eq_false_iff.1 h
  unfold needsParensAsStatement
  rw [htight, Bool.false_or]
  split
  · exact absurd (hweak rfl) (Bool.eq_false_iff.1 hrank)
  · rfl

lemma needsParensAsStatement_of_owner (h : n.needsParensAsOwner = false) :
    n.needsParensAsStatement = false :=
  needsParensAsStatement_of_or h fun hassignment => by rw [hassignment]; rfl

lemma needsParensAsStatement_of_test (h : n.needsParensAsTest = false) :
    n.needsParensAsStatement = false :=
  needsParensAsStatement_of_or h fun hassignment => by rw [hassignment]; rfl

lemma needsParensAsStatement_of_isPlace (h : n.isPlace = true) :
    n.needsParensAsStatement = false := by
  cases n with
  | identifier => rfl
  | member => rfl
  | _ => cases h

lemma isExpression_of_isPlace (h : n.isPlace = true) : n.isExpression = true := by
  cases n with
  | identifier => rfl
  | member => rfl
  | _ => cases h

/-- An operand of an infix operator. -/
lemma needsParensAsStatement_of_operand {n outer : Node} (houter : outer.infixOperator?.isSome = true)
    (h : n.needsParens outer .left = false) : n.needsParensAsStatement = false := by
  cases n with
  | assignment =>
    cases outer with
    | binary => cases h
    | logical => cases h
    | _ => cases houter
  | arrow => cases h
  | object => cases h
  | function role =>
    cases role with
    | expression => cases h
    | declaration => rfl
  | classDefinition role =>
    cases role with
    | expression => cases h
    | declaration => rfl
  | _ => rfl

/-- What begins with its front, maybe in parentheses. -/
lemma opens_front {n front : Node} {paren : Bool} {rest : List CodeStep}
    (hfront : n.front? = some front) (hsteps : n.steps = inParensIf paren front.steps ++ rest)
    (hrest : ∀ b : CodeBuffer, Trail (b.written rest).toList)
    (hparen : paren = false → front.needsParensAsStatement = false)
    (hopens : ∀ b : CodeBuffer, Opens front (b.written front.steps).toList) (b : CodeBuffer) :
    Opens n (b.written n.steps).toList := by
  obtain ⟨b', hwritten⟩ := b.exists_written_append (inParensIf paren front.steps) rest
  rw [hsteps, hwritten]
  cases paren with
  | true => exact .mark ((marked_inParens front.steps b).append _)
  | false => exact (hopens b).follow (hparen rfl) (lead?_of_front? hfront) (hrest b')

/-- An expression that begins with a front. -/
lemma opens_of_front {e front : Node} (hfits : e.fits true = true) (hfront : e.front? = some front)
    (ih : front.isExpression = true → ∀ b : CodeBuffer, Opens front (b.written front.steps).toList)
    (b : CodeBuffer) : Opens e (b.written e.steps).toList := by
  cases e with
  | member owner key computed optional =>
    obtain rfl : owner = front := Option.some.inj hfront
    refine opens_front hfront rfl (fun b => ?_) needsParensAsStatement_of_owner
      (ih (Bool.and_eq_true_iff.1 hfits).1) b
    cases computed <;> cases optional <;> exact trail_text rfl (by decide) _ b
  | call callee arguments optional =>
    obtain rfl : callee = front := Option.some.inj hfront
    refine opens_front hfront (List.append_assoc _ _ _) (fun b => ?_) needsParensAsStatement_of_owner
      (ih (Bool.and_eq_true_iff.1 hfits).1) b
    cases optional <;> exact trail_text rfl (by decide) _ b
  | taggedTemplate tag quasi =>
    obtain rfl : tag = front := Option.some.inj hfront
    obtain ⟨htag, hquasi⟩ := Bool.and_eq_true_iff.1 hfits
    refine opens_front hfront rfl (fun b => ?_) needsParensAsStatement_of_owner (ih htag) b
    cases quasi with
    | template quasis expressions => exact trail_text rfl (by decide) _ b
    | _ => cases hquasi
  | binary operator left right =>
    obtain rfl : left = front := Option.some.inj hfront
    have hleft := ih (Bool.and_eq_true_iff.1 hfits).1
    by_cases hin : operator = .isIn
    · subst hin
      exact .mark (marked_inParens _ b)
    · have hsteps : (binary operator left right).steps = infixSteps (inParensIf (left.needsParens
          (binary operator left right) .left) left.steps) operator.text (inParensIf
            (right.needsParens (binary operator left right) .right) right.steps) := by
        cases operator <;> first | rfl | exact absurd rfl hin
      exact opens_front hfront hsteps (trail_infixSteps (InfixOperator.binary operator).trail _)
        (needsParensAsStatement_of_operand rfl) hleft b
  | logical operator left right =>
    obtain rfl : left = front := Option.some.inj hfront
    exact opens_front hfront rfl (trail_infixSteps (InfixOperator.logical operator).trail _)
      (needsParensAsStatement_of_operand rfl) (ih (Bool.and_eq_true_iff.1 hfits).1) b
  | assignment operator left right =>
    obtain rfl : left = front := Option.some.inj hfront
    have htarget : left.isTarget = true := by
      have hleft := (Bool.and_eq_true_iff.1 hfits).1
      split at hleft
      · exact hleft
      · exact Bool.or_eq_true_iff.2 (.inl hleft)
    rcases Bool.or_eq_true_iff.1 htarget with hplace | hpattern
    · have hsteps : (assignment operator left right).steps =
        inParensIf false left.steps ++ .text " " :: .text operator.text :: .text " " :: right.steps := rfl
      exact opens_front hfront hsteps (trail_infixSteps operator.trail _)
        (fun _ => needsParensAsStatement_of_isPlace hplace) (ih (isExpression_of_isPlace hplace)) b
    · -- A pattern begins with its own bracket or brace.
      cases left with
      | arrayPattern elements =>
        exact .mark (marked_text (s := "[") rfl (by decide) _ b)
      | objectPattern members =>
        exact .enclosed rfl (solid_text (s := "\x7b") rfl (by decide) (by decide) _ b) fun _ => rfl
      | _ => cases hpattern
  | conditional test consequent alternate =>
    obtain rfl : test = front := Option.some.inj hfront
    have htest := (Bool.and_eq_true_iff.1 (Bool.and_eq_true_iff.1 hfits).1).1
    refine opens_front hfront (List.append_assoc _ _ _) (fun b => ?_) needsParensAsStatement_of_test
      (ih htest) b
    rw [List.cons_append, b.toList_written_text]
    exact .operator (p := .question) (by decide)
  | update operator leading argument =>
    cases leading with
    | true => cases hfront
    | false =>
      obtain rfl : argument = front := Option.some.inj hfront
      have hsteps : (update operator false argument).steps =
        inParensIf false argument.steps ++ [.text operator.text] := rfl
      refine opens_front hfront hsteps (fun b => ?_)
        (fun _ => needsParensAsStatement_of_isPlace hfits) (ih (isExpression_of_isPlace hfits)) b
      cases operator <;> exact trail_text rfl (by decide) _ b
  | _ => cases hfront

/-! ### Expressions without a front -/

/-- Functions, classes and names begin with a letter or what counts as one. -/
lemma opens_enclosed {e : Node} {s : String} (he : e.needsParensAsStatement = true)
    (hs : BeginsName s) {t : List CodeStep} {b : CodeBuffer} :
    Opens e (b.written (.text s :: t)).toList := by
  rw [b.toList_written_text]
  exact .enclosed he (hs.solid.append _) fun hhead => absurd hhead (hs.head?_ne _)

lemma endsName_blank (t : List CodeStep) (b : CodeBuffer) :
    EndsName (b.written (.text " " :: t)).toList := by
  rw [b.toList_written_text]
  exact ⟨by decide, by decide⟩

lemma opens_word {e : Node} (r : ReservedWord) (hr : r ∈ leadingWords) {t : List CodeStep}
    {b : CodeBuffer} (hend : EndsName (b.written t).toList) :
    Opens e (b.written (.text r.text :: t)).toList := by
  rw [b.toList_written_text]
  exact .word hr hend

lemma opens_object {e : Node} (he : e.needsParensAsStatement = true) (hbrace : e.isBraced = true)
    (members : List (List CodeStep)) (b : CodeBuffer) :
    Opens e (b.written (objectBody members)).toList := by
  refine .enclosed he ?_ fun _ => hbrace
  cases members with
  | nil => exact solid_text (s := "\x7b\x7d") rfl (by decide) (by decide) _ b
  | cons => exact solid_text (s := "\x7b") rfl (by decide) (by decide) _ b

lemma opens_unary (operator : UnaryOperator) (argument : Node) (b : CodeBuffer) :
    Opens (unary operator argument) (b.written (unary operator argument).steps).toList := by
  cases operator with
  | typeof => exact opens_word .kwTypeof (by decide) (endsName_blank _ b)
  | void => exact opens_word .kwVoid (by decide) (endsName_blank _ b)
  | delete => exact opens_word .kwDelete (by decide) (endsName_blank _ b)
  | minus => exact .mark (marked_text (s := "-") rfl (by decide) _ b)
  | plus => exact .mark (marked_text (s := "+") rfl (by decide) _ b)
  | not => exact .mark (marked_text (s := "!") rfl (by decide) _ b)
  | bitNot => exact .mark (marked_text (s := "~") rfl (by decide) _ b)

/-- The word `yield` stands alone, before a star or before its argument. -/
lemma opens_yielding {argument : Option Node} (delegate : Bool)
    (h : ∀ e ∈ argument, ∀ b : CodeBuffer, Solid (b.written e.steps).toList) (b : CodeBuffer) :
    Opens (yielding argument delegate) (b.written (yielding argument delegate).steps).toList := by
  have hyield : "yield" ∈ ["yield", "await"] := by decide
  cases delegate with
  | true =>
    have hsteps : (yielding argument true).steps =
      .text "yield*" :: afterSpace (stepsOption argument) := rfl
    have hstar : ∀ rest, Opens (yielding argument true) ("yield".toList ++ '*' :: rest) := fun rest =>
      .operator hyield ⟨by decide, by decide⟩ (.solid (.plain (by decide) (by decide)))
    rw [hsteps, b.toList_written_text]
    exact hstar _
  | false =>
    have hsteps : (yielding argument false).steps =
      .text "yield" :: afterSpace (stepsOption argument) := rfl
    rw [hsteps, b.toList_written_text]
    cases argument with
    | none => exact .operator hyield trivial .nil
    | some e =>
      have hblank : (b.written (.text " " :: e.steps)).toList = ' ' :: (b.written e.steps).toList :=
        b.toList_written_text " " e.steps
      refine .operator hyield (endsName_blank _ b) ?_
      exact hblank ▸ .blank (h e rfl b)

/-- The word `await` stands before its argument. -/
lemma opens_awaiting {argument : Node}
    (h : ∀ b : CodeBuffer, Solid (b.written argument.steps).toList) (b : CodeBuffer) :
    Opens (awaiting argument) (b.written (awaiting argument).steps).toList := by
  have hsteps : (awaiting argument).steps = .text "await " ::
    inParensIf (argument.needsParens (.awaiting argument) .left) argument.steps := rfl
  have hsolid : Solid (b.written (inParensIf (argument.needsParens (.awaiting argument) .left)
      argument.steps)).toList := by
    unfold inParensIf
    split
    · exact (marked_inParens _ b).solid
    · exact h b
  rw [hsteps, b.toList_written_text]
  exact .operator (w := "await") (by decide) ⟨by decide, by decide⟩ (.blank hsolid)

/-- The parameters of an arrow function. -/
def arrowParams : List Node → List CodeStep
  | [identifier name] => [.text name]
  | params => listInParens (stepsEach params)

/-- What stands before the arrow. -/
def arrowHead (params : List Node) (isAsync : Bool) : List CodeStep :=
  (if isAsync then [CodeStep.text "async "] else []) ++ arrowParams params

/-- What stands after the arrow. -/
def arrowBody : Node → List CodeStep
  | object properties => inParens (objectBody (stepsEach properties))
  | body => body.steps

lemma steps_arrow (params : List Node) (body : Node) (concise isAsync : Bool) :
    (arrow params body concise isAsync).steps =
      arrowHead params isAsync ++ .text " => " :: arrowBody body := by
  rw [steps.eq_def]
  rfl

lemma opens_arrow {params : List Node} {body : Node} {concise isAsync : Bool}
    (h : ∀ w, params = [identifier w] → BeginsName w) (b : CodeBuffer) :
    Opens (arrow params body concise isAsync)
      (b.written (arrow params body concise isAsync).steps).toList := by
  rw [steps_arrow]
  cases isAsync with
  | true => exact opens_enclosed (s := "async ") rfl ⟨'a', "sync ".toList, rfl, by decide⟩
  | false =>
    by_cases hname : ∃ w, params = [identifier w]
    · obtain ⟨w, rfl⟩ := hname
      exact opens_enclosed rfl (h w rfl)
    · have hparams : arrowHead params false = listInParens (stepsEach params) :=
        arrowParams.eq_2 params fun w hw => hname ⟨w, hw⟩
      obtain ⟨b', hwritten⟩ := b.exists_written_append (arrowHead params false)
        (.text " => " :: arrowBody body)
      rw [hwritten, hparams]
      exact .mark ((marked_inParens _ b).append _)

/-- An expression that begins with no other part. -/
lemma opens_of_no_front {e : Node} (he : e.isExpression = true) (hfront : e.front? = none)
    (hplaced : ∃ s, Placed s e) (hled : e.WellLed)
    (h : ∀ c ∈ e.children, c.isExpression = true → c.WellLed →
      ∀ b : CodeBuffer, Solid (b.written c.steps).toList)
    (hfits : e.fits true = true) (b : CodeBuffer) : Opens e (b.written e.steps).toList := by
  obtain ⟨s, hplaced⟩ := hplaced
  cases e with
  | identifier w =>
    have htext : (b.written (identifier w).steps).toList = w.toList ++ [] :=
      b.toList_written_text w []
    rw [htext]
    cases hled (identifier w) rfl with
    | name hw => exact .name rfl hw .nil
    | new => exact .word (r := .kwNew) (by decide) trivial
  | literal kind raw =>
    have htext : (b.written (literal kind raw).steps).toList = raw.toList ++ [] :=
      b.toList_written_text raw []
    rw [htext]
    cases hled (literal kind raw) rfl with
    | literal hraw =>
      rcases hraw.opens with ⟨r, hr, rfl⟩ | hmarked
      · have hwords : ∀ r ∈ [ReservedWord.kwNull, .kwTrue, .kwFalse], r ∈ leadingWords := by decide
        exact .word (hwords r hr) trivial
      · exact .mark (hmarked.append [])
  | template quasis expressions =>
    exact .mark (marked_text (s := "\x60") rfl (by decide) _ b)
  | thisValue => exact opens_word .kwThis (by decide) trivial
  | superValue => exact opens_word .kwSuper (by decide) trivial
  | array elements => exact .mark (marked_text (s := "[") rfl (by decide) _ b)
  | object properties => exact opens_object rfl rfl _ b
  | function role id params body isAsync isGenerator =>
    cases role with
    | declaration => cases he
    | expression =>
      cases isAsync with
      | true => exact opens_enclosed (s := "async ") rfl ⟨'a', "sync ".toList, rfl, by decide⟩
      | false =>
        cases isGenerator with
        | true => exact opens_enclosed (s := "function* ") rfl ⟨'f', "unction* ".toList, rfl, by decide⟩
        | false => exact opens_enclosed (s := "function ") rfl ⟨'f', "unction ".toList, rfl, by decide⟩
  | classDefinition role id superClass body =>
    cases role with
    | declaration => cases he
    | expression =>
      have hsteps : ∃ t, (classDefinition .expression id superClass body).steps =
          .text "class " :: t := by
        cases id <;> cases superClass <;> exact ⟨_, rfl⟩
      obtain ⟨t, hsteps⟩ := hsteps
      rw [hsteps]
      exact opens_enclosed rfl ⟨'c', "lass ".toList, rfl, by decide⟩
  | arrow params body concise isAsync => exact opens_arrow hplaced.2 b
  | unary operator argument => exact opens_unary operator argument b
  | update operator leading argument =>
    cases leading with
    | false => cases hfront
    | true =>
      cases operator with
      | increment => exact .mark (marked_text (s := "++") rfl (by decide) _ b)
      | decrement => exact .mark (marked_text (s := "--") rfl (by decide) _ b)
  | construction callee arguments =>
    have hnew : ∀ rest, Opens (construction callee arguments) ("new".toList ++ ' ' :: rest) :=
      fun rest => .word (r := .kwNew) (by decide) ⟨by decide, by decide⟩
    have htext := b.toList_written_text "new " (inParensIf (callee.needsParensAsOwner ||
      callee.hasCallOnSpine) callee.steps ++ listInParens (stepsEach arguments))
    exact htext ▸ hnew _
  | sequence expressions => exact .mark (marked_inParens _ b)
  | yielding argument delegate =>
    refine opens_yielding delegate (fun e he => ?_) b
    cases he
    have hexpression := (Bool.and_eq_true_iff.1 hfits).1
    exact h e (by simp [children]) hexpression (hplaced.2 e rfl)
  | awaiting argument => exact opens_awaiting (h argument (by simp [children]) hfits hplaced.2) b
  | _ => first | exact absurd he Bool.false_ne_true | cases hfront

/-- The code of an expression opens as its leftmost part does. -/
lemma opens_steps {e : Node} (he : e.isExpression = true) (htidy : e.Tidy)
    (hplaced : e.Everywhere fun m => ∃ s, Placed s m) (hled : e.WellLed) (b : CodeBuffer) :
    Opens e (b.written e.steps).toList := by
  induction e using induction_on_children generalizing b with
  | step e ih =>
    have hfits : e.fits true = true := htidy.root
    cases hfront : e.front? with
    | some front =>
      have hmem := mem_children_of_front? hfront
      have hlead : front.WellLed := fun leaf hleaf => hled leaf ((lead?_of_front? hfront).trans hleaf)
      exact opens_of_front hfits hfront
        (fun hexpression => ih front hmem hexpression (htidy.child hmem) (hplaced.child hmem) hlead) b
    | none =>
      refine opens_of_no_front he hfront hplaced.root hled (fun c hc hexpression hlead b => ?_) hfits b
      exact (ih c hc hexpression (htidy.child hc) (hplaced.child hc) hlead b).solid

end Node

open Node

/-! ### Scripts and what instrumenting makes of them -/

/-- Every node of a script, as it is read and as it is instrumented, has in its places what may stand
there, and stands in some scope where it should. -/
lemma tidy_and_placed {text : String} {n : Node} (h : parse text = .ok n) (o : Options) {tree : Node}
    (htree : tree ∈ o.versions n) {m : Node} (hm : m ∈ tree.walk) :
    m.Tidy ∧ m.Everywhere fun k => ∃ s, Placed s k := by
  obtain ⟨⟨body, hbody⟩, htidy⟩ := tidy_of_parse h
  have hformed : n.Formed true := ⟨by rw [hbody]; rfl, htidy⟩
  have htree' : tree.Tidy := by
    simp only [Options.versions, List.mem_cons, List.not_mem_nil, or_false] at htree
    rcases htree with rfl | rfl
    · exact htidy
    · exact (ProxyNames.formedAs_instrumentTree o hformed).formed.fit
  have hplaced : tree.Everywhere fun k => ∃ s, Placed s k :=
    ((placedIn_versions h o tree htree).mono fun s _ hk => ⟨s, hk⟩).everywhere
  exact ⟨fun k hk => htree' k (walk_subset_of_mem hm hk),
    fun k hk => hplaced k (walk_subset_of_mem hm hk)⟩

/-! ### Bodies of arrow functions -/

lemma head?_written_text (b : CodeBuffer) {s : String} {c : Char} {cs : List Char}
    (hs : s.toList = c :: cs) (t : List CodeStep) :
    (b.written (.text s :: t)).toList.head? = some c := by
  rw [b.toList_written_text, hs, List.cons_append, List.head?_cons]

/-- A block begins with a brace. -/
lemma head?_written_block (body : List Node) (b : CodeBuffer) :
    (b.written (block body).steps).toList.head? = some '\x7b' := by
  cases body with
  | nil => exact head?_written_text b (s := "\x7b") rfl _
  | cons => exact head?_written_text b (s := "\x7b") rfl _

/-- The code after the arrow of an arrow function begins with a brace if the body is a block, and
otherwise only if it is an assignment to an object pattern.  So it is in every script that is read,
and after it is instrumented. -/
theorem arrowBody_opens_brace_iff {text : String} {n : Node} (h : parse text = .ok n) (o : Options)
    {tree : Node} (htree : tree ∈ o.versions n) {params : List Node} {body : Node}
    {concise isAsync : Bool} (harrow : arrow params body concise isAsync ∈ tree.walk)
    (b : CodeBuffer) :
    (arrow params body concise isAsync).steps =
        arrowHead params isAsync ++ .text " => " :: arrowBody body ∧
      ((b.written (arrowBody body)).toList.head? = some '\x7b' ↔
        body.isBlock = true ∨
          ∃ operator members right, body = assignment operator (objectPattern members) right) := by
  obtain ⟨htidy, hplaced⟩ := tidy_and_placed h o htree harrow
  obtain ⟨s, hled, _⟩ := hplaced.root
  have hmem : body ∈ (arrow params body concise isAsync).children := by simp [children]
  refine ⟨steps_arrow params body concise isAsync, fun hhead => ?_, ?_⟩
  · by_cases hblock : body.isBlock = true
    · exact .inl hblock
    have hexpression : body.isExpression = true := by
      have hfits := (Bool.and_eq_true_iff.1 htidy.root).2
      split at hfits
      · exact hfits
      · exact absurd hfits hblock
    have hopens := opens_steps hexpression (htidy.child hmem) (hplaced.child hmem) hled b
    cases body with
    | object members =>
      obtain ⟨rest, hrest⟩ := List.head?_eq_some_iff.1 hhead
      exact absurd rfl ((marked_inParens _ b).head _ _ hrest).2.2.1
    | assignment operator left right =>
      cases left with
      | objectPattern members => exact .inr ⟨operator, members, right, rfl⟩
      | _ => cases hopens.isBraced hhead
    | _ => cases hopens.isBraced hhead
  · rintro (hblock | ⟨operator, members, right, rfl⟩)
    · cases body with
      | block body => exact head?_written_block body b
      | _ => cases hblock
    · exact head?_written_text b (s := "\x7b") rfl _

/-- An arrow function whose body passes a check. -/
def Node.isArrowWith (check : Node → Bool) : Node → Bool
  | arrow _ body _ _ => check body
  | _ => false

lemma Node.exists_of_isArrowWith {check : Node → Bool} {m : Node} (h : m.isArrowWith check = true) :
    ∃ params body concise isAsync, m = arrow params body concise isAsync ∧ check body = true := by
  cases m with
  | arrow params body concise isAsync => exact ⟨params, body, concise, isAsync, rfl, h⟩
  | _ => cases h

/-- In `f = x => ({})`, which becomes an argument, the object literal keeps its parentheses. -/
theorem arrowBody_opens_brace_iff_object :
    ∃ n params body concise isAsync, parse "f = x => (\x7b\x7d);" = .ok n ∧
      arrow params body concise isAsync ∈ (({} : Options).instrumentTree n).1.walk ∧
        body.kind = .object ∧
          (CodeBuffer.written ⟨{}, "", 0⟩ (arrowBody body)).toList.head? ≠ some '\x7b' := by
  obtain ⟨n, hparse, hcheck⟩ := exists_of_parse_any
    (show (parse "f = x => (\x7b\x7d);").toOption.any (fun n =>
      (({} : Options).instrumentTree n).1.walk.any (isArrowWith (·.kind == .object))) = true by
        decide +kernel)
  obtain ⟨m, hm, harrow⟩ := List.any_eq_true.1 hcheck
  obtain ⟨params, body, concise, isAsync, rfl, hbody⟩ := exists_of_isArrowWith harrow
  have hbody : body.kind = .object := beq_iff_eq.1 hbody
  have htree : (({} : Options).instrumentTree n).1 ∈ ({} : Options).versions n := by
    simp [Options.versions]
  have hiff := (arrowBody_opens_brace_iff hparse {} htree hm ⟨{}, "", 0⟩).2
  refine ⟨n, params, body, concise, isAsync, hparse, hm, hbody, fun hhead => ?_⟩
  rcases hiff.1 hhead with hblock | ⟨_, _, _, rfl⟩
  · cases body with
    | block => cases hbody
    | _ => cases hblock
  · cases hbody

/-- An assignment to an object pattern stands after an arrow as if it were a block. -/
theorem arrowBody_opens_brace_of_pattern :
    ∃ n params body concise isAsync, parse "x => (\x7ba\x7d = y);" = .ok n ∧
      arrow params body concise isAsync ∈ n.walk ∧ body.isBlock = false ∧
        (CodeBuffer.written ⟨{}, "", 0⟩ (arrowBody body)).toList.head? = some '\x7b' ∧
          n.code {} = "(x => \x7ba\x7d = y);\n" := by
  obtain ⟨n, hparse, hcheck⟩ := exists_of_parse_any
    (show (parse "x => (\x7ba\x7d = y);").toOption.any (fun n =>
      n.code {} == "(x => \x7ba\x7d = y);\n" && n.walk.any (isArrowWith fun body =>
        !body.isBlock && (CodeBuffer.written ⟨{}, "", 0⟩ (arrowBody body)).toList.head? ==
          some '\x7b')) = true by decide +kernel)
  obtain ⟨hcode, hsome⟩ := Bool.and_eq_true_iff.1 hcheck
  obtain ⟨m, hm, harrow⟩ := List.any_eq_true.1 hsome
  obtain ⟨params, body, concise, isAsync, rfl, hbody⟩ := exists_of_isArrowWith harrow
  obtain ⟨hblock, hhead⟩ := Bool.and_eq_true_iff.1 hbody
  exact ⟨n, params, body, concise, isAsync, hparse, hm, by simpa using hblock, beq_iff_eq.1 hhead,
    beq_iff_eq.1 hcode⟩

end BindingProxy
