import BindingProxy.Proofs.Grammar.Statements

/-!
# Printed scripts

A plain script is printed as lines of words that can be told apart, and its words are read back as
the same script.
-/

namespace BindingProxy

open Word

/-- The code of a script: the pieces of its statements, each on a line of its own. -/
lemma toList_code_program {s : Node} {body : List Node}
    (h : ∀ t ∈ s :: body, Plain .statement t) :
    ((Node.program (s :: body)).code {}).toList =
      charsOf (s.pieces 0 ++ newLines 0 (Node.piecesEach body 0)) ++ ['\n'] := by
  have hspells : List.Forall₂ (SpellsAt 0) (Node.stepsEach (s :: body))
      (Node.piecesEach (s :: body) 0) :=
    SpellsAt.each fun t ht => (h t ht).isSpelled 0
  have hrun := SpellsAt.endedLines (SpellsAt.ownLines hspells) ⟨{}, "", 0⟩ rfl rfl
  have hlines := newLines_append 0 (Node.piecesEach (s :: body) 0)
  have hpieces : (Node.piecesEach (s :: body) 0).flatMap
      (fun ps => indentation 0 ++ (ps ++ [.lineBreak])) =
        s.pieces 0 ++ newLines 0 (Node.piecesEach body 0) ++ [.lineBreak] :=
    (List.cons.inj hlines).2.symm
  have hcode : (Node.program (s :: body)).code {} =
      (CodeBuffer.run ⟨{}, "", 0⟩ (indentedLines (Node.stepsEach (s :: body)))).output := rfl
  rw [hcode, indentedLines_eq, hrun, hpieces, charsOf_append]
  simp [CodeBuffer.append, charsOf, PieceOf.chars]

/-- Every word of a script can be told from what follows it. -/
lemma legible_program {s : Node} {body : List Node} (h : ∀ t ∈ s :: body, Plain .statement t) :
    Legible (s.pieces 0 ++ newLines 0 (Node.piecesEach body 0)) ['\n'] := by
  have hlines : Closed (newLines 0 (Node.piecesEach body 0)) := by
    refine closed_newLines (forall_piecesEach fun t ht => ?_) 0
    have ht := h t (List.mem_cons_of_mem _ ht)
    exact ⟨ht.opensLine (.inl rfl) 0, ht.isLegible 0⟩
  have hfirst : Closed (s.pieces 0) := (h s List.mem_cons_self).isLegible 0
  simpa using hfirst.append hlines [] ['\n'] trivial trivial

/-- A plain script that is printed is read back as the same script.  The text is refused only for
its nesting, with a message that says so, and only if the tree of the script is too high. -/
theorem parse_code_of_plain {body : List Node} (h : ∀ s ∈ body, Plain .statement s) :
    parse ((Node.program body).code {}) = .ok (.program body) ∨
      (Grammar.maxNesting < (Node.program body).height ∧
        ∃ error, parse ((Node.program body).code {}) = .error (.refused error) ∧
          error.cause.message = "Maximum nesting depth exceeded.") := by
  have hread : ∃ c, (Cursor.start ((Node.program body).code {})).next? = some (c, none) ∧
      c.At ((Node.piecesEach body 0).flatMap wordsOf) := by
    cases body with
    | nil => exact ⟨_, rfl, rfl⟩
    | cons s body =>
      have hlegible := legible_program h
      obtain ⟨c, hnext, hat⟩ := Cursor.exists_nextAfter hlegible Bool.false_ne_true.elim 0
      rw [wordsOf_append, wordsOf_newLines] at hat
      refine ⟨c, ?_, hat⟩
      rw [Cursor.next?_eq, ← hnext, ← toList_code_program h]
      rfl
  obtain ⟨c, hnext, hat⟩ := hread
  rcases parse_of_plain h hnext hat with hok | ⟨hhigh, span, herror⟩
  · exact .inl hok
  · exact .inr ⟨hhigh, _, herror, rfl⟩

/-- A function with a conditional in a conditional. -/
def sampleFunction : Node :=
  .function .declaration (some "f") [.identifier "a", .identifier "b"]
    (.block [
      .forEach .keys (.declaration .constant [.declarator (.identifier "k") none]) (.identifier "a")
        (.conditionalStatement (.identifier "k") (.jump .leave none)
          (some (.conditionalStatement (.identifier "b") .empty none))),
      .returning (some (.identifier "b"))]) true true

/-- A guarded block and a switch in a loop with a label. -/
def sampleLoop : Node :=
  .labeled "outer" (.whileLoop (.identifier "x") (.block [
    .guarded (.block [.throwing (.identifier "y")])
      (some (.handler (some (.identifier "e")) (.block []))) (some (.block [.debugger])),
    .switch (.identifier "x")
      [.switchCase (some (.identifier "y")) [.jump .repeat (some "outer")], .switchCase none []]]))

/-- A loop that declares, with a loop as its body. -/
def sampleDeclaration : Node :=
  .forLoop
    (some (.declaration .blockScoped
      [.declarator (.identifier "i") (some (.identifier "x")), .declarator (.identifier "j") none]))
    none (some (.identifier "j"))
    (.doWhileLoop (.expressionStatement (.identifier "i")) (.identifier "y"))

lemma plain_sampleFunction : Plain .statement sampleFunction := by
  have ha : Plain .name (.identifier "a") := .identifier (by decide)
  have hb : Plain .name (.identifier "b") := .identifier (by decide)
  have hk : Plain .name (.identifier "k") := .identifier (by decide)
  have hbranches : Plain .statement (.conditionalStatement (.identifier "k") (.jump .leave none)
      (some (.conditionalStatement (.identifier "b") .empty none))) :=
    .ifElse hk (.jump .leave (by simp)) rfl (.ifThen hb .empty)
  have hreturn : Plain .statement (.returning (some (.identifier "b"))) :=
    .returning (by simpa using hb)
  refine .function true true (by decide) ?_ (.block ?_)
  · simpa using ⟨ha, hb⟩
  · simpa using ⟨.forEachDeclaring .keys .constant hk ha hbranches, hreturn⟩

lemma plain_sampleLoop : Plain .statement sampleLoop := by
  have hx : Plain .name (.identifier "x") := .identifier (by decide)
  have hy : Plain .name (.identifier "y") := .identifier (by decide)
  have he : Plain .name (.identifier "e") := .identifier (by decide)
  have houter : (Word.name "outer").IsToken := by decide
  have hhandler : Plain .handler (.handler (some (.identifier "e")) (.block [])) :=
    .handler (by simpa using he) (.block (by simp))
  have hdebugger : Plain .block (.block [.debugger]) := .block (by simpa using Plain.debugger)
  have hthrow : Plain .block (.block [.throwing (.identifier "y")]) :=
    .block (by simpa using Plain.throwing hy)
  have hguarded : Plain .statement (.guarded (.block [.throwing (.identifier "y")])
      (some (.handler (some (.identifier "e")) (.block []))) (some (.block [.debugger]))) :=
    .guarded hthrow (by simpa using hhandler) (by simpa using hdebugger) (.inl rfl)
  have hjump : Plain .statement (.jump .repeat (some "outer")) :=
    .jump .repeat (by simpa using houter)
  have hcase :
      Plain .branch (.switchCase (some (.identifier "y")) [.jump .repeat (some "outer")]) :=
    .branch (by simpa using hy) (by simpa using hjump)
  have hdefault : Plain .branch (.switchCase none []) := .branch (by simp) (by simp)
  have hswitch : Plain .statement (.switch (.identifier "x")
      [.switchCase (some (.identifier "y")) [.jump .repeat (some "outer")],
        .switchCase none []]) :=
    .switch hx (by simpa using ⟨hcase, hdefault⟩)
  exact .labeled houter (.whileLoop hx (.nested (.block (by simpa using ⟨hguarded, hswitch⟩))))

lemma plain_sampleDeclaration : Plain .statement sampleDeclaration := by
  have hi : Plain .name (.identifier "i") := .identifier (by decide)
  have hj : Plain .name (.identifier "j") := .identifier (by decide)
  have hx : Plain .name (.identifier "x") := .identifier (by decide)
  have hy : Plain .name (.identifier "y") := .identifier (by decide)
  have hfirst : Plain .declarator (.declarator (.identifier "i") (some (.identifier "x"))) :=
    .declarator hi (by simpa using hx)
  have hsecond : Plain .declarator (.declarator (.identifier "j") none) := .declarator hj (by simp)
  exact .forLoopDeclaring .blockScoped (List.cons_ne_nil _ _) (by simpa using ⟨hfirst, hsecond⟩)
    (by simp) (by simpa using hj) (.doWhileLoop (.expressionStatement hi) hy)

/-- They are not nested too deeply, and read back. -/
theorem parse_code_samples :
    (∀ s ∈ [sampleFunction, sampleLoop, sampleDeclaration], Plain .statement s) ∧
      parse ((Node.program [sampleFunction, sampleLoop, sampleDeclaration]).code {}) =
        .ok (.program [sampleFunction, sampleLoop, sampleDeclaration]) := by
  have hplain : ∀ s ∈ [sampleFunction, sampleLoop, sampleDeclaration], Plain .statement s := by
    simpa using ⟨plain_sampleFunction, plain_sampleLoop, plain_sampleDeclaration⟩
  refine ⟨hplain, ?_⟩
  rcases parse_code_of_plain hplain with hok | ⟨hhigh, _⟩
  · exact hok
  · exact absurd hhigh (by decide)

/-- A declared name `\u{` takes in the statement after it, up to a closing brace, so that one statement
is read back from two. -/
theorem printed_declaration_takes_block :
    ScansAsName "\\u\x7b" ∧
      (Node.program [.declare .functionScoped "\\u\x7b" none, .block []]).code {} =
        "var \\u\x7b;\n\x7b\x7d\n" ∧
      (parse "var \\u\x7b;\n\x7b\x7d\n").toOption.map (·.code {}) = some "var \\u\x7b;\n\x7b\x7d;\n" :=
  ⟨by rfl, by decide, by decide +kernel⟩

end BindingProxy
