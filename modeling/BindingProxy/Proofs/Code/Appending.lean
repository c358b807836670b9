import BindingProxy.Proofs.Code.Entries
import BindingProxy.Proofs.Proxy.Instrumented

/-!
# Printing appends

Printing a node adds its code to what was printed before, at the level where the printer stands, and
leaves the printer at that level.
-/

namespace BindingProxy

/-- Steps that lead back to the level where they begin. -/
def Balanced (s : List CodeStep) : Prop := ∀ b : CodeBuffer, (b.run s).level = b.level

/-! ### Pieces of layout -/

namespace Balanced

variable {s t : List CodeStep} {items : List (List CodeStep)}

lemma nil : Balanced [] := fun _ => rfl

lemma append (hs : Balanced s) (ht : Balanced t) : Balanced (s ++ t) := by
  intro b
  have hrun : b.run (s ++ t) = (b.run s).run t := List.foldl_append
  rw [hrun, ht, hs]

lemma text (hs : Balanced s) (x : String) : Balanced (.text x :: s) := fun b => hs (b.append x)

lemma newLine (hs : Balanced s) : Balanced (.newLine :: s) := fun b => hs (b.step .newLine)

lemma indent (hs : Balanced s) : Balanced (.indent :: s) := fun b => hs (b.step .indent)

/-- Steps at a level further in. -/
lemma deeper (hs : Balanced s) (ht : Balanced t) :
    Balanced (.deeper :: (s ++ .shallower :: t)) := by
  intro b
  have hrun : b.run (.deeper :: (s ++ .shallower :: t)) =
      (((b.step .deeper).run s).step .shallower).run t := List.foldl_append
  have hinner : ((b.step .deeper).run s).level = b.level + 1 := hs _
  have houter : (((b.step .deeper).run s).step .shallower).level =
      ((b.step .deeper).run s).level - 1 := rfl
  rw [hrun, ht, houter, hinner, Nat.add_sub_cancel]

lemma inParens (hs : Balanced s) : Balanced (inParens s) :=
  (hs.append (nil.text _)).text _

lemma inParensIf (hs : Balanced s) (condition : Bool) : Balanced (inParensIf condition s) := by
  cases condition
  · exact hs
  · exact hs.inParens

lemma flatMap {f : List CodeStep → List CodeStep} (hf : ∀ s, Balanced s → Balanced (f s))
    (h : ∀ s ∈ items, Balanced s) : Balanced (items.flatMap f) := by
  induction items with
  | nil => exact nil
  | cons item items ih =>
    obtain ⟨hitem, hitems⟩ := List.forall_mem_cons.1 h
    exact (hf item hitem).append (ih hitems)

section

variable (h : ∀ s ∈ items, Balanced s)
include h

lemma commaSeparated : Balanced (commaSeparated items) := by
  fun_induction BindingProxy.commaSeparated items with
  | case1 => exact nil
  | case2 item => exact h item List.mem_cons_self
  | case3 item items _ ih =>
    obtain ⟨hitem, hitems⟩ := List.forall_mem_cons.1 h
    exact hitem.append ((ih hitems).text _)

lemma listInParens : Balanced (listInParens items) :=
  (commaSeparated h).inParens

lemma indentedLines : Balanced (indentedLines items) :=
  flatMap (fun _ hs => hs.indent.append nil.newLine) h

lemma inBraces : Balanced (inBraces items) := by
  unfold BindingProxy.inBraces
  split
  · exact (nil.text _).text _
  · rw [List.append_assoc]
    exact ((indentedLines h).deeper (nil.text _).indent).newLine.text _

lemma commaLines : Balanced (commaLines items) := by
  fun_induction BindingProxy.commaLines items with
  | case1 => exact nil
  | case2 item => exact (h item List.mem_cons_self).indent
  | case3 item items _ ih =>
    obtain ⟨hitem, hitems⟩ := List.forall_mem_cons.1 h
    exact (hitem.indent.append (nil.newLine.text _)).append (ih hitems)

lemma objectBody : Balanced (objectBody items) := by
  unfold BindingProxy.objectBody
  split
  · exact nil.text _
  · have hlines := (commaLines h).append nil.newLine
    have hbody := ((hlines.deeper (nil.text "\x7d").indent).newLine).text "\x7b"
    simpa using hbody

lemma arrayBody (elements : List (Option Node)) : Balanced (arrayBody elements items) := by
  refine ((commaSeparated h).text _).append ?_ |>.append (nil.text _)
  split
  · exact nil.text _
  · exact nil

lemma templateBody (quasis : List String) : Balanced (templateBody quasis items) := by
  fun_induction BindingProxy.templateBody quasis items with
  | case1 quasi quasis item items ih =>
    obtain ⟨hitem, hitems⟩ := List.forall_mem_cons.1 h
    exact ((hitem.text _).text _).append ((ih hitems).text _)
  | case2 => exact nil.text _
  | case3 => exact nil

lemma declarationSteps (kind : VariableKind) : Balanced (declarationSteps kind items) :=
  ((commaSeparated h).text _).text _

end

lemma keySteps (hs : Balanced s) (computed : Bool) : Balanced (keySteps computed s) := by
  cases computed
  · exact hs
  · exact (hs.text _).append (nil.text _)

/-- A word that is there or not. -/
lemma wordIf (condition : Bool) (x : String) :
    Balanced (if condition then [CodeStep.text x] else []) := by
  cases condition
  · exact nil
  · exact nil.text x

lemma functionSteps (id : Option String) (isAsync isGenerator : Bool)
    (h : ∀ s ∈ items, Balanced s) (ht : Balanced t) :
    Balanced (functionSteps id isAsync isGenerator items t) := by
  refine (((wordIf isAsync _).append (text ?_ _)).append (listInParens h)).append (ht.text _)
  cases id
  · exact nil
  · exact nil.text _

lemma classSteps (id : Option String) {parent : Option (List CodeStep)}
    (hparent : ∀ s ∈ parent, Balanced s) (h : ∀ s ∈ items, Balanced s) :
    Balanced (classSteps id parent items) := by
  refine ((append ?_ ?_).append (inBraces h)).text _
  · cases id
    · exact nil
    · exact (nil.text _).text _
  · cases parent with
    | none => exact nil
    | some s => exact ((hparent s rfl).text _).append (nil.text _)

lemma methodSteps (isAsync isGenerator : Bool) {key : List CodeStep} (hkey : Balanced key)
    (h : ∀ s ∈ items, Balanced s) (ht : Balanced t) :
    Balanced (methodSteps isAsync isGenerator key items t) :=
  ((((wordIf isAsync _).append (wordIf isGenerator _)).append hkey).append (listInParens h)).append
    (ht.text _)

lemma methodWords (kind : MethodKind) (isStatic : Bool) : Balanced (methodWords kind isStatic) := by
  refine (wordIf isStatic _).append ?_
  cases kind
  · exact nil
  · exact nil
  · exact nil.text _
  · exact nil.text _

lemma getD {o : Option (List CodeStep)} (h : ∀ s ∈ o, Balanced s) : Balanced (o.getD []) := by
  cases o with
  | none => exact nil
  | some s => exact h s rfl

lemma afterSpace {o : Option (List CodeStep)} (h : ∀ s ∈ o, Balanced s) :
    Balanced (afterSpace o) := by
  cases o with
  | none => exact nil
  | some s => exact (h s rfl).text _

lemma labelSteps (label : Option String) : Balanced (labelSteps label) := by
  cases label
  · exact nil
  · exact (nil.text _).text _

lemma unarySteps (operator : UnaryOperator) (operand : Node) (parens : Bool) (hs : Balanced s) :
    Balanced (unarySteps operator operand parens s) :=
  ((wordIf _ _).append (hs.inParensIf parens)).text _

lemma infixSteps (hs : Balanced s) (operator : String) (ht : Balanced t) :
    Balanced (infixSteps s operator t) :=
  hs.append (((ht.text _).text _).text _)

end Balanced

namespace Node

/-! ### Nodes -/

lemma balanced_each {ns : List Node} (h : ∀ n ∈ ns, Balanced n.steps) :
    ∀ s ∈ stepsEach ns, Balanced s := by
  induction ns with
  | nil => simp [stepsEach]
  | cons n ns ih =>
    obtain ⟨hn, hns⟩ := List.forall_mem_cons.1 h
    exact List.forall_mem_cons.2 ⟨hn, ih hns⟩

lemma balanced_option {o : Option Node} (h : ∀ n ∈ o, Balanced n.steps) :
    ∀ s ∈ stepsOption o, Balanced s := by
  cases o with
  | none => simp [stepsOption]
  | some n => simpa [stepsOption] using h

lemma balanced_holes {es : List (Option Node)} (h : ∀ n ∈ es.filterMap id, Balanced n.steps) :
    ∀ s ∈ stepsHoles es, Balanced s := by
  induction es with
  | nil => simp [stepsHoles]
  | cons e es ih =>
    cases e with
    | none => exact List.forall_mem_cons.2 ⟨.nil, ih h⟩
    | some n =>
      obtain ⟨hn, hes⟩ := List.forall_mem_cons.1 h
      exact List.forall_mem_cons.2 ⟨hn, ih hes⟩

lemma balanced_loopHeadSteps {n : Node} (hn : Balanced n.steps)
    (hbelow : ∀ c ∈ n.children, Balanced c.steps) : Balanced n.loopHeadSteps := by
  cases n with
  | declaration kind declarators => exact .declarationSteps (balanced_each hbelow) kind
  | _ => exact hn

lemma balanced_methodValueSteps {n : Node} {key : List CodeStep} (hkey : Balanced key)
    (hn : Balanced n.steps) (hbelow : ∀ c ∈ n.children, Balanced c.steps) :
    Balanced (n.methodValueSteps key) := by
  have hvalue : Balanced (key ++ .text ": " :: n.steps) := hkey.append (hn.text _)
  cases n with
  | function role id params body isAsync isGenerator =>
    cases role with
    | declaration => exact hvalue
    | expression =>
      obtain ⟨hparams, hbody⟩ := List.forall_mem_append.1 hbelow
      exact .methodSteps _ _ hkey (balanced_each hparams) (hbody body List.mem_cons_self)
  | _ => exact hvalue

/-- The steps of a node lead back to their level if those of all lower nodes do. -/
lemma balanced_of_lower {n : Node} (h : ∀ m : Node, m.height < n.height → Balanced m.steps) :
    Balanced n.steps := by
  have hchild : ∀ c ∈ n.children, Balanced c.steps := fun c hc => h c (height_lt_of_mem_children hc)
  have hbelow : ∀ c ∈ n.children, ∀ d ∈ c.children, Balanced d.steps := fun c hc d hd =>
    h d ((height_lt_of_mem_children hd).trans (height_lt_of_mem_children hc))
  cases n
  all_goals simp only [children, List.forall_mem_cons, List.forall_mem_append, List.not_mem_nil,
    Option.mem_toList, false_implies, implies_true, and_true] at hchild
  case program body => exact .indentedLines (balanced_each hchild)
  case expressionStatement e => exact (hchild.inParensIf _).append (.text .nil _)
  case block body => exact .inBraces (balanced_each hchild)
  case empty | debugger | identifier | literal | thisValue | superValue => exact .text .nil _
  case returning argument =>
    exact (Balanced.text (.afterSpace (balanced_option hchild)) _).append (.text .nil _)
  case conditionalStatement test consequent alternate =>
    obtain ⟨htest, hconsequent, halternate⟩ := hchild
    refine ((htest.text _).append (hconsequent.text _)).append ?_
    cases alternate with
    | none => exact .nil
    | some alternate => exact (halternate alternate rfl).text _
  case whileLoop test body => exact (hchild.1.text _).append (hchild.2.text _)
  case doWhileLoop body test =>
    exact ((hchild.1.text _).append (hchild.2.text _)).append (.text .nil _)
  case forLoop init test step body =>
    obtain ⟨⟨⟨hinit, htest⟩, hstep⟩, hbody⟩ := hchild
    have hhead : Balanced ((init.map loopHeadSteps).getD []) := by
      cases init with
      | none => exact .nil
      | some init =>
        exact balanced_loopHeadSteps (hinit init rfl) (hbelow init (by simp [children]))
    rw [steps_forLoop]
    exact (((hhead.text _).append (.text (.getD (balanced_option htest)) _)).append
      (.text (.getD (balanced_option hstep)) _)).append (hbody.text _)
  case forEach iteration left right body =>
    obtain ⟨hleft, hright, hbody⟩ := hchild
    rw [steps_forEach]
    exact (((balanced_loopHeadSteps hleft (hbelow left (by simp [children]))).text _).append
      (((hright.text _).text _).text _)).append (hbody.text _)
  case jump kind label => exact (Balanced.text (.labelSteps label) _).append (.text .nil _)
  case throwing argument => exact (hchild.text _).append (.text .nil _)
  case guarded body recovery finalizer =>
    obtain ⟨hbody, hrecovery, hfinalizer⟩ := hchild
    refine ((hbody.text _).append (.getD (balanced_option hrecovery))).append ?_
    cases finalizer with
    | none => exact .nil
    | some finalizer => exact (hfinalizer finalizer rfl).text _
  case handler param body =>
    refine .append ?_ hchild.2
    cases param with
    | none => exact .text .nil _
    | some param => exact ((hchild.1 param rfl).text _).append (.text .nil _)
  case switch discriminant cases =>
    have hinner := (Balanced.flatMap (fun _ h => h.indent) (balanced_each hchild.2)).deeper
      (Balanced.text .nil "\x7d").indent
    simpa [steps] using (hchild.1.text "switch (").append (hinner.newLine.text ") \x7b")
  case switchCase test consequent =>
    have hinner := ((Balanced.indentedLines (balanced_each hchild.2)).deeper .nil).newLine
    cases test with
    | none => simpa [steps, stepsOption] using (Balanced.text .nil "default:").append hinner
    | some test =>
      simpa [steps, stepsOption] using
        (((hchild.1 test rfl).text "case ").append (.text .nil ":")).append hinner
  case labeled label body => exact (hchild.text _).text _
  case declaration kind declarators =>
    exact (Balanced.declarationSteps (balanced_each hchild) kind).append (.text .nil _)
  case declarator id init =>
    refine hchild.1.append ?_
    cases init with
    | none => exact .nil
    | some init => exact (hchild.2 init rfl).text _
  case function role id params body isAsync isGenerator =>
    exact .functionSteps _ _ _ (balanced_each hchild.1) hchild.2
  case classDefinition role id superClass body =>
    cases superClass with
    | none => exact .classSteps _ (by simp) (balanced_each hchild.2)
    | some parent =>
      have hparent := (hchild.1 parent rfl).inParensIf parent.needsParensAsSuperclass
      exact .classSteps _ (by simpa using hparent) (balanced_each hchild.2)
  case template quasis expressions =>
    exact (Balanced.text (.templateBody (balanced_each hchild) _) _).append (.text .nil _)
  case taggedTemplate tag quasi => exact (hchild.1.inParensIf _).append hchild.2
  case array elements | arrayPattern elements => exact .arrayBody (balanced_holes hchild) _
  case object properties => exact .objectBody (balanced_each hchild)
  case property key value kind computed shorthand isMethod =>
    have hkey := hchild.1.keySteps computed
    rw [steps_property]
    split
    · exact (Balanced.methodWords _ _).append
        (balanced_methodValueSteps hkey hchild.2 (hbelow value (by simp [children])))
    · split
      · exact hchild.2
      · exact hkey.append (hchild.2.text _)
  case arrow params body concise isAsync =>
    rw [steps_arrow, arrowHead, arrowBody_eq]
    refine ((Balanced.wordIf _ _).append ?_).append ((hchild.2.inParensIf _).text _)
    unfold arrowParams
    split
    · exact .text .nil _
    · exact .listInParens (balanced_each hchild.1)
  case method key value kind computed isStatic =>
    rw [steps_method]
    exact (Balanced.methodWords _ _).append
      (balanced_methodValueSteps (hchild.1.keySteps computed) hchild.2
        (hbelow value (by simp [children])))
  case unary operator argument => exact .unarySteps _ _ _ hchild
  case update operator leading argument =>
    rw [steps]
    split
    · exact hchild.text _
    · exact hchild.append (.text .nil _)
  case binary operator left right =>
    exact (Balanced.infixSteps (hchild.1.inParensIf _) _ (hchild.2.inParensIf _)).inParensIf _
  case logical operator left right =>
    exact .infixSteps (hchild.1.inParensIf _) _ (hchild.2.inParensIf _)
  case assignment operator left right | defaulted left right => exact hchild.1.infixSteps _ hchild.2
  case conditional test consequent alternate =>
    obtain ⟨htest, hconsequent, halternate⟩ := hchild
    exact ((htest.inParensIf _).append (hconsequent.text _)).append (halternate.text _)
  case call callee arguments optional =>
    exact ((hchild.1.inParensIf _).append (.wordIf _ _)).append
      (.listInParens (balanced_each hchild.2))
  case construction callee arguments =>
    exact ((hchild.1.inParensIf _).text _).append (.listInParens (balanced_each hchild.2))
  case member owner key computed optional =>
    refine (hchild.1.inParensIf _).append ?_
    split
    · exact ((Balanced.wordIf _ _).append (hchild.2.text _)).append (.text .nil _)
    · exact hchild.2.text _
  case sequence expressions => exact .listInParens (balanced_each hchild)
  case spread argument | rest argument => exact hchild.text _
  case yielding argument delegate =>
    exact Balanced.text (.afterSpace (balanced_option hchild)) _
  case awaiting argument => exact (hchild.inParensIf _).text _
  case objectPattern properties =>
    exact (Balanced.text (.commaSeparated (balanced_each hchild)) _).append (.text .nil _)

lemma balanced_steps (n : Node) : Balanced n.steps := by
  induction hheight : n.height using Nat.strongRecOn generalizing n with
  | ind height ih => exact balanced_of_lower fun m hm => ih m.height (hheight ▸ hm) m rfl

end Node

/-! ### Buffers -/

namespace CodeBuffer

lemma layout_run (b : CodeBuffer) (s : List CodeStep) : (b.run s).layout = b.layout := by
  induction s generalizing b with
  | nil => rfl
  | cons step s ih =>
    have hstep : (b.step step).layout = b.layout := by cases step <;> rfl
    exact (ih (b.step step)).trans hstep

/-- Printing a node adds its code to a buffer and changes nothing else. -/
lemma run_steps (b : CodeBuffer) (n : Node) : b.run n.steps = b.append (b.written n.steps) := by
  have hlayout := b.layout_run n.steps
  have houtput := b.output_run n.steps
  have hlevel := n.balanced_steps b
  rw [append, ← houtput, ← hlayout, ← hlevel]

end CodeBuffer

/-- A program is printed as its first statement, a line break and the program of the others. -/
lemma Node.code_program_cons (layout : Layout) (n : Node) (body : List Node) :
    (Node.program (n :: body)).code layout =
      n.code layout ++ layout.newLine ++ (Node.program body).code layout := by
  let outermost : CodeBuffer := ⟨layout, "", 0⟩
  have hrun : outermost.run (Node.program (n :: body)).steps =
      ((((outermost.step .indent).run n.steps).step .newLine).run (Node.program body).steps) := by
    have hsteps : (Node.program (n :: body)).steps =
        .indent :: n.steps ++ [CodeStep.newLine] ++ (Node.program body).steps := rfl
    simp only [hsteps, CodeBuffer.run, List.cons_append, List.foldl_cons, List.foldl_append,
      List.foldl_nil]
  have hindent : outermost.step .indent = outermost := rfl
  have hfirst : outermost.written n.steps = n.code layout := rfl
  have hline : (outermost.append (n.code layout)).step .newLine =
      ⟨layout, n.code layout ++ layout.newLine, 0⟩ := by
    simp [outermost, CodeBuffer.append, CodeBuffer.step]
  have hcode : (Node.program (n :: body)).code layout =
      (outermost.run (Node.program (n :: body)).steps).output := rfl
  rw [hcode, hrun, hindent, outermost.run_steps, hfirst, hline, CodeBuffer.output_run]
  rfl

/-! ### The import of the proxy types -/

/-- An instrumented tree with and without the import. -/
lemma Options.exists_instrumentTree_eq (o : Options) {n : Node} {body : List Node}
    (h : o.proxied n = .program body) :
    ∃ changes : Changes, ∀ imports,
      ({ o with importClient := imports } : Options).instrumentTree n =
        (.program (if imports then o.names.clientImport :: body else body),
          { changes with clientImported := imports }) := by
  refine ⟨(o.instrumentTree n).2, fun imports => ?_⟩
  have htree : ({ o with importClient := imports } : Options).instrumentTree n =
      ((if imports then o.names.importInto? (o.proxied n) else none).getD (o.proxied n),
        { (o.instrumentTree n).2 with
          clientImported :=
            (if imports then o.names.importInto? (o.proxied n) else none).isSome }) :=
    rfl
  rw [htree, h]
  cases imports <;> rfl

/-- Printing is compositional.  Each entry of the printer comes to an end on every tree and adds the
code of the tree to the buffer, without changing what is there, the layout or the level.  So asking
for the import of the proxy types puts its declaration and a line break before the code, and the
changes differ in nothing but the note of the import. -/
theorem printing_appends :
    (∀ (b : CodeBuffer) (n : Node) (entry : Entry) (spare : Nat),
      (n.emitWithin (2 * n.height + spare) entry).map b.run =
        some (b.append (b.written n.steps))) ∧
    ∀ (o : Options) (text : String),
      let plain := ({ o with importClient := false } : Options).instrument text
      ({ o with importClient := true } : Options).instrument text =
          (plain.map fun result =>
            (o.names.clientImport.code o.layout ++ o.layout.newLine ++ result.1,
              { result.2 with clientImported := true })) ∧
        plain = plain.map fun result => (result.1, { result.2 with clientImported := false }) := by
  constructor
  · intro b n entry spare
    rw [Node.emitWithin_eq_some (Nat.le_add_right _ _), Option.map_some, b.run_steps]
  · intro o text
    simp only [Options.instrument]
    cases hparse : parse text with
    | error failure => exact ⟨rfl, rfl⟩
    | ok n =>
      obtain ⟨⟨statements, rfl⟩, _⟩ := tidy_of_parse hparse
      obtain ⟨body, hbody⟩ := ProxyNames.exists_proxied_eq_program (o := o) statements
      obtain ⟨changes, htree⟩ := o.exists_instrumentTree_eq hbody
      simp [Except.map, htree, Node.code_program_cons]

end BindingProxy
