import BindingProxy.Proofs.Code.Openings
import BindingProxy.Proofs.Tree.Depth

/-!
# The two entries of the printer

A printer that goes down a tree has one entry for places of statements and one for all other places.
Each has the rules for its own kinds of nodes and hands the other kinds over, the node as it is, to
the other entry.  So it may happen that a node is not taken apart by a call, and whether such a
printer comes to an end depends on the kinds that the entries have rules for.

`emitWithin` is that printer with a bound on the depth of its calls, at which it gives up.  Two
calls for each level of a tree are enough (`emitWithin_eq_some`), and then the steps are those of
the node, whichever entry was asked.
-/

namespace BindingProxy

/-- Where a node is handed to the printer. -/
inductive Entry where
  | statement
  | expression
deriving Repr, DecidableEq, Inhabited

namespace Entry

def other : Entry → Entry
  | statement => expression
  | expression => statement

/-- The kinds of nodes that an entry has a rule for. -/
def handles : Entry → NodeKind → Bool
  | statement => fun
    | .program | .expressionStatement | .block | .empty | .debugger | .returning | .throwing
    | .breaking | .continuing | .conditionalStatement | .whileLoop | .doWhileLoop | .forLoop
    | .forIn | .forOf | .guarded | .handler | .switch | .switchCase | .labeled | .declaration
    | .functionDeclaration | .classDeclaration => true
    | _ => false
  | expression => fun
    | .identifier | .literal | .thisValue | .superValue | .template | .taggedTemplate | .array
    | .arrayPattern | .object | .objectPattern | .property | .functionExpression | .arrow
    | .classExpression | .method | .unary | .update | .binary | .logical | .assignment
    | .defaulted | .conditional | .call | .construction | .member | .sequence | .spread | .rest
    | .yielding | .awaiting | .declarator => true
    | _ => false

/-- What one entry hands over the other has a rule for. -/
lemma handles_other (e : Entry) (k : NodeKind) (h : e.handles k = false) :
    e.other.handles k = true := by
  cases e <;> cases k <;> first | rfl | cases h

end Entry

namespace Node

/-! ### Rules that call the entries -/

section Calls

variable (emit : Entry → Node → Option (List CodeStep))

/-- The steps of the elements of an array, holes apart. -/
def elementsBy (elements : List (Option Node)) : Option (List (List CodeStep)) :=
  elements.mapM fun
    | none => some []
    | some element => emit .expression element

/-- What stands before the first semicolon or the word of a loop: a declaration without its own
semicolon, or anything else. -/
def loopHeadBy : Node → Option (List CodeStep)
  | declaration kind declarators => do
    return declarationSteps kind (← declarators.mapM (emit .expression))
  | n => emit .expression n

/-- A method: its function is taken apart here, anything else is printed as the value of a key. -/
def methodBy (words key : List CodeStep) : Node → Option (List CodeStep)
  | function .expression _ params body isAsync isGenerator => do
    return words ++ methodSteps isAsync isGenerator key (← params.mapM (emit .expression))
      (← emit .statement body)
  | value => do return words ++ (key ++ .text ": " :: (← emit .expression value))

/-- The parameters of an arrow function: a single name has no parentheses. -/
def paramsBy : List Node → Option (List CodeStep)
  | [identifier name] => some [.text name]
  | params => do return listInParens (← params.mapM (emit .expression))

/-- The link from an owner to its property. -/
def linkSteps (computed optional : Bool) (key : List CodeStep) : List CodeStep :=
  if computed then
    (if optional then [.text "?."] else []) ++ .text "[" :: key ++ [.text "]"]
  else .text (if optional then "?." else ".") :: key

/-- The steps of a node by its own rule, where the steps of other nodes come from calls. -/
def stepsBy : Node → Option (List CodeStep)
  | program body => do return indentedLines (← body.mapM (emit .statement))
  | expressionStatement e => do
    return inParensIf e.needsParensAsStatement (← emit .expression e) ++ [.text ";"]
  | block body => do return inBraces (← body.mapM (emit .statement))
  | empty => some [.text ";"]
  | debugger => some [.text "debugger;"]
  | returning argument => do
    return .text "return" :: afterSpace (← argument.mapM (emit .expression)) ++ [.text ";"]
  | conditionalStatement test consequent alternate => do
    return .text "if (" :: (← emit .expression test) ++
      .text ") " :: (← emit .statement consequent) ++
      (match ← alternate.mapM (emit .statement) with
        | some alternate => .text " else " :: alternate
        | none => [])
  | whileLoop test body => do
    return .text "while (" :: (← emit .expression test) ++
      .text ") " :: (← emit .statement body)
  | doWhileLoop body test => do
    return .text "do " :: (← emit .statement body) ++
      .text " while (" :: (← emit .expression test) ++ [.text ");"]
  | forLoop init test step body => do
    return .text "for (" :: (← init.mapM (loopHeadBy emit)).getD [] ++
      .text "; " :: (← test.mapM (emit .expression)).getD [] ++
      .text "; " :: (← step.mapM (emit .expression)).getD [] ++
      .text ") " :: (← emit .statement body)
  | forEach iteration left right body => do
    return .text "for (" :: (← loopHeadBy emit left) ++
      .text " " :: .text iteration.word :: .text " " :: (← emit .expression right) ++
      .text ") " :: (← emit .statement body)
  | jump kind label => some (.text kind.word :: labelSteps label ++ [.text ";"])
  | throwing argument => do
    return .text "throw " :: (← emit .expression argument) ++ [.text ";"]
  | guarded body recovery finalizer => do
    return .text "try " :: (← emit .statement body) ++
      (← recovery.mapM (emit .statement)).getD [] ++
      (match ← finalizer.mapM (emit .statement) with
        | some finalizer => .text " finally " :: finalizer
        | none => [])
  | handler param body => do
    return (match ← param.mapM (emit .expression) with
        | some param => .text " catch (" :: param ++ [.text ") "]
        | none => [.text " catch "]) ++
      (← emit .statement body)
  | switch discriminant cases => do
    return .text "switch (" :: (← emit .expression discriminant) ++
      [.text ") \x7b", .newLine, .deeper] ++
      (← cases.mapM (emit .statement)).flatMap (.indent :: ·) ++
      [.shallower, .indent, .text "\x7d"]
  | switchCase test consequent => do
    return (match ← test.mapM (emit .expression) with
        | some test => .text "case " :: test ++ [.text ":"]
        | none => [.text "default:"]) ++
      [.newLine, .deeper] ++ indentedLines (← consequent.mapM (emit .statement)) ++ [.shallower]
  | labeled label body => do
    return .text label :: .text ": " :: (← emit .statement body)
  | declaration kind declarators => do
    return declarationSteps kind (← declarators.mapM (emit .expression)) ++ [.text ";"]
  | declarator id init => do
    return (← emit .expression id) ++
      (match ← init.mapM (emit .expression) with
        | some init => .text " = " :: init
        | none => [])
  | function _ id params body isAsync isGenerator => do
    return functionSteps id isAsync isGenerator (← params.mapM (emit .expression))
      (← emit .statement body)
  | classDefinition _ id superClass body => do
    return classSteps id
      (← superClass.mapM fun parent => do
        return inParensIf parent.needsParensAsSuperclass (← emit .expression parent))
      (← body.mapM (emit .statement))
  | identifier name => some [.text name]
  | literal _ raw => some [.text raw]
  | template quasis expressions => do
    return .text "`" ::
      templateBody quasis (← (expressions.take quasis.length).mapM (emit .expression)) ++
      [.text "`"]
  | taggedTemplate tag quasi => do
    return inParensIf tag.needsParensAsOwner (← emit .expression tag) ++
      (← emit .expression quasi)
  | thisValue => some [.text "this"]
  | superValue => some [.text "super"]
  | array elements | arrayPattern elements => do
    return arrayBody elements (← elementsBy emit elements)
  | object properties => do return objectBody (← properties.mapM (emit .expression))
  | property key value kind computed shorthand isMethod =>
    if isMethod || kind != .init then do
      methodBy emit (methodWords kind.methodKind false)
        (keySteps computed (← emit .expression key)) value
    else if shorthand then emit .expression value
    else do
      return keySteps computed (← emit .expression key) ++
        .text ": " :: (← emit .expression value)
  | arrow params body _ isAsync => do
    return (if isAsync then [.text "async "] else []) ++ (← paramsBy emit params) ++
      .text " => " :: inParensIf (body.kind == .object) (← emit .expression body)
  | method key value kind computed isStatic => do
    methodBy emit (methodWords kind isStatic) (keySteps computed (← emit .expression key)) value
  | unary operator argument => do
    return unarySteps operator argument (argument.needsParens (.unary operator argument) .left)
      (← emit .expression argument)
  | update operator leading argument => do
    let steps ← emit .expression argument
    return if leading then .text operator.text :: steps else steps ++ [.text operator.text]
  | binary operator left right => do
    let parent := Node.binary operator left right
    return inParensIf (operator == .isIn)
      (infixSteps (inParensIf (left.needsParens parent .left) (← emit .expression left))
        operator.text (inParensIf (right.needsParens parent .right) (← emit .expression right)))
  | logical operator left right => do
    let parent := Node.logical operator left right
    return infixSteps (inParensIf (left.needsParens parent .left) (← emit .expression left))
      operator.text (inParensIf (right.needsParens parent .right) (← emit .expression right))
  | assignment operator left right => do
    return infixSteps (← emit .expression left) operator.text (← emit .expression right)
  | defaulted left right => do
    return infixSteps (← emit .expression left) "=" (← emit .expression right)
  | conditional test consequent alternate => do
    return inParensIf test.needsParensAsTest (← emit .expression test) ++
      .text " ? " :: (← emit .expression consequent) ++
      .text " : " :: (← emit .expression alternate)
  | call callee arguments optional => do
    return inParensIf callee.needsParensAsOwner (← emit .expression callee) ++
      (if optional then [.text "?."] else []) ++
      listInParens (← arguments.mapM (emit .expression))
  | construction callee arguments => do
    return .text "new " ::
      inParensIf (callee.needsParensAsOwner || callee.hasCallOnSpine) (← emit .expression callee) ++
      listInParens (← arguments.mapM (emit .expression))
  | member owner key computed optional => do
    return inParensIf owner.needsParensAsOwner (← emit .expression owner) ++
      linkSteps computed optional (← emit .expression key)
  | sequence expressions => do return listInParens (← expressions.mapM (emit .expression))
  | spread argument | rest argument => do
    return .text "..." :: (← emit .expression argument)
  | yielding argument delegate => do
    return .text (if delegate then "yield*" else "yield") ::
      afterSpace (← argument.mapM (emit .expression))
  | awaiting argument => do
    return .text "await " ::
      inParensIf (argument.needsParens (.awaiting argument) .left) (← emit .expression argument)
  | objectPattern properties => do
    return .text "\x7b" :: commaSeparated (← properties.mapM (emit .expression)) ++ [.text "\x7d"]

variable {emit : Entry → Node → Option (List CodeStep)}

/-! ### Calls that give the steps of their nodes -/

/-- The calls give the steps of some nodes, at either entry. -/
def Emits (emit : Entry → Node → Option (List CodeStep)) (ns : List Node) : Prop :=
  ∀ n ∈ ns, ∀ entry, emit entry n = some n.steps

lemma emits_nil : Emits emit [] ↔ True := by simp [Emits]

lemma emits_cons {n : Node} {ns : List Node} :
    Emits emit (n :: ns) ↔ (∀ entry, emit entry n = some n.steps) ∧ Emits emit ns :=
  List.forall_mem_cons

lemma emits_append {ns ms : List Node} : Emits emit (ns ++ ms) ↔ Emits emit ns ∧ Emits emit ms :=
  List.forall_mem_append

lemma mapM_emit {ns : List Node} (h : Emits emit ns) (entry : Entry) :
    ns.mapM (emit entry) = some (stepsEach ns) := by
  induction ns with
  | nil => rfl
  | cons n ns ih =>
    obtain ⟨hn, hns⟩ := emits_cons.1 h
    rw [List.mapM_cons, hn entry, ih hns]
    rfl

lemma optionMapM_emit {o : Option Node} (h : Emits emit o.toList) (entry : Entry) :
    o.mapM (emit entry) = some (stepsOption o) := by
  cases o with
  | none => rfl
  | some n =>
    rw [Option.mapM_some, (emits_cons.1 h).1 entry]
    rfl

lemma elementsBy_eq {elements : List (Option Node)} (h : Emits emit (elements.filterMap id)) :
    elementsBy emit elements = some (stepsHoles elements) := by
  unfold elementsBy
  induction elements with
  | nil => rfl
  | cons element elements ih =>
    cases element with
    | none =>
      rw [List.mapM_cons, ih h]
      rfl
    | some n =>
      obtain ⟨hn, hrest⟩ := emits_cons.1 h
      rw [List.mapM_cons, ih hrest]
      simp only [hn]
      rfl

/-- Substitutions without a text before them are not printed. -/
lemma templateBody_take (quasis : List String) (items : List (List CodeStep)) :
    templateBody quasis (items.take quasis.length) = templateBody quasis items := by
  fun_induction templateBody quasis items with
  | case1 quasi quasis item items ih =>
    rw [List.length_cons, List.take_succ_cons, templateBody, ih]
  | case2 => rw [List.take_nil, templateBody]
  | case3 => simp [templateBody]

lemma stepsEach_take (k : Nat) (ns : List Node) :
    stepsEach (ns.take k) = (stepsEach ns).take k := by
  induction ns generalizing k with
  | nil => rw [List.take_nil, stepsEach, List.take_nil]
  | cons n ns ih =>
    cases k with
    | zero => rfl
    | succ k => rw [List.take_succ_cons, stepsEach, stepsEach, List.take_succ_cons, ih]

/-! ### Rules that look into a part -/

/-- What a loop has before its first semicolon or its word. -/
def loopHeadSteps : Node → List CodeStep
  | declaration kind declarators => declarationSteps kind (stepsEach declarators)
  | n => n.steps

lemma steps_forLoop (init test step : Option Node) (body : Node) :
    (forLoop init test step body).steps =
      .text "for (" :: (init.map loopHeadSteps).getD [] ++
        .text "; " :: (stepsOption test).getD [] ++ .text "; " :: (stepsOption step).getD [] ++
        .text ") " :: body.steps := by
  cases init with
  | none => rfl
  | some init => cases init <;> rfl

lemma steps_forEach (iteration : Iteration) (left right body : Node) :
    (forEach iteration left right body).steps =
      .text "for (" :: left.loopHeadSteps ++
        .text " " :: .text iteration.word :: .text " " :: right.steps ++
        .text ") " :: body.steps := by
  cases left <;> rfl

/-- A method from its key on. -/
def methodValueSteps (key : List CodeStep) : Node → List CodeStep
  | function .expression _ params body isAsync isGenerator =>
    methodSteps isAsync isGenerator key (stepsEach params) body.steps
  | value => key ++ .text ": " :: value.steps

lemma steps_method (key value : Node) (kind : MethodKind) (computed isStatic : Bool) :
    (method key value kind computed isStatic).steps =
      methodWords kind isStatic ++ value.methodValueSteps (keySteps computed key.steps) := by
  cases value with
  | function role => cases role <;> rfl
  | _ => rfl

lemma steps_property (key value : Node) (kind : PropertyKind) (computed shorthand isMethod : Bool) :
    (property key value kind computed shorthand isMethod).steps =
      if isMethod || kind != .init then
        methodWords kind.methodKind false ++ value.methodValueSteps (keySteps computed key.steps)
      else if shorthand then value.steps
      else keySteps computed key.steps ++ .text ": " :: value.steps := by
  cases value with
  | function role => cases role <;> rfl
  | _ => rfl

lemma arrowBody_eq (body : Node) :
    arrowBody body = inParensIf (body.kind == .object) body.steps := by
  cases body with
  | forEach iteration => cases iteration <;> rfl
  | jump jump => cases jump <;> rfl
  | function role => cases role <;> rfl
  | classDefinition role => cases role <;> rfl
  | _ => rfl

lemma loopHeadBy_eq {n : Node} (hn : ∀ entry, emit entry n = some n.steps)
    (hbelow : Emits emit n.children) : loopHeadBy emit n = some n.loopHeadSteps := by
  cases n with
  | declaration kind declarators =>
    have hdeclarators : Emits emit declarators := hbelow
    rw [loopHeadBy, mapM_emit hdeclarators]
    rfl
  | _ => exact hn _

lemma methodBy_eq {n : Node} (words key : List CodeStep)
    (hn : ∀ entry, emit entry n = some n.steps) (hbelow : Emits emit n.children) :
    methodBy emit words key n = some (words ++ n.methodValueSteps key) := by
  have hvalue : (do return words ++ (key ++ .text ": " :: (← emit .expression n))) =
      some (words ++ (key ++ .text ": " :: n.steps)) := by
    rw [hn]
    rfl
  cases n with
  | function role id params body isAsync isGenerator =>
    cases role with
    | declaration => exact hvalue
    | expression =>
      obtain ⟨hparams, hbody⟩ := emits_append.1 hbelow
      rw [methodBy, mapM_emit hparams, (emits_cons.1 hbody).1]
      rfl
  | _ => exact hvalue

lemma paramsBy_eq {params : List Node} (h : Emits emit params) :
    paramsBy emit params = some (arrowParams params) := by
  by_cases hname : ∃ w, params = [identifier w]
  · obtain ⟨w, rfl⟩ := hname
    rfl
  · have hother : ∀ w, params ≠ [identifier w] := fun w hw => hname ⟨w, hw⟩
    rw [paramsBy.eq_2 emit params hother, arrowParams.eq_2 params hother, mapM_emit h]
    rfl

/-- If the calls for all lower nodes give their steps, then so does the rule of a node. -/
lemma stepsBy_eq_some {n : Node}
    (h : ∀ m, m.height < n.height → ∀ entry, emit entry m = some m.steps) :
    stepsBy emit n = some n.steps := by
  have hchild : Emits emit n.children := fun c hc => h c (height_lt_of_mem_children hc)
  -- Loop heads and methods call for what is two levels further down.
  have hbelow : ∀ c ∈ n.children, Emits emit c.children := fun c hc d hd =>
    h d ((height_lt_of_mem_children hd).trans (height_lt_of_mem_children hc))
  cases n with
  | forLoop init test step body =>
    have hinit : init.mapM (loopHeadBy emit) = some (init.map loopHeadSteps) := by
      cases init with
      | none => rfl
      | some init =>
        rw [Option.mapM_some, loopHeadBy_eq (hchild init (by simp [children]))
          (hbelow init (by simp [children]))]
        rfl
    simp only [children, emits_nil, emits_cons, emits_append, and_true] at hchild
    simp only [stepsBy, hinit, hchild, optionMapM_emit, Option.bind_eq_bind, Option.bind_some,
      Option.pure_def, steps_forLoop]
  | forEach iteration left right body =>
    have hleft := loopHeadBy_eq (hchild left (by simp [children]))
      (hbelow left (by simp [children]))
    simp only [children, emits_nil, emits_cons, and_true] at hchild
    simp only [stepsBy, hleft, hchild, Option.bind_eq_bind, Option.bind_some, Option.pure_def,
      steps_forEach]
  | property key value kind computed shorthand isMethod =>
    have hvalue := fun words key => methodBy_eq words key (hchild value (by simp [children]))
      (hbelow value (by simp [children]))
    simp only [children, emits_nil, emits_cons, and_true] at hchild
    simp only [stepsBy, hvalue, hchild, Option.bind_eq_bind, Option.bind_some, Option.pure_def,
      steps_property]
    split
    · rfl
    · split <;> rfl
  | method key value kind computed isStatic =>
    have hvalue := fun words key => methodBy_eq words key (hchild value (by simp [children]))
      (hbelow value (by simp [children]))
    simp only [children, emits_nil, emits_cons, and_true] at hchild
    simp only [stepsBy, hvalue, hchild, Option.bind_eq_bind, Option.bind_some, steps_method]
  | arrow params body concise isAsync =>
    simp only [children, emits_nil, emits_cons, emits_append, and_true] at hchild
    simp only [stepsBy, hchild, paramsBy_eq, Option.bind_eq_bind, Option.bind_some, Option.pure_def,
      steps_arrow, arrowHead, arrowBody_eq]
  | template quasis expressions =>
    have htake : Emits emit (expressions.take quasis.length) :=
      fun c hc => hchild c (List.mem_of_mem_take hc)
    simp only [stepsBy, mapM_emit htake, stepsEach_take, templateBody_take, Option.bind_eq_bind,
      Option.bind_some, Option.pure_def]
    rfl
  | classDefinition role id superClass body =>
    obtain ⟨hsuper, hbody⟩ := emits_append.1 hchild
    simp only [stepsBy, mapM_emit hbody, Option.bind_eq_bind, Option.pure_def]
    cases superClass with
    | none => rfl
    | some parent =>
      simp only [Option.mapM_some, (emits_cons.1 hsuper).1]
      rfl
  | _ =>
    simp only [children, emits_nil, emits_cons, emits_append, and_true] at hchild
    simp only [stepsBy, hchild, mapM_emit, optionMapM_emit, elementsBy_eq, Option.bind_eq_bind,
      Option.bind_some, Option.pure_def]
    rfl

end Calls

/-! ### Calls within a depth -/

/-- The steps of a node that is handed to an entry, if they need no more than `depth` calls one
inside the other.  An entry without a rule for the node hands it over. -/
def emitWithin : Nat → Entry → Node → Option (List CodeStep)
  | 0, _, _ => none
  | depth + 1, entry, n =>
    if entry.handles n.kind then n.stepsBy (emitWithin depth) else emitWithin depth entry.other n

/-- Two calls for each level of a tree are enough: a node is handed over once at most, and its rule
calls for lower nodes only. -/
lemma emitWithin_eq_some {n : Node} {depth : Nat} (h : 2 * n.height ≤ depth) (entry : Entry) :
    emitWithin depth entry n = some n.steps := by
  induction hheight : n.height using Nat.strongRecOn generalizing n depth entry with
  | ind height ih =>
    have hpos : 0 < n.height := by
      rw [n.height_eq]
      exact Nat.succ_pos _
    have hrule : ∀ depth, 2 * n.height ≤ depth + 2 → stepsBy (emitWithin depth) n = some n.steps :=
      fun depth hdepth => stepsBy_eq_some fun m hm entry =>
        ih m.height (hheight ▸ hm) (by omega) entry rfl
    obtain ⟨depth, rfl⟩ : ∃ k, depth = k + 2 := ⟨depth - 2, by omega⟩
    rw [emitWithin]
    split
    · exact hrule (depth + 1) (by omega)
    · next hother =>
      rw [emitWithin, if_pos (entry.handles_other n.kind (eq_false_of_ne_true hother))]
      exact hrule depth h

end Node

end BindingProxy
