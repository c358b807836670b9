import BindingProxy.Proofs.Grammar.Leads
import BindingProxy.Proofs.Grammar.Progress
import BindingProxy.Proofs.Tree.Scope

/-!
# How trees are put together

Every rule of the grammar puts its tree together from what other rules have read.
`Built k rule s n` says that a rule on `k` levels can come to the tree `n` in the scope `s`, and
has a constructor for each way in which it can.  Every rule reads such trees, provided that the rules
one level further in do; so what all trees have in common that are ever read follows by induction on
how they are put together, without another look at the rules.

A tree takes over from the text `yield` and `await` only in the functions that have them, names, the
spellings of literals and the parts of templates.  The names that lead expression statements, the
bodies of arrow functions and the operands of the two words are whole, or all there is of the
expression, and an `else` belongs to the nearest `if` that can take it.
-/

namespace BindingProxy

/-- The scope of what is read in a context. -/
def Context.scope (ctx : Context) : Scope := ⟨ctx.inAsync, ctx.inGenerator⟩

@[simp]
lemma Context.scope_allowIn (ctx : Context) : ctx.allowIn.scope = ctx.scope := rfl

/-- The elements of a literal or a pattern are its children. -/
lemma Node.forall_mem_filterMap {P : Node → Prop} {es : List (Option Node)} :
    (∀ e ∈ es.filterMap id, P e) ↔ ∀ o ∈ es, ∀ e ∈ o, P e := by
  simp only [List.mem_filterMap, id]
  exact ⟨fun h o ho e he => h e ⟨o, ho, he⟩, fun h e ⟨o, ho, he⟩ => h o ho e he⟩

namespace Grammar

open Parse Node

open Parse.Yields (keeps_reverse)

/-- What a tree can be read as.  The first six are the rules that count the nesting. -/
inductive Rule where
  | statement | target | assignment | operand | unary | construction
  | name
  | key (computed : Bool)
  | element | patternMember | block
  | function (role : Role) (id : Option String)
  | method
  | classDefinition (role : Role)
  | expression | argument | template | member
  /-- An operand with its links. -/
  | linked
  | binary | conditional | declarator | declaration | loopStart | handler | switchCase

/-- The trees that a rule on a number of levels comes to in a scope. -/
inductive Built : Nat → Rule → Scope → Node → Prop
  | name {k s w} (h : BeginsName w) : Built k .name s (.identifier w)
  | nameKey {k s n} (h : Built k .name s n) : Built k (.key false) s n
  | literalKey {k s kind raw} (hkind : kind = .string ∨ kind = .number) (h : IsSpelling kind raw) :
    Built k (.key false) s (.literal kind raw)
  | computedKey {k s n} (h : Built k .assignment s n) : Built k (.key true) s n
  -- Patterns; a rest element comes last.
  | nameElement {k s n} (h : Built k .name s n) : Built k .element s n
  | targetElement {k s n} (h : Built k .target s n) : Built k .element s n
  | defaulted {k s left right} (hleft : Built k .target s left)
    (hright : Built k .assignment s right) : Built k .element s (.defaulted left right)
  | patternPair {k s key value computed} (hkey : Built k (.key computed) s key)
    (hvalue : Built k .element s value) :
    Built k .patternMember s (.property key value .init computed false false)
  | patternName {k s key} (hkey : Built k .name s key) :
    Built k .patternMember s (.property key key .init false true false)
  | patternDefault {k s key right} (hkey : Built k .name s key)
    (hright : Built k .assignment s right) :
    Built k .patternMember s (.property key (.defaulted key right) .init false true false)
  | nameTarget {k s n} (h : Built k .name s n) : Built (k + 1) .target s n
  | arrayPattern {k s elements} {rest : Option Node}
    (helements : ∀ o ∈ elements, ∀ n ∈ o, Built k .element s n)
    (hrest : ∀ n ∈ rest, Built k .target s n) :
    Built (k + 1) .target s (.arrayPattern (elements ++ rest.toList.map fun n => some (.rest n)))
  | objectPattern {k s members} {rest : Option Node}
    (hmembers : ∀ n ∈ members, Built k .patternMember s n)
    (hrest : ∀ n ∈ rest, Built k .name s n) :
    Built (k + 1) .target s (.objectPattern (members ++ rest.toList.map .rest))
  -- Functions and classes
  | block {k s body} (hbody : ∀ n ∈ body, Built k .statement s n) :
    Built k .block s (.block body)
  | function {k s role id params body isAsync isGenerator} {rest : Option Node}
    (hid : (role == .expression || id.isSome) = true)
    (hparams : ∀ n ∈ params, Built k .element ⟨isAsync, isGenerator⟩ n)
    (hrest : ∀ n ∈ rest, Built k .target ⟨isAsync, isGenerator⟩ n)
    (hbody : Built k .block ⟨isAsync, isGenerator⟩ body) :
    Built k (.function role id) s
      (.function role id (params ++ rest.toList.map .rest) body isAsync isGenerator)
  | method {k s key value kind computed isStatic} (hkey : Built k (.key computed) s key)
    (hvalue : Built k (.function .expression none) s value) :
    Built k .method s (.method key value kind computed isStatic)
  | classDefinition {k s role id superClass body} (hid : (role == .expression || id.isSome) = true)
    (hsuper : ∀ n ∈ superClass, Built k .linked s n)
    (hbody : ∀ n ∈ body, Built k .method s n) :
    Built k (.classDefinition role) s (.classDefinition role id superClass body)
  -- Lists and literals
  | single {k s n} (h : Built k .assignment s n) : Built k .expression s n
  | sequence {k s es} (hlength : 2 ≤ es.length) (hes : ∀ n ∈ es, Built k .assignment s n) :
    Built k .expression s (.sequence es)
  | argument {k s n} (h : Built k .assignment s n) : Built k .argument s n
  | spread {k s n} (h : Built k .assignment s n) : Built k .argument s (.spread n)
  | template {k s quasis es} (hlength : quasis.length = es.length + 1)
    (hquasis : ∀ q ∈ quasis, IsChunk q) (hes : ∀ n ∈ es, Built k .expression s n) :
    Built k .template s (.template quasis es)
  | spreadMember {k s n} (h : Built k .assignment s n) : Built k .member s (.spread n)
  | functionMember {k s key value kind computed isMethod}
    (hkind : (kind != .init || isMethod) = true) (hkey : Built k (.key computed) s key)
    (hvalue : Built k (.function .expression none) s value) :
    Built k .member s (.property key value kind computed false isMethod)
  | pair {k s key value computed} (hkey : Built k (.key computed) s key)
    (hvalue : Built k .assignment s value) :
    Built k .member s (.property key value .init computed false false)
  | nameMember {k s key} (hkey : Built k .name s key) :
    Built k .member s (.property key key .init false true false)
  | cover {k s key value} (hkey : Built k .name s key)
    (hvalue : Built k .assignment s value) :
    Built k .member s (.property key (.defaulted key value) .init false true false)
  -- Operands
  | nameOperand {k s n} (h : Built k .name s n) : Built k .linked s n
  | literal {k s kind raw} (h : IsSpelling kind raw) : Built k .linked s (.literal kind raw)
  | templateOperand {k s n} (h : Built k .template s n) : Built k .linked s n
  | thisValue {k s} : Built k .linked s .thisValue
  | superValue {k s} : Built k .linked s .superValue
  | parenthesized {k s n} (h : Built k .expression s n) : Built k .linked s n
  | array {k s elements} (helements : ∀ o ∈ elements, ∀ n ∈ o, Built k .argument s n) :
    Built k .linked s (.array elements)
  | object {k s members} (hmembers : ∀ n ∈ members, Built k .member s n) :
    Built k .linked s (.object members)
  | functionOperand {k s n id} (h : Built k (.function .expression id) s n) :
    Built k .linked s n
  | classOperand {k s n} (h : Built k (.classDefinition .expression) s n) :
    Built k .linked s n
  | constructed {k s n} (h : Built k .construction s n) : Built k .linked s n
  | dot {k s owner key optional} (howner : Built k .linked s owner)
    (hkey : Built k .name s key) : Built k .linked s (.member owner key false optional)
  | index {k s owner key optional} (howner : Built k .linked s owner)
    (hkey : Built k .expression s key) :
    Built k .linked s (.member owner key true optional)
  | call {k s callee arguments optional} (hcallee : Built k .linked s callee)
    (harguments : ∀ n ∈ arguments, Built k .argument s n) :
    Built k .linked s (.call callee arguments optional)
  | taggedTemplate {k s tag quasi} (htag : Built k .linked s tag)
    (hquasi : Built k .template s quasi) : Built k .linked s (.taggedTemplate tag quasi)
  | newTarget {k s} : Built (k + 1) .construction s
    (.member (.identifier "new") (.identifier "target") false false)
  | construction {k s callee arguments} (hcallee : Built k .linked s callee)
    (harguments : ∀ n ∈ arguments, Built k .argument s n) :
    Built (k + 1) .construction s (.construction callee arguments)
  -- Operators
  | linkedUnary {k s n} (h : Built k .linked s n) : Built (k + 1) .unary s n
  | updateAfter {k s n operator} (hplace : n.isPlace = true) (h : Built k .linked s n) :
    Built (k + 1) .unary s (.update operator false n)
  | updateBefore {k s n operator} (hplace : n.isPlace = true) (h : Built k .unary s n) :
    Built (k + 1) .unary s (.update operator true n)
  | unary {k s n operator} (h : Built k .unary s n) :
    Built (k + 1) .unary s (.unary operator n)
  | awaiting {k s n} (hs : s.inAsync = true) (hheaded : n.Headed) (h : Built k .unary s n) :
    Built (k + 1) .unary s (.awaiting n)
  | first {k s n} (h : Built k .unary s n) : Built k .binary s n
  | joined {k s left right operator} (hleft : Built k .binary s left)
    (hright : Built k .operand s right) :
    Built k .binary s (joinOperands operator left right)
  | operand {k s n} (h : Built k .binary s n) : Built (k + 1) .operand s n
  | unconditional {k s n} (h : Built k .binary s n) : Built k .conditional s n
  | conditional {k s test consequent alternate} (htest : Built k .binary s test)
    (hconsequent : Built k .assignment s consequent)
    (halternate : Built k .assignment s alternate) :
    Built k .conditional s (.conditional test consequent alternate)
  -- Arrow functions and assignments
  | unassigned {k s n} (h : Built k .conditional s n) : Built (k + 1) .assignment s n
  | assignment {k s left target right operator} (hleft : Built k .conditional s left)
    (htarget : assignmentTarget operator left = .ok target)
    (hright : Built k .assignment s right) :
    Built (k + 1) .assignment s (.assignment operator target right)
  | arrowBlock {k s params body isAsync} {rest : Option Node}
    (hparams : ∀ n ∈ params, Built k .element s n) (hrest : ∀ n ∈ rest, Built k .target s n)
    (hbody : Built k .block ⟨isAsync, false⟩ body) :
    Built (k + 1) .assignment s
      (.arrow (params ++ rest.toList.map .rest) body false isAsync)
  | arrowValue {k s params body isAsync} {rest : Option Node}
    (hparams : ∀ n ∈ params, Built k .element s n) (hrest : ∀ n ∈ rest, Built k .target s n)
    (hheaded : body.Headed) (hbody : Built k .assignment ⟨isAsync, false⟩ body) :
    Built (k + 1) .assignment s (.arrow (params ++ rest.toList.map .rest) body true isAsync)
  | yielding {k s} (hs : s.inGenerator = true) : Built (k + 1) .assignment s (.yielding none false)
  | yieldingValue {k s n delegate} (hs : s.inGenerator = true) (hheaded : n.Headed)
    (h : Built k .assignment s n) : Built (k + 1) .assignment s (.yielding (some n) delegate)
  -- Statements
  | declarator {k s id init} (hid : Built k .target s id)
    (hinit : ∀ n ∈ init, Built k .assignment s n) : Built k .declarator s (.declarator id init)
  | declaration {k s kind ds} (hne : ds ≠ []) (hds : ∀ n ∈ ds, Built k .declarator s n) :
    Built k .declaration s (.declaration kind ds)
  | declarationStart {k s n} (h : Built k .declaration s n) : Built k .loopStart s n
  | expressionStart {k s n} (h : Built k .expression s n) : Built k .loopStart s n
  | handler {k s param body} (hparam : ∀ n ∈ param, Built k .target s n)
    (hbody : Built k .block s body) : Built k .handler s (.handler param body)
  | switchCase {k s test body} (htest : ∀ n ∈ test, Built k .expression s n)
    (hbody : ∀ n ∈ body, Built k .statement s n) :
    Built k .switchCase s (.switchCase test body)
  | empty {k s} : Built (k + 1) .statement s .empty
  | debugger {k s} : Built (k + 1) .statement s .debugger
  | jump {k s jump label} : Built (k + 1) .statement s (.jump jump label)
  | blockStatement {k s n} (h : Built k .block s n) : Built (k + 1) .statement s n
  | variableStatement {k s n} (h : Built k .declaration s n) : Built (k + 1) .statement s n
  | functionStatement {k s n id} (h : Built k (.function .declaration id) s n) :
    Built (k + 1) .statement s n
  | classStatement {k s n} (h : Built k (.classDefinition .declaration) s n) :
    Built (k + 1) .statement s n
  | expressionStatement {k s n} (hheaded : n.Headed) (h : Built k .expression s n) :
    Built (k + 1) .statement s (.expressionStatement n)
  | conditionalStatement {k s test consequent alternate} (htest : Built k .expression s test)
    (hconsequent : Built k .statement s consequent)
    (halternate : ∀ n ∈ alternate, Built k .statement s n)
    (hkeeps : (Node.conditionalStatement test consequent alternate).KeepsElse) :
    Built (k + 1) .statement s (.conditionalStatement test consequent alternate)
  | whileLoop {k s test body} (htest : Built k .expression s test)
    (hbody : Built k .statement s body) : Built (k + 1) .statement s (.whileLoop test body)
  | doWhileLoop {k s test body} (htest : Built k .expression s test)
    (hbody : Built k .statement s body) : Built (k + 1) .statement s (.doWhileLoop body test)
  | forLoop {k s init test step body} (hinit : ∀ n ∈ init, Built k .loopStart s n)
    (htest : ∀ n ∈ test, Built k .expression s n)
    (hstep : ∀ n ∈ step, Built k .expression s n) (hbody : Built k .statement s body) :
    Built (k + 1) .statement s (.forLoop init test step body)
  | forEach {k s iteration left target right body} (hleft : Built k .loopStart s left)
    (htarget : loopTarget left = .ok target) (hright : Built k .expression s right)
    (hbody : Built k .statement s body) :
    Built (k + 1) .statement s (.forEach iteration target right body)
  | switch {k s discriminant branches} (hdiscriminant : Built k .expression s discriminant)
    (hbranches : ∀ n ∈ branches, Built k .switchCase s n) :
    Built (k + 1) .statement s (.switch discriminant branches)
  | returning {k s argument} (h : ∀ n ∈ argument, Built k .expression s n) :
    Built (k + 1) .statement s (.returning argument)
  | throwing {k s n} (h : Built k .expression s n) : Built (k + 1) .statement s (.throwing n)
  | guarded {k s body recovery finalizer} (hbody : Built k .block s body)
    (hrecovery : ∀ n ∈ recovery, Built k .handler s n)
    (hfinalizer : ∀ n ∈ finalizer, Built k .block s n)
    (hsome : (recovery.isSome || finalizer.isSome) = true) :
    Built (k + 1) .statement s (.guarded body recovery finalizer)
  | labeled {k s label body} (hbody : Built k .statement s body) :
    Built (k + 1) .statement s (.labeled label body)

/-- What is assigned to is the left side, or what becomes of it. -/
lemma eq_or_toTarget_of_assignmentTarget {operator : AssignmentOperator} {left target : Node}
    (h : assignmentTarget operator left = .ok target) : target = left ∨ left.toTarget = .ok target := by
  unfold assignmentTarget at h
  split at h
  · exact .inr h
  · split at h
    · exact .inl (Except.ok.inj h).symm
    · cases h

lemma eq_or_toTarget_of_loopTarget {left target : Node} (h : loopTarget left = .ok target) :
    target = left ∨ left.toTarget = .ok target := by
  unfold loopTarget at h
  split at h
  · exact .inl (Except.ok.inj h).symm
  · cases h
  · exact .inr h

/-! ### Lists -/

section Lists

variable {α : Type} {P : α → Prop} {Q : Node → Prop} {S : List α → Prop} {m : Node → α}
  {found : List α}

/-- Items after which a rest element may stand. -/
def Trailed (m : Node → α) (P : α → Prop) (Q : Node → Prop) (items : List α) : Prop :=
  ∃ front, ∃ rest : Option Node, items = front ++ rest.toList.map m ∧ (∀ a ∈ front, P a) ∧
    ∀ n ∈ rest, Q n

/-- Items that were collected in reverse. -/
lemma Trailed.reverse (hfound : ∀ a ∈ found, P a) : Trailed m P Q found.reverse :=
  ⟨found.reverse, none, by simp, by simpa using hfound, by simp⟩

lemma Trailed.reverse_cons {n : Node} (hfound : ∀ a ∈ found, P a) (hn : Q n) :
    Trailed m P Q (m n :: found).reverse :=
  ⟨found.reverse, some n, by simp, by simpa using hfound, by simpa using hn⟩

/-- The end of a turn that another item may follow. -/
lemma obtains_comma (hfound : ∀ a ∈ found, P a) (hdone : S found.reverse) :
    Obtains (do if ← accept .comma then return Turn.again found else return Turn.done found.reverse)
      (Turn.Keeps (fun found => ∀ a ∈ found, P a) S) :=
  .ifAccept (.pure hfound) (.pure hdone)

lemma forall_mem_reverse (hfound : ∀ a ∈ found, P a) : ∀ a ∈ found.reverse, P a :=
  fun a ha => hfound a (List.mem_reverse.1 ha)

end Lists

/-- An expression with what is known of the name that leads it. -/
def BuiltLed (k : Nat) (rule : Rule) (s : Scope) (n : Node) (c : Cursor) : Prop :=
  Built k rule s n ∧ n.Led c

/-- An expression that neither a name nor a literal leads. -/
def BuiltUnled (k : Nat) (rule : Rule) (s : Scope) (n : Node) : Prop :=
  Built k rule s n ∧ n.lead? = none

/-- A statement with what is known of an `else` after it. -/
def BuiltTaking (k : Nat) (s : Scope) (n : Node) (c : Cursor) : Prop :=
  Built k .statement s n ∧ n.TakesElse c

/-- A statement that would take no `else`. -/
def BuiltClosed (k : Nat) (s : Scope) (n : Node) : Prop :=
  Built k .statement s n ∧ n.endsOpen = false

/-- The rules of a level read what they can put together. -/
structure Builds (g : Grammar) (k : Nat) : Prop where
  advancing : g.Advancing
  taking (ctx : Context) : Reaches (g.statement ctx) (BuiltTaking k ctx.scope)
  target (ctx : Context) : Obtains (g.target ctx) (Built k .target ctx.scope)
  assignmentLed (ctx : Context) : Reaches (g.assignment ctx) (BuiltLed k .assignment ctx.scope)
  operand (limit : Nat) (ctx : Context) : Obtains (g.operand limit ctx) (Built k .operand ctx.scope)
  unaryLed (ctx : Context) : Reaches (g.unary ctx) (BuiltLed k .unary ctx.scope)
  constructionLed (ctx : Context) :
    Reaches (g.construction ctx) (BuiltLed k .construction ctx.scope)

section Following

variable {k : Nat} {rule : Rule} {s : Scope} {p : Parse Node}

lemma built_of_led (h : Reaches p (BuiltLed k rule s)) : Obtains p (Built k rule s) :=
  h.obtains fun _ _ hn => hn.1

lemma headed_of_led (h : Reaches p (BuiltLed k rule s)) :
    Obtains p fun n => Built k rule s n ∧ n.Headed :=
  h.obtains fun _ _ hn => ⟨hn.1, hn.2.headed⟩

lemma led_of_unled (h : Obtains p (BuiltUnled k rule s)) : Reaches p (BuiltLed k rule s) := by
  refine .of_obtains h fun n c hn => ⟨hn.1, fun w hw => ?_⟩
  rw [hn.2] at hw
  cases hw

/-- An expression that goes on after its first part, before the end of the text. -/
lemma led_of_front {front : Node} {c d : Cursor} (hfront : front.Led d)
    (hkind : d.token.kind ≠ .endOfText) (hc : c.Flawless)
    (h : Obtains p fun n => Built k rule s n ∧ n.lead? = front.lead?) :
    ReadsTo p c fun n c' => c'.Flawless ∧ BuiltLed k rule s n c' :=
  (h c hc).mono fun _ c' hn => ⟨hn.1, hn.2.1, hfront.extend hkind hn.2.2 c'⟩

lemma taking_of_closed (h : Obtains p (BuiltClosed k s)) : Reaches p (BuiltTaking k s) :=
  .of_obtains h fun _ _ hn => ⟨hn.1, fun hopen => absurd (hn.2.symm.trans hopen) (by simp)⟩

end Following

variable {g : Grammar} {k : Nat} (hg : g.Builds k) (ctx : Context)

include hg

lemma Builds.statement : Obtains (g.statement ctx) (Built k .statement ctx.scope) :=
  (hg.taking ctx).obtains fun _ _ h => h.1

lemma Builds.assignment : Obtains (g.assignment ctx) (Built k .assignment ctx.scope) :=
  built_of_led (hg.assignmentLed ctx)

lemma Builds.unary : Obtains (g.unary ctx) (Built k .unary ctx.scope) :=
  built_of_led (hg.unaryLed ctx)

omit hg

/-! ### Patterns -/

lemma readsTo_literalToken (kind : LiteralKind) {c : Cursor} (hc : c.Flawless)
    (hkind : c.token.kind ∈ kind.tokenKinds) : ReadsTo (literalToken kind) c fun n c' =>
      c'.Flawless ∧ ∃ raw, n = .literal kind raw ∧ IsSpelling kind raw :=
  .token (ReadsTo.advance.bind fun _ _ hnext => .pure ⟨.next hnext, _, rfl, c, hc, hkind, rfl⟩)

lemma obtains_word (s : Scope) : Obtains word fun w => Built k .name s (.identifier w) := by
  refine .of_readsTo advances_word.follows fun c hc => ?_
  refine .token (.ite (fun hkind => ReadsTo.advance.bind fun _ _ _ => .pure ?_) fun _ => .reject)
  have hword := hc.readsWord hkind
  rw [hword.value]
  exact .name hword.head

lemma obtains_name (s : Scope) : Obtains name fun w => Built k .name s (.identifier w) :=
  .of_readsTo advances_name.follows fun _ hc => (readsTo_name hc).mono fun _ _ h => .name h.2.1.head

include hg

lemma obtains_propertyKey :
    Obtains (propertyKey g ctx) fun key => Built k (.key key.2) ctx.scope key.1 := by
  intro c hc
  refine .kind ?_
  split
  · next hkind =>
    refine (readsTo_literalToken .string hc (by simp [hkind, LiteralKind.tokenKinds])).bind ?_
    rintro _ _ ⟨hc', raw, rfl, hraw⟩
    exact .pure ⟨hc', .literalKey (.inl rfl) hraw⟩
  · next hkind =>
    refine (readsTo_literalToken .number hc (by simp [hkind, LiteralKind.tokenKinds])).bind ?_
    rintro _ _ ⟨hc', raw, rfl, hraw⟩
    exact .pure ⟨hc', .literalKey (.inr rfl) hraw⟩
  · refine Obtains.after .advance (fun _ => ?_) c hc
    exact .bind (hg.assignment _) fun _ h => .afterExpect fun _ => .pure (.computedKey h)
  · refine Obtains.ite (fun _ => ?_) (fun _ => .reject) c hc
    exact .bind (obtains_word ctx.scope) fun _ h => .pure (.nameKey h)

lemma obtains_withDefault {target : Node} (htarget : Built k .target ctx.scope target) :
    Obtains (withDefault g ctx target) (Built k .element ctx.scope) :=
  .ifAccept (.bind (hg.assignment _) fun _ h => .pure (.defaulted htarget h))
    (.pure (.targetElement htarget))

lemma obtains_bindingElement : Obtains (bindingElement g ctx) (Built k .element ctx.scope) :=
  .bind (hg.target ctx) fun _ htarget => obtains_withDefault hg ctx htarget

lemma obtains_parameters : Obtains (parameters g ctx)
    (Trailed .rest (Built k .element ctx.scope) (Built k .target ctx.scope)) := by
  refine .afterExpect fun _ => .bind (.collect (P := Built k .element ctx.scope) ?_)
    fun params hparams => .afterExpect fun _ => .pure hparams
  intro found hfound
  refine .ifAt (.pure (.reverse hfound)) ?_
  refine .ifAccept ?_ ?_
  · exact .bind (hg.target _) fun _ h => .pure (.reverse_cons hfound h)
  · refine .bind (obtains_bindingElement hg _) fun e he => ?_
    have hfound := List.forall_mem_cons.2 ⟨he, hfound⟩
    exact obtains_comma hfound (.reverse hfound)

lemma obtains_arrayPattern : Obtains (arrayPattern g ctx) (Built (k + 1) .target ctx.scope) := by
  refine .afterExpect fun _ => .bind (.collect (P := fun o => ∀ n ∈ o, Built k .element ctx.scope n)
    (S := Trailed (fun n => some (.rest n)) (fun o => ∀ n ∈ o, Built k .element ctx.scope n)
      (Built k .target ctx.scope)) ?_) ?_
  · intro found hfound
    refine .ifAt (.pure (.reverse hfound)) ?_
    refine .ifAccept ?_ ?_
    · exact .pure (List.forall_mem_cons.2 ⟨by simp, hfound⟩)
    refine .ifAccept ?_ ?_
    · refine .bind (hg.target _) fun n h => .pure ?_
      exact Trailed.reverse_cons (m := fun n => some (.rest n)) hfound h
    · refine .bind (obtains_bindingElement hg _) fun e he => ?_
      have hfound : ∀ o ∈ some e :: found, ∀ n ∈ o, Built k .element ctx.scope n :=
        List.forall_mem_cons.2 ⟨by simpa using he, hfound⟩
      exact obtains_comma hfound (.reverse hfound)
  · rintro _ ⟨elements, rest, rfl, helements, hrest⟩
    exact .afterExpect fun _ => .pure (.arrayPattern helements hrest)

omit hg in
/-- A key that is a name by itself. -/
lemma built_name_of_key {s : Scope} {key : Node} {w : String} {computed keyIsName : Bool}
    (h : Built k (.key computed) s key) (hkey : key = .identifier w)
    (hname : (keyIsName && !computed) = true) : computed = false ∧ Built k .name s key := by
  cases computed with
  | true => simp at hname
  | false =>
    subst hkey
    cases h with
    | nameKey h => exact ⟨rfl, h⟩

lemma obtains_patternMember :
    Obtains (patternMember g ctx) (Built k .patternMember ctx.scope) := by
  refine .after .kind fun _ => .bind (obtains_propertyKey hg ctx) fun key hkey => ?_
  refine .ifAccept ?_ ?_
  · exact .bind (obtains_bindingElement hg ctx) fun _ h => .pure (.patternPair hkey h)
  · split
    · next hw hname =>
      obtain ⟨hcomputed, hkey⟩ := built_name_of_key hkey hw hname
      rw [hcomputed, ← hw]
      refine .bind (.ifAccept (.bind (hg.assignment _) fun r hr => .pure ?_) (.pure ?_)) fun value
        (h : Built k .patternMember ctx.scope (.property key.1 value .init false true false)) =>
        .pure h
      · exact .patternDefault hkey hr
      · exact .patternName hkey
    · exact .reject

lemma obtains_objectPattern : Obtains (objectPattern g ctx) (Built (k + 1) .target ctx.scope) := by
  refine .afterExpect fun _ => .bind (.collect (P := Built k .patternMember ctx.scope)
    (S := Trailed .rest (Built k .patternMember ctx.scope) (Built k .name ctx.scope)) ?_) ?_
  · intro found hfound
    refine .ifAt (.pure (.reverse hfound)) ?_
    refine .ifAccept ?_ ?_
    · exact .bind (obtains_name ctx.scope) fun _ h => .pure (.reverse_cons hfound h)
    · refine .bind (obtains_patternMember hg _) fun m hm => ?_
      have hfound := List.forall_mem_cons.2 ⟨hm, hfound⟩
      exact obtains_comma hfound (.reverse hfound)
  · rintro _ ⟨members, rest, rfl, hmembers, hrest⟩
    exact .afterExpect fun _ => .pure (.objectPattern hmembers hrest)

lemma obtains_bindingTarget : Obtains (bindingTarget g ctx) (Built (k + 1) .target ctx.scope) := by
  refine .after .kind fun _ => ?_
  split
  · exact obtains_arrayPattern hg ctx
  · exact obtains_objectPattern hg ctx
  · exact .bind (obtains_name _) fun _ h => .pure (.nameTarget h)

/-! ### Functions and classes -/

lemma obtains_block : Obtains (block g ctx) (Built k .block ctx.scope) := by
  refine .afterExpect fun _ => .bind (.collect (P := Built k .statement ctx.scope)
    (S := fun body => ∀ n ∈ body, Built k .statement ctx.scope n) ?_) fun body hbody =>
      .after .advance fun _ => .pure (.block hbody)
  intro found hfound
  refine .ifAt (.pure (keeps_reverse hfound)) ?_
  refine .ifAt .rejectThen ?_
  exact .bind (hg.statement ctx) fun _ h => .pure (List.forall_mem_cons.2 ⟨h, hfound⟩)

omit hg in
/-- A declaration has a name. -/
lemma obtains_optionalName (role : Role) (missing : SyntaxCause) :
    Obtains (optionalName role missing) fun id => (role == .expression || id.isSome) = true := by
  refine .of_readsTo (follows_optionalName role missing) fun _ _ => .of_yields ?_
  refine .after fun _ => .ite (.after fun _ => .pure (by simp)) ?_
  cases role with
  | declaration => exact .reject
  | expression => exact .pure rfl

lemma obtains_function {role : Role} {id : Option String}
    (hid : (role == .expression || id.isSome) = true) (isAsync isGenerator : Bool) (s : Scope) :
    Obtains (do
      let (params, body) ← functionRest g isAsync isGenerator
      return Node.function role id params body isAsync isGenerator) (Built k (.function role id) s) := by
  have hrest : Obtains (functionRest g isAsync isGenerator) fun rest =>
      Built k (.function role id) s (.function role id rest.1 rest.2 isAsync isGenerator) := by
    refine .bind (obtains_parameters hg _) ?_
    rintro _ ⟨params, rest, rfl, hparams, hrest⟩
    exact .bind (obtains_block hg _) fun _ hbody => .pure (.function hid hparams hrest hbody)
  exact .bind hrest fun _ h => .pure h

lemma obtains_functionDefinition (role : Role) (isAsync : Bool) (s : Scope) :
    Obtains (functionDefinition g role isAsync) fun n => ∃ id, Built k (.function role id) s n := by
  refine .after (.expectWord _) fun _ => .after (.accept _) fun isGenerator => ?_
  exact .bind (obtains_optionalName role _) fun id hid =>
    (obtains_function hg hid isAsync isGenerator s).mono fun _ h => ⟨id, h⟩

lemma obtains_methodFunction (isAsync isGenerator : Bool) (s : Scope) :
    Obtains (methodFunction g isAsync isGenerator) (Built k (.function .expression none) s) :=
  obtains_function hg rfl isAsync isGenerator s

lemma obtains_classMember : Obtains (classMember g ctx) (Built k .method ctx.scope) := by
  refine .after (follows_acceptModifier _) fun _ => .after follows_modifiers fun m => ?_
  refine .bind (obtains_propertyKey hg ctx) fun key hkey => .after (.isAt _) fun _ => ?_
  refine .ite (fun _ => ?_) fun _ => .rejectThen
  exact .bind (obtains_methodFunction hg _ _ ctx.scope) fun _ h => .pure (.method hkey h)

lemma obtains_classDefinition {heritage : Parse Node}
    (hheritage : Obtains heritage (Built k .linked ctx.scope)) (role : Role) :
    Obtains (classDefinition g ctx heritage role) (Built k (.classDefinition role) ctx.scope) := by
  refine .after (.expectWord _) fun _ => ?_
  refine .bind (obtains_optionalName role _) fun id hid => .after (.acceptWord _) fun _ => ?_
  extract_lets rest
  have hrest : ∀ superClass : Option Node, (∀ n ∈ superClass, Built k .linked ctx.scope n) →
      Obtains (rest superClass) (Built k (.classDefinition role) ctx.scope) := by
    intro superClass hsuper
    refine .afterExpect fun _ => .bind (.collect (P := Built k .method ctx.scope)
      (S := fun body => ∀ n ∈ body, Built k .method ctx.scope n) ?_) fun body hbody =>
        .after .advance fun _ => .pure (.classDefinition hid hsuper hbody)
    intro found hfound
    refine .ifAt (.pure (keeps_reverse hfound)) ?_
    refine .ifAccept (.pure hfound) ?_
    refine .ifAt .rejectThen ?_
    exact .bind (obtains_classMember hg ctx) fun _ h => .pure (List.forall_mem_cons.2 ⟨h, hfound⟩)
  exact .ite (fun _ => .bind (.map hheritage fun _ h => by simpa using h) hrest) fun _ =>
    .bind (.pure (by simp)) hrest

/-! ### Lists and literals -/

/-- Where a comma follows the first expression, at least one more is read. -/
lemma led_expression : Reaches (expression g ctx) (BuiltLed k .expression ctx.scope) := by
  intro c hc
  refine (hg.assignmentLed ctx c hc).bind fun first c₁ ⟨hc₁, hfirst, hled⟩ => ?_
  refine .ifAt (fun hcomma => ?_) fun _ => .pure ⟨hc₁, .single hfirst, hled⟩
  refine ReadsTo.bind (.repeatFrom (I := fun found c => c.Flawless ∧
    (∀ n ∈ found, Built k .assignment ctx.scope n) ∧ 0 < found.length ∧
      (2 ≤ found.length ∨ c.token.kind = .punctuator .comma)) (S := fun es c => c.Flawless ∧
    (∀ n ∈ es, Built k .assignment ctx.scope n) ∧ 2 ≤ es.length) ?_ ?_) fun es c' h =>
      .pure ⟨h.1, .sequence h.2.2 h.2.1, by rintro _ ⟨⟩⟩
  · exact ⟨hc₁, by simpa using hfirst, by simp, .inr hcomma⟩
  · rintro found c ⟨hc, hfound, hlength, hmore⟩
    refine .ifAccept (fun _ c' hnext => ?_) fun hkind => .pure ⟨hc, forall_mem_reverse hfound, ?_⟩
    · refine (hg.assignment ctx c' (.next hnext)).bind fun e c'' he => .pure ⟨he.1, ?_⟩
      exact ⟨List.forall_mem_cons.2 ⟨he.2, hfound⟩, by simp, .inl (by simp; omega)⟩
    · simpa using hmore.resolve_right hkind

lemma obtains_expression : Obtains (expression g ctx) (Built k .expression ctx.scope) :=
  built_of_led (led_expression hg ctx)

lemma obtains_spreadOrAssignment :
    Obtains (spreadOrAssignment g ctx) (Built k .argument ctx.scope) :=
  .ifAccept (.bind (hg.assignment ctx) fun _ h => .pure (.spread h))
    ((hg.assignment ctx).mono fun _ h => .argument h)

lemma obtains_arguments :
    Obtains (arguments g ctx) fun found => ∀ n ∈ found, Built k .argument ctx.scope n := by
  refine .afterExpect fun _ => .bind (.collect (P := Built k .argument ctx.scope) ?_)
    fun found hfound => .afterExpect fun _ => .pure hfound
  intro found hfound
  refine .ifAt (.pure (keeps_reverse hfound)) ?_
  refine .bind (obtains_spreadOrAssignment hg _) fun e he => ?_
  have hfound := List.forall_mem_cons.2 ⟨he, hfound⟩
  exact obtains_comma hfound (forall_mem_reverse hfound)

lemma readsTo_templateLiteral {c : Cursor} (hc : c.Flawless) (hkind : c.token.kind.openingWidth = 1) :
    ReadsTo (templateLiteral g ctx) c fun n c' => c'.Flawless ∧ Built k .template ctx.scope n := by
  have hhead := List.forall_mem_singleton.2 (hc.isChunk hkind)
  refine .token (.ite (fun _ => ?_) fun _ => ?_)
  · refine (Obtains.bind (.repeatFrom (I := fun parts : List String × List Node =>
      parts.1.length = parts.2.length + 1 ∧ (∀ q ∈ parts.1, IsChunk q) ∧
        ∀ e ∈ parts.2, Built k .expression ctx.scope e) (S := fun parts : List String × List Node =>
      parts.1.length = parts.2.length + 1 ∧ (∀ q ∈ parts.1, IsChunk q) ∧
        ∀ e ∈ parts.2, Built k .expression ctx.scope e) ⟨rfl, hhead, by simp⟩ ?_) fun parts hparts =>
          .after .advance fun _ => .pure (.template hparts.1 hparts.2.1 hparts.2.2)) c hc
    rintro ⟨quasis, es⟩ ⟨hlength, hquasis, hes⟩
    refine .after .advance fun _ => .bind (obtains_expression hg _) fun e he c hc => ?_
    have hes := List.forall_mem_cons.2 ⟨he, hes⟩
    refine .ifAt (fun hbrace => ReadsTo.rereadBrace.bind fun _ c' hreread => .token ?_) fun _ =>
      Obtains.rejectThen c hc
    have hc' : c'.Flawless := .brace hc hreread hbrace
    have hwidth : c'.token.kind.openingWidth = 1 := by
      rcases Cursor.isTemplate_of_rereadBrace hreread hbrace with h | h <;> rw [h] <;> rfl
    have hquasis := List.forall_mem_cons.2 ⟨hc'.isChunk hwidth, hquasis⟩
    refine .ite (fun _ => .pure ⟨hc', ?_, forall_mem_reverse hquasis, forall_mem_reverse hes⟩)
      fun _ => .pure ⟨hc', ?_, hquasis, hes⟩
    · simpa using hlength
    · simpa using hlength
  · exact Obtains.after .advance (fun _ => .pure (.template rfl hhead (by simp))) c hc

lemma obtains_arrayLiteral : Obtains (arrayLiteral g ctx) (BuiltUnled k .linked ctx.scope) := by
  refine .afterExpect fun _ => .bind (.collect (P := fun o => ∀ n ∈ o, Built k .argument ctx.scope n)
    (S := fun elements => ∀ o ∈ elements, ∀ n ∈ o, Built k .argument ctx.scope n) ?_)
      fun elements helements => .afterExpect fun _ => .pure ⟨.array helements, rfl⟩
  intro found hfound
  refine .ifAt (.pure (keeps_reverse hfound)) ?_
  refine .ifAccept ?_ ?_
  · exact .pure (List.forall_mem_cons.2 ⟨by simp, hfound⟩)
  refine .bind (obtains_spreadOrAssignment hg _) fun e he => ?_
  have hfound : ∀ o ∈ some e :: found, ∀ n ∈ o, Built k .argument ctx.scope n :=
    List.forall_mem_cons.2 ⟨by simpa using he, hfound⟩
  exact obtains_comma hfound (forall_mem_reverse hfound)

lemma obtains_objectMember : Obtains (objectMember g ctx) (Built k .member ctx.scope) := by
  refine .ifAccept ?_ (.after follows_modifiers fun m => ?_)
  · exact .bind (hg.assignment ctx) fun _ h => .pure (.spreadMember h)
  split
  · refine .bind (obtains_propertyKey hg ctx) fun key hkey => ?_
    refine .bind (obtains_methodFunction hg _ _ ctx.scope) fun _ h => .pure (.functionMember ?_ hkey h)
    split <;> rfl
  · refine .after .kind fun _ => .bind (obtains_propertyKey hg ctx) fun key hkey => ?_
    refine .after (.isAt _) fun _ => .ite (fun _ => ?_) fun _ => .ifAccept ?_ ?_
    · exact .bind (obtains_methodFunction hg _ _ ctx.scope) fun _ h =>
        .pure (.functionMember rfl hkey h)
    · exact .bind (hg.assignment ctx) fun _ h => .pure (.pair hkey h)
    · split
      · next hw hname =>
        have hkey := hw ▸ (built_name_of_key hkey hw hname).2
        exact .ifAccept (.bind (hg.assignment ctx) fun _ h => .pure (.cover hkey h))
          (.pure (.nameMember hkey))
      · exact .reject

lemma obtains_objectLiteral : Obtains (objectLiteral g ctx) (BuiltUnled k .linked ctx.scope) := by
  refine .afterExpect fun _ => .bind (.collect (P := Built k .member ctx.scope)
    (S := fun members => ∀ n ∈ members, Built k .member ctx.scope n) ?_) fun members hmembers =>
      .afterExpect fun _ => .pure ⟨.object hmembers, rfl⟩
  intro found hfound
  refine .ifAt (.pure (keeps_reverse hfound)) ?_
  refine .bind (obtains_objectMember hg _) fun m hm => ?_
  have hfound := List.forall_mem_cons.2 ⟨hm, hfound⟩
  exact obtains_comma hfound (forall_mem_reverse hfound)

/-! ### Operands -/

/-- What stands in parentheses is followed by the closing one. -/
lemma led_parenthesized : Reaches (parenthesized g ctx) (BuiltLed k .expression ctx.scope) := by
  intro c _
  refine ReadsTo.expect.bind fun _ c₁ hopen => ?_
  refine (led_expression hg _ c₁ (.next hopen.2)).bind fun inner c₂ ⟨_, hinner, hled⟩ => ?_
  refine ReadsTo.expect.bind fun _ c₃ hclose => .pure ⟨.next hclose.2, hinner, ?_⟩
  exact hled.extend (by simp [hclose.1]) rfl c₃

lemma obtains_parenthesized : Obtains (parenthesized g ctx) (Built k .expression ctx.scope) :=
  built_of_led (led_parenthesized hg ctx)

omit hg in
/-- A literal as an operand. -/
lemma readsTo_literal (kind : LiteralKind) {c : Cursor} (hc : c.Flawless)
    (hkind : c.token.kind ∈ kind.tokenKinds) (s : Scope) :
    ReadsTo (literalToken kind) c fun n c' => c'.Flawless ∧ BuiltLed k .linked s n c' := by
  refine (readsTo_literalToken kind hc hkind).mono ?_
  rintro _ c' ⟨hc', raw, rfl, hraw⟩
  exact ⟨hc', .literal hraw, by rintro _ ⟨⟩⟩

omit hg in
/-- A number or a big integer is spelled as its token is. -/
lemma readsTo_numberLiteral {c : Cursor} (hc : c.Flawless) (hkind : c.token.kind = .number)
    (s : Scope) : ReadsTo numberLiteral c fun n c' => c'.Flawless ∧ BuiltLed k .linked s n c' := by
  refine .token (ReadsTo.advance.bind fun _ c' hnext => .pure ⟨.next hnext, .literal ?_, by rintro _ ⟨⟩⟩)
  refine ⟨c, hc, ?_, (hc.value_number hkind).symm⟩
  split <;> simp [hkind, LiteralKind.tokenKinds]

omit hg in
lemma readsTo_regExp {c : Cursor} (hc : c.Flawless) (s : Scope)
    (hkind : c.token.kind = .punctuator .slash ∨ c.token.kind = .punctuator .slashAssign) :
    ReadsTo (do rereadSlash; literalToken .regExp) c fun n c' =>
      c'.Flawless ∧ BuiltLed k .linked s n c' := by
  refine ReadsTo.rereadSlash.bind fun _ c' hreread =>
    readsTo_literal _ (.slash hc hreread hkind) ?_ s
  simp [(Cursor.kind_of_rereadSlash hreread hkind).2.2, LiteralKind.tokenKinds]

omit hg in
lemma led_name : Reaches (do return .identifier (← name)) (BuiltLed k .linked ctx.scope) := by
  intro c hc
  refine (readsTo_name hc).bind fun w c' ⟨hc', hname, hwhole⟩ =>
    .pure ⟨hc', .nameOperand (.name hname.head), ?_⟩
  rintro _ ⟨⟩
  exact .inr ⟨hname, hwhole.imp_right fun hend => ⟨rfl, hend⟩⟩

lemma led_primaryWith {heritage : Parse Node}
    (hheritage : Obtains heritage (Built k .linked ctx.scope)) :
    Reaches (primaryWith g ctx heritage) (BuiltLed k .linked ctx.scope) := by
  have hfunction : ∀ isAsync, Reaches (functionDefinition g .expression isAsync)
      (BuiltLed k .linked ctx.scope) := fun isAsync =>
    led_of_unled ((obtains_functionDefinition hg _ isAsync _).mono fun _ ⟨_, h⟩ =>
      ⟨.functionOperand h, by cases h; rfl⟩)
  intro c hc
  have hliteral : ∀ kind, c.token.kind ∈ LiteralKind.tokenKinds kind → ReadsTo (literalToken kind) c
      fun n c' => c'.Flawless ∧ BuiltLed k .linked ctx.scope n c' :=
    fun kind hkind => readsTo_literal kind hc hkind _
  have htemplate : c.token.kind.openingWidth = 1 → ReadsTo (templateLiteral g ctx) c
      fun n c' => c'.Flawless ∧ BuiltLed k .linked ctx.scope n c' := by
    refine fun hkind => (readsTo_templateLiteral hg ctx hc hkind).mono fun n _ h =>
      ⟨h.1, .templateOperand h.2, ?_⟩
    cases h.2
    rintro _ ⟨⟩
  refine .token ?_
  split
  · exact Reaches.after follows_isFunctionAhead (fun _ => .ite (fun _ =>
      .after .advance fun _ => hfunction true) fun _ => led_name ctx) c hc
  · exact led_name ctx c hc
  · exact led_name ctx c hc
  · next hkind => exact readsTo_numberLiteral hc hkind _
  case h_5 hkind | h_6 hkind | h_7 hkind | h_8 hkind =>
    exact hliteral _ (by simp [hkind, LiteralKind.tokenKinds])
  · next hkind => exact readsTo_regExp hc _ (.inl hkind)
  · next hkind => exact readsTo_regExp hc _ (.inr hkind)
  · next hkind => exact htemplate (by rw [hkind]; rfl)
  · next hkind => exact htemplate (by rw [hkind]; rfl)
  · exact led_of_unled (.after .advance fun _ => .pure ⟨.thisValue, rfl⟩) c hc
  · exact led_of_unled (.after .advance fun _ => .pure ⟨.superValue, rfl⟩) c hc
  · exact (led_parenthesized hg ctx c hc).mono fun _ _ h => ⟨h.1, .parenthesized h.2.1, h.2.2⟩
  · exact led_of_unled (obtains_arrayLiteral hg ctx) c hc
  · exact led_of_unled (obtains_objectLiteral hg ctx) c hc
  · exact hfunction false c hc
  · exact led_of_unled ((obtains_classDefinition hg ctx hheritage _).mono fun _ h =>
      ⟨.classOperand h, by cases h; rfl⟩) c hc
  · exact .unexpected

lemma obtains_index : Obtains (index g ctx) (Built k .expression ctx.scope) :=
  .after .advance fun _ => .bind (obtains_expression hg _) fun _ h => .afterExpect fun _ => .pure h

lemma obtains_optionalLink {owner : Node} (howner : Built k .linked ctx.scope owner) :
    Obtains (optionalLink g ctx owner) fun n =>
      Built k .linked ctx.scope n ∧ n.lead? = owner.lead? := by
  refine .after .kind fun _ => ?_
  split
  · exact .bind (obtains_arguments hg ctx) fun _ h => .pure ⟨.call howner h, rfl⟩
  · exact .bind (obtains_index hg ctx) fun _ h => .pure ⟨.index howner h, rfl⟩
  · exact .bind (obtains_word _) fun _ h => .pure ⟨.dot howner h, rfl⟩

/-- Links are added only where more than the end of the text follows. -/
lemma led_links (calls : Bool) {first : Node} {c : Cursor} (hc : c.Flawless)
    (hfirst : BuiltLed k .linked ctx.scope first c) :
    ReadsTo (links g ctx calls first) c fun n c' =>
      c'.Flawless ∧ BuiltLed k .linked ctx.scope n c' := by
  refine .repeatFrom (I := fun n c => c.Flawless ∧ BuiltLed k .linked ctx.scope n c) ⟨hc, hfirst⟩ ?_
  rintro owner c ⟨hc, howner, hled⟩
  refine .kind ?_
  -- Every link begins with a token of its own.
  have hlink : ∀ {p : Parse (Turn Node Node)}, c.token.kind ≠ .endOfText →
      ReadsTo p c (fun t c' => c'.Flawless ∧ Turn.Keeps
        (fun n => Built k .linked ctx.scope n ∧ n.lead? = owner.lead?) (fun _ => False) t) →
      ReadsTo p c (Turn.KeepsAt (fun n c => c.Flawless ∧ BuiltLed k .linked ctx.scope n c)
        fun n c => c.Flawless ∧ BuiltLed k .linked ctx.scope n c) := by
    refine fun hkind hp => hp.mono fun t c' ht => ?_
    cases t with
    | again n => exact ⟨ht.1, ht.2.1, hled.extend hkind ht.2.2 c'⟩
    | done n => exact ht.2.elim
  split
  · next hkind =>
    exact hlink (by simp [hkind]) (Obtains.after .advance (fun _ => .bind (obtains_word _)
      fun _ h => .pure ⟨.dot howner h, rfl⟩) c hc)
  · next hkind =>
    exact hlink (by simp [hkind]) (Obtains.bind (obtains_index hg ctx) (fun _ h =>
      .pure ⟨.index howner h, rfl⟩) c hc)
  · next hkind =>
    exact hlink (by simp [hkind]) (Obtains.after .advance (fun _ =>
      .bind (obtains_optionalLink hg ctx howner) fun _ h => .pure h) c hc)
  · next hkind =>
    exact hlink (by simp [hkind]) (Obtains.bind (obtains_arguments hg ctx) (fun _ h =>
      .pure ⟨.call howner h, rfl⟩) c hc)
  case h_5 hkind | h_6 hkind =>
    exact hlink (by simp [hkind]) ((readsTo_templateLiteral hg ctx hc (by rw [hkind]; rfl)).bind
      fun _ _ h => .pure ⟨h.1, .taggedTemplate howner h.2, rfl⟩)
  · exact .pure ⟨hc, howner, hled⟩

lemma led_leftHandSideWithin (bound : List Char) :
    Reaches (leftHandSideWithin g ctx bound) (BuiltLed k .linked ctx.scope) := by
  induction bound with
  | nil =>
    intro c _ a c' hok
    cases hok
  | cons _ bound ih =>
    refine fun c hc => .ifAt (fun _ => ?_) fun _ => ?_
    · exact (hg.constructionLed ctx c hc).bind fun _ _ h =>
        led_links hg ctx true h.1 ⟨.constructed h.2.1, h.2.2⟩
    · exact (led_primaryWith hg ctx (built_of_led ih) c hc).bind fun _ _ h =>
        led_links hg ctx true h.1 h.2

lemma led_leftHandSide : Reaches (leftHandSide g ctx) (BuiltLed k .linked ctx.scope) :=
  fun c hc => .congr (leftHandSide_apply g ctx c)
    (led_leftHandSideWithin hg ctx (tokenBound c) c hc)

/-- No name but the word itself leads a construction. -/
lemma led_newExpression :
    Reaches (newExpression g ctx) (BuiltLed (k + 1) .construction ctx.scope) := by
  have hall : Obtains (newExpression g ctx) fun n => Built (k + 1) .construction ctx.scope n ∧
      ∀ w, n.lead? = some (.identifier w) → w = "new" := by
    refine .after (.expectWord _) fun _ => .after (.accept _) fun _ => ?_
    refine .ite (fun _ => ?_) fun _ => .after (.isAt _) fun _ => ?_
    · refine .after advances_word.follows fun property =>
        .ite (fun htarget => ?_) fun _ => .rejectThen
      rw [htarget]
      exact .pure ⟨.newTarget, by rintro _ ⟨⟩; rfl⟩
    extract_lets afterFirst
    have hafterFirst : ∀ first c, c.Flawless → BuiltLed k .linked ctx.scope first c →
        ReadsTo (afterFirst first) c fun n c' => c'.Flawless ∧
          Built (k + 1) .construction ctx.scope n ∧ ∀ w, n.lead? = some (.identifier w) → w = "new" := by
      refine fun first c hc hfirst => (led_links hg ctx false hc hfirst).bind
        fun callee c' ⟨hc', hcallee, _⟩ => Obtains.after (.isAt _) (fun _ => ?_) c' hc'
      extract_lets afterArguments
      have hafter : ∀ found, (∀ n ∈ found, Built k .argument ctx.scope n) →
          Obtains (afterArguments found) fun n => Built (k + 1) .construction ctx.scope n ∧
            ∀ w, n.lead? = some (.identifier w) → w = "new" := fun found hfound =>
        .pure ⟨.construction hcallee hfound, by rintro _ ⟨⟩⟩
      exact .ite (fun _ => .bind (obtains_arguments hg ctx) hafter) fun _ =>
        .bind (.pure (by simp)) hafter
    refine .ite (fun _ c hc => ?_) fun _ c hc => ?_
    · exact (hg.constructionLed ctx c hc).bind fun n c' h =>
        hafterFirst n c' h.1 ⟨.constructed h.2.1, h.2.2⟩
    · exact (led_primaryWith hg ctx (built_of_led (led_leftHandSide hg ctx)) c hc).bind fun n c' h =>
        hafterFirst n c' h.1 h.2
  exact .of_obtains hall fun _ _ hn => ⟨hn.1, fun w hw => .inl (hn.2 w hw)⟩

/-! ### Operators -/

omit hg in
lemma readsTo_checkPlace (operand : Node) (c : Cursor) :
    ReadsTo (checkPlace operand) c fun _ c' => c' = c ∧ operand.isPlace = true := by
  unfold checkPlace
  by_cases h : operand.isPlace = true
  · rw [if_pos h]
    exact .pure ⟨rfl, h⟩
  · rw [if_neg h]
    exact .reject

lemma led_operandWithUpdate :
    Reaches (operandWithUpdate g ctx) (BuiltLed (k + 1) .unary ctx.scope) := by
  intro c hc
  refine (led_leftHandSide hg ctx c hc).bind fun operand c₁ ⟨hc₁, h, hled⟩ => .token ?_
  split
  · next hoperator _ =>
    have hkind : c₁.token.kind ≠ .endOfText := by
      intro hend
      rw [hend] at hoperator
      cases hoperator
    refine (readsTo_checkPlace operand c₁).bind ?_
    rintro _ _ ⟨rfl, hplace⟩
    exact led_of_front hled hkind hc₁ (.after .advance fun _ => .pure ⟨.updateAfter hplace h, rfl⟩)
  · exact .pure ⟨hc₁, .linkedUnary h, hled⟩

/-- An operator `await` is read where the context has it.  An update in front of a plain name is led
by the name. -/
lemma led_unaryExpression :
    Reaches (unaryExpression g ctx) (BuiltLed (k + 1) .unary ctx.scope) := by
  refine .after .kind fun _ => ?_
  split
  · exact led_of_unled (.after .advance fun _ => .bind (hg.unary ctx) fun _ h => .pure ⟨.unary h, rfl⟩)
  split
  · refine .after .advance fun _ c hc => ?_
    refine (hg.unaryLed ctx c hc).bind fun operand c₁ ⟨hc₁, h, hled⟩ => ?_
    refine (readsTo_checkPlace operand c₁).bind ?_
    rintro _ _ ⟨rfl, hplace⟩
    refine .pure ⟨hc₁, .updateBefore hplace h, fun w hw => ?_⟩
    cases operand with
    | identifier =>
      cases hw
      exact (hled _ rfl).imp_right fun ⟨hname, hwhole⟩ =>
        ⟨hname, hwhole.imp_right fun hend => ⟨rfl, hend.2⟩⟩
    | _ => cases hw
  refine .ite (fun hawait => ?_) fun _ => led_operandWithUpdate hg ctx
  exact led_of_unled (.after .advance fun _ => .bind (headed_of_led (hg.unaryLed ctx)) fun _ h =>
    .pure ⟨.awaiting hawait.2 h.2 h.1, rfl⟩)

lemma led_binaryExpression (limit : Nat) :
    Reaches (binaryExpression g limit ctx) (BuiltLed k .binary ctx.scope) := by
  intro c hc
  refine (hg.unaryLed ctx c hc).bind fun first c₁ hfirst => .repeatFrom
    (I := fun n c => c.Flawless ∧ BuiltLed k .binary ctx.scope n c)
    ⟨hfirst.1, .first hfirst.2.1, hfirst.2.2⟩ ?_
  rintro left c₂ ⟨hc₂, hleft, hled⟩
  refine .kind ?_
  split
  · exact .pure ⟨hc₂, hleft, hled⟩
  · next operator hoperator =>
    have hkind : c₂.token.kind ≠ .endOfText := by
      intro hend
      rw [hend] at hoperator
      cases hoperator
    refine .ite (fun _ => .pure ⟨hc₂, hleft, hled⟩) fun _ => ReadsTo.advance.bind fun _ c₃ hnext => ?_
    refine (hg.operand _ ctx c₃ (.next hnext)).bind fun right c₄ hright =>
      .pure ⟨hright.1, .joined hleft hright.2, hled.extend hkind ?_ c₄⟩
    cases operator <;> rfl

lemma led_conditionalExpression :
    Reaches (conditionalExpression g ctx) (BuiltLed k .conditional ctx.scope) := by
  intro c hc
  refine (led_binaryExpression hg ctx 0 c hc).bind fun test c₁ ⟨hc₁, htest, hled⟩ => ?_
  refine .ifAccept (fun hkind c₂ hnext => ?_) fun _ => .pure ⟨hc₁, .unconditional htest, hled⟩
  refine led_of_front hled (by simp [hkind]) (.next hnext) (.bind (hg.assignment _) fun _ hconsequent => ?_)
  exact .afterExpect fun _ => .bind (hg.assignment ctx) fun _ halternate =>
    .pure ⟨.conditional htest hconsequent halternate, rfl⟩

/-! ### Arrow functions and assignments -/

lemma obtains_arrowParameters : Obtains (arrowParameters g ctx)
    (Trailed .rest (Built k .element ctx.scope) (Built k .target ctx.scope)) := by
  refine .after .kind fun _ => .ite (fun _ => ?_) fun _ => obtains_parameters hg ctx
  refine .bind (obtains_name (k := k) ctx.scope) fun w h => .pure ?_
  exact ⟨[.identifier w], none, rfl, by simpa using .nameElement h, by simp⟩

/-- The body of an arrow function stands in a scope of its own. -/
lemma obtains_arrowFunction (isAsync : Bool) :
    Obtains (arrowFunction g ctx isAsync) (BuiltUnled (k + 1) .assignment ctx.scope) := by
  refine .bind (obtains_arrowParameters hg ctx) ?_
  rintro _ ⟨params, rest, rfl, hparams, hrest⟩
  refine .after .afterLineBreak fun _ => .ite (fun _ => .rejectThen) fun _ => .afterExpect fun _ => ?_
  refine .ifAt ?_ ?_
  · exact .bind (obtains_block hg _) fun _ h => .pure ⟨.arrowBlock hparams hrest h, rfl⟩
  · exact .bind (headed_of_led (hg.assignmentLed _)) fun _ h =>
      .pure ⟨.arrowValue hparams hrest h.2 h.1, rfl⟩

lemma obtains_arrowFunction? : Obtains (arrowFunction? g ctx) fun o =>
    ∀ n ∈ o, BuiltUnled (k + 1) .assignment ctx.scope n := by
  have hsome : ∀ isAsync, Obtains (do return some (← arrowFunction g ctx isAsync)) fun o =>
      ∀ n ∈ o, BuiltUnled (k + 1) .assignment ctx.scope n := fun isAsync =>
    .bind (obtains_arrowFunction hg ctx isAsync) fun _ h => .pure (by simpa using h)
  refine .after (follows_isAsyncArrowAhead hg.advancing ctx) fun _ => .ite (fun _ =>
    .after .advance fun _ => hsome true) fun _ => ?_
  exact .after (follows_isArrowAhead hg.advancing ctx) fun _ =>
    .ite (fun _ => hsome false) fun _ => .pure (by simp)

lemma obtains_yielding (hgenerator : ctx.inGenerator = true) :
    Obtains (yielding g ctx) (BuiltUnled (k + 1) .assignment ctx.scope) := by
  refine .after .advance fun _ => .after .token fun _ => .ite (fun _ => ?_) fun _ => ?_
  · exact .pure ⟨.yielding hgenerator, rfl⟩
  · exact .after (.accept _) fun _ => .bind (headed_of_led (hg.assignmentLed ctx)) fun _ h =>
      .pure ⟨.yieldingValue hgenerator h.2 h.1, rfl⟩

lemma led_conditionalOrAssignment :
    Reaches (conditionalOrAssignment g ctx) (BuiltLed (k + 1) .assignment ctx.scope) := by
  intro c hc
  refine (led_conditionalExpression hg ctx c hc).bind fun left c₁ ⟨hc₁, hleft, hled⟩ => .kind ?_
  split
  · exact .pure ⟨hc₁, .unassigned hleft, hled⟩
  · next hoperator =>
    have hkind : c₁.token.kind ≠ .endOfText := by
      intro hend
      rw [hend] at hoperator
      cases hoperator
    split
    · exact .reject
    · next htarget =>
      exact led_of_front hled hkind hc₁ (.after .advance fun _ => .bind (hg.assignment ctx)
        fun _ hright => .pure ⟨.assignment hleft htarget hright, (lead?_assignmentTarget htarget :)⟩)

/-- An operator `yield` is read where the context has it. -/
lemma led_assignmentExpression :
    Reaches (assignmentExpression g ctx) (BuiltLed (k + 1) .assignment ctx.scope) := by
  refine .after (.isAt _) fun _ => .ite (fun hyield => ?_) fun _ => ?_
  · exact led_of_unled (obtains_yielding hg ctx (Bool.and_eq_true_iff.1 hyield).2)
  · refine .bind (obtains_arrowFunction? hg ctx) fun o ho => ?_
    split
    · exact led_of_unled (.pure (ho _ rfl))
    · exact led_conditionalOrAssignment hg ctx

/-! ### Statements -/

lemma obtains_declarator : Obtains (declarator g ctx) (Built k .declarator ctx.scope) := by
  refine .bind (hg.target ctx) fun id hid => .ifAccept ?_ ?_
  · exact .bind (hg.assignment ctx) fun _ h => .pure (.declarator hid (by simpa using h))
  · exact .pure (.declarator hid (by simp))

lemma obtains_declaration : Obtains (declaration g ctx) (Built k .declaration ctx.scope) := by
  refine .after .kind fun _ => ?_
  split
  · exact .unexpected
  refine .after .advance fun _ => .bind (.collect (P := Built k .declarator ctx.scope)
    (S := fun ds => ds ≠ [] ∧ ∀ n ∈ ds, Built k .declarator ctx.scope n) ?_) fun ds hds =>
      .pure (.declaration hds.1 hds.2)
  intro found hfound
  refine .bind (obtains_declarator hg ctx) fun d hd => ?_
  have hfound := List.forall_mem_cons.2 ⟨hd, hfound⟩
  exact obtains_comma hfound ⟨by simp, forall_mem_reverse hfound⟩

lemma obtains_variableStatement :
    Obtains (variableStatement g ctx) (BuiltClosed (k + 1) ctx.scope) :=
  .bind (obtains_declaration hg ctx) fun _ h => .after .endStatement fun _ =>
    .pure ⟨.variableStatement h, by cases h; rfl⟩

/-- A conditional statement takes the `else` after its consequent, which the consequent has left. -/
lemma taking_ifStatement : Reaches (ifStatement g ctx) (BuiltTaking (k + 1) ctx.scope) := by
  refine .after .advance fun _ => .bind (obtains_parenthesized hg ctx) fun test htest c₁ hc₁ => ?_
  refine (hg.taking ctx c₁ hc₁).bind fun consequent c₂ ⟨hc₂, hconsequent, htakes⟩ => ?_
  refine .ifAcceptWord (fun hkind c₃ hnext => ?_) fun hkind => .pure ⟨hc₂, ?_, fun _ => hkind⟩
  · refine (hg.taking ctx c₃ (.next hnext)).bind fun alternate c₄ ⟨hc₄, halternate, htakes'⟩ =>
      .pure ⟨hc₄, .conditionalStatement htest hconsequent (by simpa using halternate) ?_, htakes'⟩
    exact Bool.eq_false_iff.2 fun hopen => htakes hopen hkind
  · exact .conditionalStatement htest hconsequent (by simp) trivial

/-- A statement that ends where its body ends. -/
lemma taking_body {f : Node → Node} (hf : ∀ n, Built k .statement ctx.scope n →
    Built (k + 1) .statement ctx.scope (f n)) (hopen : ∀ n, (f n).endsOpen = n.endsOpen) :
    Reaches (do return f (← g.statement ctx)) (BuiltTaking (k + 1) ctx.scope) := by
  refine fun c hc => (hg.taking ctx c hc).bind fun n _ h => .pure ⟨h.1, hf n h.2.1, ?_⟩
  rw [TakesElse, hopen]
  exact h.2.2

lemma taking_whileStatement :
    Reaches (whileStatement g ctx) (BuiltTaking (k + 1) ctx.scope) :=
  .after .advance fun _ => .bind (obtains_parenthesized hg ctx) fun _ htest =>
    taking_body hg ctx (fun _ hbody => .whileLoop htest hbody) fun _ => rfl

lemma obtains_doStatement : Obtains (doStatement g ctx) (BuiltClosed (k + 1) ctx.scope) := by
  refine .after .advance fun _ => .bind (hg.statement ctx) fun body hbody => ?_
  refine .after (.expectWord _) fun _ => ?_
  exact .bind (obtains_parenthesized hg ctx) fun _ htest => .after (.accept _) fun _ =>
    .pure ⟨.doWhileLoop htest hbody, rfl⟩

lemma obtains_forInit :
    Obtains (forInit g ctx) fun o => ∀ n ∈ o, Built k .loopStart ctx.scope n := by
  refine .ifAt (.pure (by simp)) ?_
  refine .after follows_isDeclaration fun _ => .ite (fun _ => ?_) fun _ => ?_
  · exact .bind (obtains_declaration hg _) fun _ h => .pure (by simpa using .declarationStart h)
  · exact .bind (obtains_expression hg _) fun _ h => .pure (by simpa using .expressionStart h)

lemma taking_forEachRest (iteration : Iteration) {left : Node}
    (hleft : Built k .loopStart ctx.scope left) :
    Reaches (forEachRest g ctx iteration left) (BuiltTaking (k + 1) ctx.scope) := by
  unfold forEachRest
  split
  · exact fun _ _ => .reject
  · next target htarget =>
    refine .after .advance fun _ => ?_
    extract_lets afterRight
    have hafter : ∀ right, Built k .expression ctx.scope right →
        Reaches (afterRight right) (BuiltTaking (k + 1) ctx.scope) := fun right hright =>
      .after (advances_expect _).follows fun _ =>
        taking_body hg ctx (fun _ hbody => .forEach hleft htarget hright hbody) fun _ => rfl
    split
    · exact .bind (hg.assignment _) fun n h => hafter n (.single h)
    · exact .bind (obtains_expression hg _) hafter

lemma obtains_expressionBefore (p : Punctuator) :
    Obtains (expressionBefore g ctx p) fun o => ∀ n ∈ o, Built k .expression ctx.scope n := by
  refine .ifAt (.pure (by simp)) ?_
  exact .bind (obtains_expression hg _) fun _ h => .pure (by simpa using h)

lemma taking_forStatement : Reaches (forStatement g ctx) (BuiltTaking (k + 1) ctx.scope) := by
  have hexpect : ∀ p, Follows (expect p) := fun p => (advances_expect p).follows
  refine .after .advance fun _ => .after (hexpect _) fun _ => ?_
  refine .bind (obtains_forInit hg ctx) fun init hinit => .after .kind fun _ => ?_
  split
  · exact taking_forEachRest hg ctx _ (hinit _ rfl)
  · refine .after (hexpect _) fun _ => .bind (obtains_expressionBefore hg ctx _) fun test htest => ?_
    refine .after (hexpect _) fun _ => .bind (obtains_expressionBefore hg ctx _) fun step hstep => ?_
    exact .after (hexpect _) fun _ =>
      taking_body hg ctx (fun _ hbody => .forLoop hinit htest hstep hbody) fun _ => rfl

lemma obtains_branchBody :
    Obtains (branchBody g ctx) fun body => ∀ n ∈ body, Built k .statement ctx.scope n := by
  refine .collect (P := Built k .statement ctx.scope) fun found hfound => .after .kind fun _ => ?_
  split
  · exact .pure (keeps_reverse hfound)
  · exact .pure (keeps_reverse hfound)
  · exact .pure (keeps_reverse hfound)
  · exact .pure (keeps_reverse hfound)
  · exact .bind (hg.statement ctx) fun _ h => .pure (List.forall_mem_cons.2 ⟨h, hfound⟩)

lemma obtains_branchTest :
    Obtains (branchTest g ctx) fun o => ∀ n ∈ o, Built k .expression ctx.scope n := by
  refine .ifAcceptWord ?_ (.ifAcceptWord (.pure (by simp)) (.reject))
  exact .bind (obtains_expression hg _) fun _ h => .pure (by simpa using h)

lemma obtains_switchStatement :
    Obtains (switchStatement g ctx) (BuiltClosed (k + 1) ctx.scope) := by
  refine .after .advance fun _ => .bind (obtains_parenthesized hg ctx) fun subject hsubject => ?_
  refine .afterExpect fun _ => .bind (.collect (P := Built k .switchCase ctx.scope)
    (S := fun cases => ∀ n ∈ cases, Built k .switchCase ctx.scope n) ?_) fun branches hbranches =>
      .after .advance fun _ => .pure ⟨.switch hsubject hbranches, rfl⟩
  intro found hfound
  refine .ifAt (.pure (keeps_reverse hfound)) ?_
  refine .bind (obtains_branchTest hg ctx) fun test htest => .afterExpect fun _ => ?_
  exact .bind (obtains_branchBody hg ctx) fun _ hbody =>
    .pure (List.forall_mem_cons.2 ⟨.switchCase htest hbody, hfound⟩)

lemma obtains_expressionStatement :
    Obtains (expressionStatement g ctx) (BuiltClosed (k + 1) ctx.scope) :=
  .bind (headed_of_led (led_expression hg _)) fun _ h => .after .endStatement fun _ =>
    .pure ⟨.expressionStatement h.2 h.1, rfl⟩

lemma obtains_returnStatement :
    Obtains (returnStatement g ctx) (BuiltClosed (k + 1) ctx.scope) := by
  refine .after .advance fun _ => .after .canEnd fun _ => ?_
  extract_lets afterArgument
  have hafter : ∀ argument : Option Node, (∀ n ∈ argument, Built k .expression ctx.scope n) →
      Obtains (afterArgument argument) (BuiltClosed (k + 1) ctx.scope) := fun argument h =>
    .after .endStatement fun _ => .pure ⟨.returning h, rfl⟩
  exact .ite (fun _ => .bind (.pure (by simp)) hafter) fun _ =>
    .bind (.map (obtains_expression hg _) fun _ h => by simpa using h) hafter

omit hg in
lemma obtains_jumpStatement (jump : Jump) (s : Scope) :
    Obtains (jumpStatement jump) (BuiltClosed (k + 1) s) := by
  refine .after .advance fun _ => .after .token fun _ => ?_
  extract_lets afterLabel
  have hafter : ∀ label, Obtains (afterLabel label) (BuiltClosed (k + 1) s) := fun label =>
    .after .endStatement fun _ => .pure ⟨.jump, rfl⟩
  exact .ite (fun _ => .after advances_name.follows.map hafter) fun _ => .after (.pure _) hafter

lemma obtains_throwStatement :
    Obtains (throwStatement g ctx) (BuiltClosed (k + 1) ctx.scope) := by
  refine .after .advance fun _ => .after .afterLineBreak fun _ => ?_
  exact .ite (fun _ => .rejectThen) fun _ => .bind (obtains_expression hg _) fun _ h =>
    .after .endStatement fun _ => .pure ⟨.throwing h, rfl⟩

lemma obtains_handlerParameter :
    Obtains (handlerParameter g ctx) fun o => ∀ n ∈ o, Built k .target ctx.scope n := by
  refine .ifAccept ?_ (.pure (by simp))
  exact .bind (hg.target ctx) fun _ h => .afterExpect fun _ => .pure (by simpa using h)

/-- A guarded block has a handler or a final block. -/
lemma obtains_tryStatement : Obtains (tryStatement g ctx) (BuiltClosed (k + 1) ctx.scope) := by
  refine .after .advance fun _ => .bind (obtains_block hg ctx) fun body hbody => ?_
  refine .after (.acceptWord _) fun _ => ?_
  extract_lets afterRecovery
  have hafterRecovery : ∀ recovery : Option Node, (∀ n ∈ recovery, Built k .handler ctx.scope n) →
      Obtains (afterRecovery recovery) (BuiltClosed (k + 1) ctx.scope) := by
    intro recovery hrecovery
    refine .after (.acceptWord _) fun _ => ?_
    extract_lets afterFinalizer
    have hafterFinalizer : ∀ finalizer : Option Node, (∀ n ∈ finalizer, Built k .block ctx.scope n) →
        Obtains (afterFinalizer finalizer) (BuiltClosed (k + 1) ctx.scope) := by
      intro finalizer hfinalizer
      refine .ite (fun _ => .rejectThen) fun hnone => .pure ⟨.guarded hbody hrecovery hfinalizer ?_, rfl⟩
      cases recovery <;> cases finalizer <;> simp_all
    exact .ite (fun _ => .bind (.map (obtains_block hg ctx) fun _ h => by simpa using h)
      hafterFinalizer) fun _ => .bind (.pure (by simp)) hafterFinalizer
  refine .ite (fun _ => ?_) fun _ => .bind (.pure (by simp)) hafterRecovery
  refine .bind (obtains_handlerParameter hg ctx) fun param hparam => ?_
  refine .bind (obtains_block hg ctx) fun block hblock => .bind (.pure ?_) hafterRecovery
  simpa using .handler hparam hblock

lemma taking_nameStatement : Reaches (nameStatement g ctx) (BuiltTaking (k + 1) ctx.scope) := by
  refine .after .peek fun _ => .ite (fun _ => ?_) fun _ =>
    taking_of_closed (obtains_expressionStatement hg ctx)
  exact .after advances_name.follows fun label => .after (advances_expect _).follows fun _ =>
    taking_body hg ctx (fun _ h => .labeled h) fun _ => rfl

lemma taking_anyStatement : Reaches (anyStatement g ctx) (BuiltTaking (k + 1) ctx.scope) := by
  have hvariable := taking_of_closed (obtains_variableStatement hg ctx)
  have hfunction : ∀ isAsync, Reaches (functionDefinition g .declaration isAsync)
      (BuiltTaking (k + 1) ctx.scope) := fun isAsync => taking_of_closed
    ((obtains_functionDefinition hg _ isAsync _).mono fun _ ⟨_, h⟩ =>
      ⟨.functionStatement h, by cases h; rfl⟩)
  refine .after .kind fun _ => ?_
  split
  · exact taking_of_closed ((obtains_block hg ctx).mono fun _ h =>
      ⟨.blockStatement h, by cases h; rfl⟩)
  · exact hvariable
  · exact hvariable
  · exact .after follows_isLetDeclaration fun _ =>
      .ite (fun _ => hvariable) fun _ => taking_nameStatement hg ctx
  · exact hfunction false
  · exact .after follows_isFunctionAhead fun _ => .ite (fun _ => .after .advance fun _ =>
      hfunction true) fun _ => taking_nameStatement hg ctx
  · exact taking_of_closed ((obtains_classDefinition hg ctx
      (built_of_led (led_leftHandSide hg ctx)) _).mono fun _ h =>
        ⟨.classStatement h, by cases h; rfl⟩)
  · exact taking_ifStatement hg ctx
  · exact taking_forStatement hg ctx
  · exact taking_whileStatement hg ctx
  · exact taking_of_closed (obtains_doStatement hg ctx)
  · exact taking_of_closed (obtains_returnStatement hg ctx)
  · exact taking_of_closed (obtains_jumpStatement _ _)
  · exact taking_of_closed (obtains_jumpStatement _ _)
  · exact taking_of_closed (obtains_throwStatement hg ctx)
  · exact taking_of_closed (obtains_tryStatement hg ctx)
  · exact taking_of_closed (obtains_switchStatement hg ctx)
  · exact taking_of_closed (.after .advance fun _ => .pure ⟨.empty, rfl⟩)
  · exact taking_of_closed (.after .advance fun _ => .after .endStatement fun _ =>
      .pure ⟨.debugger, rfl⟩)
  · exact fun _ _ => .reject
  · exact taking_nameStatement hg ctx
  · exact taking_nameStatement hg ctx
  · exact taking_of_closed (obtains_expressionStatement hg ctx)

/-! ### Levels -/

omit hg in
lemma builds_exhausted : exhausted.Builds 0 where
  advancing := advancing_exhausted
  taking _ _ _ := .reject
  target _ := .reject
  assignmentLed _ _ _ := .reject
  operand _ _ := .reject
  unaryLed _ _ _ := .reject
  constructionLed _ _ _ := .reject

/-- The rules of a level put their trees together if those of the level below do. -/
lemma Builds.above : g.above.Builds (k + 1) where
  advancing := hg.advancing.above
  taking ctx := taking_anyStatement hg ctx
  target ctx := obtains_bindingTarget hg ctx
  assignmentLed ctx := led_assignmentExpression hg ctx
  operand limit ctx := (built_of_led (led_binaryExpression hg ctx limit)).mono fun _ h => .operand h
  unaryLed ctx := led_unaryExpression hg ctx
  constructionLed ctx := led_newExpression hg ctx

omit hg in
lemma builds_level (k : Nat) : (level k).Builds k := by
  induction k with
  | zero => exact builds_exhausted
  | succ k ih => exact ih.above

/-- A script begins with its first token, wherever the cursor stands before it. -/
lemma built_program (c : Cursor) :
    ReadsTo g.program c fun n _ => ∃ body, n = .program body ∧ ∀ n ∈ body, Built k .statement {} n := by
  refine ReadsTo.advance.bind fun _ c' hnext => ?_
  have hbody : Obtains (repeatFrom [] fun found => do
      if ← isAt .endOfText then return .done found.reverse
      return .again ((← g.statement {}) :: found)) fun body => ∀ n ∈ body, Built k .statement {} n := by
    refine .collect (P := Built k .statement {}) fun found hfound => .after (.isAt _) fun _ => ?_
    refine .ite (fun _ => .pure (keeps_reverse hfound)) fun _ => ?_
    exact .bind (hg.statement {}) fun _ h => .pure (List.forall_mem_cons.2 ⟨h, hfound⟩)
  exact (hbody c' (.next hnext)).bind fun body _ hbody => .pure ⟨body, rfl, hbody.2⟩

end Grammar

/-- A script is a program of statements that the greatest level puts together. -/
lemma built_of_parse {text : String} {n : Node} (h : parse text = .ok n) :
    ∃ body, n = .program body ∧ ∀ n ∈ body, Grammar.Built Grammar.maxNesting .statement {} n := by
  unfold parse at h
  split at h
  · next hok =>
    cases h
    exact Grammar.built_program (Grammar.builds_level _) _ _ _ hok
  · cases h

end BindingProxy
