import BindingProxy.Proofs.Tree.Rebuild

/-!
# Nodes with related children

Two nodes are congruent for a relation if they differ only in their children, and these are related
place by place.  A node that is given related children is congruent to what it was, so a property of
the places of a node can be carried over by cases on `Congruent`, without looking at how the places
are filled.
-/

namespace BindingProxy

namespace Node

/-- The same node with children that are related place by place. -/
inductive Congruent (R : Node → Node → Prop) : Node → Node → Prop where
  | program {body body'} (h : List.Forall₂ R body body') :
    Congruent R (program body) (program body')
  | expressionStatement {expression expression'} (h : R expression expression') :
    Congruent R (expressionStatement expression) (expressionStatement expression')
  | block {body body'} (h : List.Forall₂ R body body') : Congruent R (block body) (block body')
  | empty : Congruent R empty empty
  | debugger : Congruent R debugger debugger
  | returning {argument argument'} (h : Option.Rel R argument argument') :
    Congruent R (returning argument) (returning argument')
  | conditionalStatement {test test' consequent consequent' alternate alternate'}
    (htest : R test test') (hconsequent : R consequent consequent')
    (halternate : Option.Rel R alternate alternate') :
    Congruent R (conditionalStatement test consequent alternate)
      (conditionalStatement test' consequent' alternate')
  | whileLoop {test test' body body'} (htest : R test test') (hbody : R body body') :
    Congruent R (whileLoop test body) (whileLoop test' body')
  | doWhileLoop {body body' test test'} (hbody : R body body') (htest : R test test') :
    Congruent R (doWhileLoop body test) (doWhileLoop body' test')
  | forLoop {init init' test test' step step' body body'} (hinit : Option.Rel R init init')
    (htest : Option.Rel R test test') (hstep : Option.Rel R step step') (hbody : R body body') :
    Congruent R (forLoop init test step body) (forLoop init' test' step' body')
  | forEach {iteration left left' right right' body body'} (hleft : R left left')
    (hright : R right right') (hbody : R body body') :
    Congruent R (forEach iteration left right body) (forEach iteration left' right' body')
  | jump {kind label} : Congruent R (jump kind label) (jump kind label)
  | throwing {argument argument'} (h : R argument argument') :
    Congruent R (throwing argument) (throwing argument')
  | guarded {body body' recovery recovery' finalizer finalizer'} (hbody : R body body')
    (hrecovery : Option.Rel R recovery recovery') (hfinalizer : Option.Rel R finalizer finalizer') :
    Congruent R (guarded body recovery finalizer) (guarded body' recovery' finalizer')
  | handler {param param' body body'} (hparam : Option.Rel R param param') (hbody : R body body') :
    Congruent R (handler param body) (handler param' body')
  | switch {discriminant discriminant' cases cases'} (hdiscriminant : R discriminant discriminant')
    (hcases : List.Forall₂ R cases cases') :
    Congruent R (switch discriminant cases) (switch discriminant' cases')
  | switchCase {test test' consequent consequent'} (htest : Option.Rel R test test')
    (hconsequent : List.Forall₂ R consequent consequent') :
    Congruent R (switchCase test consequent) (switchCase test' consequent')
  | labeled {label body body'} (h : R body body') :
    Congruent R (labeled label body) (labeled label body')
  | declaration {kind declarators declarators'} (h : List.Forall₂ R declarators declarators') :
    Congruent R (declaration kind declarators) (declaration kind declarators')
  | declarator {id id' init init'} (hid : R id id') (hinit : Option.Rel R init init') :
    Congruent R (declarator id init) (declarator id' init')
  | function {role id params params' body body' isAsync isGenerator}
    (hparams : List.Forall₂ R params params') (hbody : R body body') :
    Congruent R (function role id params body isAsync isGenerator)
      (function role id params' body' isAsync isGenerator)
  | classDefinition {role id superClass superClass' body body'}
    (hsuper : Option.Rel R superClass superClass') (hbody : List.Forall₂ R body body') :
    Congruent R (classDefinition role id superClass body)
      (classDefinition role id superClass' body')
  | identifier {name} : Congruent R (identifier name) (identifier name)
  | literal {kind raw} : Congruent R (literal kind raw) (literal kind raw)
  | template {quasis expressions expressions'} (h : List.Forall₂ R expressions expressions') :
    Congruent R (template quasis expressions) (template quasis expressions')
  | taggedTemplate {tag tag' quasi quasi'} (htag : R tag tag') (hquasi : R quasi quasi') :
    Congruent R (taggedTemplate tag quasi) (taggedTemplate tag' quasi')
  | thisValue : Congruent R thisValue thisValue
  | superValue : Congruent R superValue superValue
  | array {elements elements'} (h : List.Forall₂ (Option.Rel R) elements elements') :
    Congruent R (array elements) (array elements')
  | object {properties properties'} (h : List.Forall₂ R properties properties') :
    Congruent R (object properties) (object properties')
  | property {key key' value value' kind computed shorthand isMethod} (hkey : R key key')
    (hvalue : R value value') :
    Congruent R (property key value kind computed shorthand isMethod)
      (property key' value' kind computed shorthand isMethod)
  | arrow {params params' body body' concise isAsync} (hparams : List.Forall₂ R params params')
    (hbody : R body body') :
    Congruent R (arrow params body concise isAsync) (arrow params' body' concise isAsync)
  | method {key key' value value' kind computed isStatic} (hkey : R key key')
    (hvalue : R value value') :
    Congruent R (method key value kind computed isStatic)
      (method key' value' kind computed isStatic)
  | unary {operator argument argument'} (h : R argument argument') :
    Congruent R (unary operator argument) (unary operator argument')
  | update {operator leading argument argument'} (h : R argument argument') :
    Congruent R (update operator leading argument) (update operator leading argument')
  | binary {operator left left' right right'} (hleft : R left left') (hright : R right right') :
    Congruent R (binary operator left right) (binary operator left' right')
  | logical {operator left left' right right'} (hleft : R left left') (hright : R right right') :
    Congruent R (logical operator left right) (logical operator left' right')
  | assignment {operator left left' right right'} (hleft : R left left') (hright : R right right') :
    Congruent R (assignment operator left right) (assignment operator left' right')
  | conditional {test test' consequent consequent' alternate alternate'} (htest : R test test')
    (hconsequent : R consequent consequent') (halternate : R alternate alternate') :
    Congruent R (conditional test consequent alternate) (conditional test' consequent' alternate')
  | call {callee callee' arguments arguments' optional} (hcallee : R callee callee')
    (harguments : List.Forall₂ R arguments arguments') :
    Congruent R (call callee arguments optional) (call callee' arguments' optional)
  | construction {callee callee' arguments arguments'} (hcallee : R callee callee')
    (harguments : List.Forall₂ R arguments arguments') :
    Congruent R (construction callee arguments) (construction callee' arguments')
  | member {owner owner' key key' computed optional} (howner : R owner owner') (hkey : R key key') :
    Congruent R (member owner key computed optional) (member owner' key' computed optional)
  | sequence {expressions expressions'} (h : List.Forall₂ R expressions expressions') :
    Congruent R (sequence expressions) (sequence expressions')
  | spread {argument argument'} (h : R argument argument') :
    Congruent R (spread argument) (spread argument')
  | yielding {argument argument' delegate} (h : Option.Rel R argument argument') :
    Congruent R (yielding argument delegate) (yielding argument' delegate)
  | awaiting {argument argument'} (h : R argument argument') :
    Congruent R (awaiting argument) (awaiting argument')
  | objectPattern {properties properties'} (h : List.Forall₂ R properties properties') :
    Congruent R (objectPattern properties) (objectPattern properties')
  | arrayPattern {elements elements'} (h : List.Forall₂ (Option.Rel R) elements elements') :
    Congruent R (arrayPattern elements) (arrayPattern elements')
  | defaulted {left left' right right'} (hleft : R left left') (hright : R right right') :
    Congruent R (defaulted left right) (defaulted left' right')
  | rest {argument argument'} (h : R argument argument') :
    Congruent R (rest argument) (rest argument')

/-! ### Filling places with related nodes -/

/-- A way of filling places that, given nodes related to `olds`, takes exactly these and builds
something with the property `Q`. -/
def Builds {α : Type} (R : Node → Node → Prop) (olds : List Node) (p : Supply α) (Q : α → Prop) :
    Prop :=
  ∀ news rest, List.Forall₂ R olds news → Q (p (news ++ rest)).1 ∧ (p (news ++ rest)).2 = rest

namespace Builds

variable {α β : Type} {R : Node → Node → Prop} {olds olds' : List Node}

lemma pure {Q : α → Prop} {a : α} (h : Q a) : Builds R [] (Pure.pure a : Supply α) Q := by
  intro news rest hnews
  cases hnews
  exact ⟨h, rfl⟩

lemma bind {p : Supply α} {f : α → Supply β} {Q : α → Prop} {Q' : β → Prop}
    (hp : Builds R olds p Q) (hf : ∀ a, Q a → Builds R olds' (f a) Q') :
    Builds R (olds ++ olds') (p >>= f) Q' := by
  intro news rest hnews
  obtain ⟨first, second, hfirst, hsecond, rfl⟩ : ∃ first second, List.Forall₂ R olds first ∧
      List.Forall₂ R olds' second ∧ news = first ++ second := by
    refine ⟨news.take olds.length, news.drop olds.length, ?_, ?_, (List.take_append_drop _ _).symm⟩
    · simpa using List.forall₂_take_append news olds olds' hnews.flip |>.flip
    · simpa using List.forall₂_drop_append news olds olds' hnews.flip |>.flip
  obtain ⟨hvalue, hrest⟩ := hp first (second ++ rest) hfirst
  rw [List.append_assoc, supply_bind, hrest]
  exact hf _ hvalue second rest hsecond

lemma single (c : Node) : Builds R [c] (fill c) (R c) := by
  intro news rest hnews
  obtain ⟨d, ds, hd, hds, rfl⟩ := List.forall₂_cons_left_iff.1 hnews
  cases hds
  exact ⟨hd, rfl⟩

lemma option (o : Option Node) : Builds R o.toList (fillOption o) (Option.Rel R o) := by
  cases o with
  | none => exact pure .none
  | some c =>
    have h : Builds R ([c] ++ []) (fillOption (some c)) (Option.Rel R (some c)) :=
      (single c).bind fun d hd => pure (.some hd)
    simpa using h

lemma list (cs : List Node) : Builds R cs (fillList cs) (List.Forall₂ R cs) := by
  induction cs with
  | nil => exact pure .nil
  | cons c cs ih =>
    have h : Builds R ([c] ++ (cs ++ [])) (fillList (c :: cs)) (List.Forall₂ R (c :: cs)) :=
      (single c).bind fun d hd => ih.bind fun ds hds => pure (.cons hd hds)
    simpa using h

lemma holes (es : List (Option Node)) :
    Builds R (es.filterMap id) (fillHoles es) (List.Forall₂ (Option.Rel R) es) := by
  induction es with
  | nil => exact pure .nil
  | cons o es ih =>
    have h : Builds R (o.toList ++ (es.filterMap id ++ [])) (fillHoles (o :: es))
        (List.Forall₂ (Option.Rel R) (o :: es)) :=
      (option o).bind fun o' ho => ih.bind fun es' hes => pure (.cons ho hes)
    cases o <;> simpa using h

end Builds

/-- The places of a node can be filled with related nodes. -/
lemma builds_refill (R : Node → Node → Prop) (n : Node) :
    Builds R n.children n.refill (Congruent R n) := by
  have cast : ∀ olds, olds = n.children → Builds R olds n.refill (Congruent R n) →
      Builds R n.children n.refill (Congruent R n) := fun olds h => h ▸ id
  cases n
  all_goals
    apply cast
    rotate_left
    · simp only [refill]
      repeat' first
        | (apply (Builds.single _).bind; intro _ _)
        | (apply (Builds.option _).bind; intro _ _)
        | (apply (Builds.list _).bind; intro _ _)
        | (apply (Builds.holes _).bind; intro _ _)
        | exact Builds.pure (by constructor <;> assumption)
    · simp [children]

/-- A node that is given related children is congruent to what it was. -/
theorem congruent_withChildren {R : Node → Node → Prop} {n : Node} {cs : List Node}
    (h : List.Forall₂ R n.children cs) : Congruent R n (n.withChildren cs) := by
  have hbuilds := (builds_refill R n cs [] h).1
  rwa [List.append_nil] at hbuilds

end Node

end BindingProxy
