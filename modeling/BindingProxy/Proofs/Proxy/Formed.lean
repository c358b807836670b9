import BindingProxy.Proofs.Proxy.Gathered
import BindingProxy.Proofs.Proxy.Instrumented
import BindingProxy.Proofs.Tree.Congruent

/-!
# Instrumented trees are well formed

Every pass leaves a well-formed tree well formed.  A changed node still belongs to all categories to
which it belonged before, which is `Resembles`, and so it fits wherever it stood.  A node fits as
before if its children resemble what they were: this is shown once for all constructors, in
`fits_of_congruent`.  What is left are the fragments that the changes put in, which fit by
themselves.

That a declaration does not take the place of a body is not among the rules, since a declaration is
a statement.  It is shown apart: the nodes that stand as bodies of branches, loops and labels are of
the same kinds before and after, in the same order.
-/

namespace BindingProxy

namespace Node

/-! ### Categories -/

/-- What can be asked of the node in a place. -/
inductive Category where
  | statement | expression | block | declarator | handler | switchCase | method | template | rest
  | defaulted | name | binding | place | target | element | argument | methodFunction | loopStart
  | computedKey | plainKey
  -- These depend on the children of the node.
  | parameter | member | patternMember

namespace Category

/-- Whether a node belongs to a category. -/
def holds (cover : Bool) : Category → Node → Bool
  | statement => isStatement
  | expression => isExpression
  | block => isBlock
  | declarator => isDeclarator
  | handler => isHandler
  | switchCase => isSwitchCase
  | method => isMethod
  | template => isTemplate
  | rest => isRest
  | defaulted => isDefaulted
  | name => fun n => n.name?.isSome
  | binding => isBinding
  | place => isPlace
  | target => isTarget
  | element => isElement
  | argument => isArgument
  | methodFunction => isMethodFunction
  | loopStart => isLoopStart
  | computedKey => isKey true
  | plainKey => isKey false
  | parameter => isParameter
  | member => isMember cover
  | patternMember => isPatternMember

/-- The categories that do not depend on the children. -/
def isFlat : Category → Bool
  | parameter | member | patternMember => false
  | _ => true

end Category

/-- A declarator without a value. -/
def isBare : Node → Bool
  | declarator _ none => true
  | _ => false

/-- A node that belongs to all categories of another one.  Where `inHead` is set, this includes what
the head of a loop over a value asks for. -/
structure Resembles (cover inHead : Bool) (n m : Node) : Prop where
  kept (p : Category) : p.holds cover n = true → p.holds cover m = true
  bare : inHead = true → n.isBare = true → m.isBare = true
  loopTarget : inHead = true → n.isLoopTarget = true → m.isLoopTarget = true

namespace Resembles

variable {cover inHead : Bool} {n m : Node}

lemma refl (n : Node) : Resembles cover inHead n n := ⟨fun _ => id, fun _ => id, fun _ => id⟩

lemma trans {k : Node} (h : Resembles cover inHead n m) (h' : Resembles cover inHead m k) :
    Resembles cover inHead n k where
  kept p hn := h'.kept p (h.kept p hn)
  bare hhead hn := h'.bare hhead (h.bare hhead hn)
  loopTarget hhead hn := h'.loopTarget hhead (h.loopTarget hhead hn)

lemma key {computed : Bool} (h : Resembles cover inHead n m) (hn : n.isKey computed = true) :
    m.isKey computed = true := by
  cases computed with
  | true => exact h.kept .computedKey hn
  | false => exact h.kept .plainKey hn

end Resembles

/-- Congruent nodes belong to the same flat categories. -/
lemma Congruent.holds_eq {R : Node → Node → Prop} {n m : Node} (h : Congruent R n m) (cover : Bool)
    {p : Category} (hp : p.isFlat = true) : p.holds cover m = p.holds cover n := by
  cases h with
  | @function role id => cases role <;> cases id <;> cases p <;> rfl
  | @classDefinition role => cases role <;> cases p <;> rfl
  | _ => cases p <;> first | rfl | cases hp

/-- What a plain assignment stores into can be the left side of a loop. -/
lemma isLoopTarget_eq {n : Node} (h : n.isDeclaration = false) : n.isLoopTarget = n.isTarget := by
  cases n with
  | declaration kind declarators => cases h
  | _ => rfl

lemma exists_of_isBare {n : Node} (h : n.isBare = true) : ∃ id, n = declarator id none := by
  cases n with
  | declarator id init =>
    cases init with
    | none => exact ⟨id, rfl⟩
    | some value => cases h
  | _ => cases h

/-- A node resembles what it was if its children do. -/
lemma Congruent.resembles {cover inHead : Bool} {n m : Node}
    (h : Congruent (Resembles cover inHead) n m) : Resembles cover inHead n m where
  kept p hn := by
    cases p with
    | parameter =>
      cases h with
      | defaulted hleft hright => exact hleft.kept .binding hn
      | _ => exact hn
    | member =>
      cases h with
      | property hkey hvalue =>
        simp only [Category.holds, isMember, Bool.or_eq_true, Bool.and_eq_true] at hn ⊢
        exact hn.imp (Or.imp_right (hvalue.kept .expression)) (And.imp_right (hvalue.kept .defaulted))
      | _ => exact hn
    | patternMember =>
      cases h with
      | property hkey hvalue =>
        simp only [Category.holds, isPatternMember, Bool.and_eq_true] at hn ⊢
        exact ⟨hn.1, hvalue.kept .element hn.2⟩
      | _ => exact hn
    | _ => exact (h.holds_eq cover rfl).trans hn
  bare hhead hn := by
    cases h with
    | declarator hid hinit => cases hinit <;> exact hn
    | _ => exact hn
  loopTarget hhead hn := by
    cases h with
    | declaration hdeclarators =>
      unfold isLoopTarget at hn
      split at hn
      · next heq =>
        cases heq
        obtain ⟨d, ds, hd, hds, rfl⟩ := List.forall₂_cons_left_iff.1 hdeclarators
        cases hds
        obtain ⟨id, rfl⟩ := exists_of_isBare (hd.bare hhead rfl)
        rfl
      · cases hn
    | _ => exact hn

/-! ### Fitting -/

section Lists

variable {α : Type} {R : α → α → Prop} {ok last : α → Bool}

/-- A category of all items of a list is kept. -/
lemma all_of_forall₂ {as bs : List α} (h : List.Forall₂ R as bs)
    (hok : ∀ a b, R a b → ok a = true → ok b = true) (has : as.all ok = true) :
    bs.all ok = true := by
  rw [List.all_eq_true] at has ⊢
  intro b hb
  obtain ⟨a, ha, hab⟩ := exists_of_mem_right h hb
  exact hok a b hab (has a ha)

lemma isSome_of_rel {o o' : Option α} (h : Option.Rel R o o') : o'.isSome = o.isSome := by
  cases h <;> rfl

lemma lastMay_of_forall₂ {as bs : List α} (h : List.Forall₂ R as bs)
    (hok : ∀ a b, R a b → ok a = true → ok b = true)
    (hlast : ∀ a b, R a b → last a = true → last b = true) (has : lastMay ok last as = true) :
    lastMay ok last bs = true := by
  induction h with
  | nil => rfl
  | @cons a b as bs hab htail ih =>
    cases htail with
    | nil =>
      rw [lastMay, Bool.or_eq_true] at has ⊢
      exact has.imp (hok a b hab) (hlast a b hab)
    | cons hab' htail' =>
      simp only [lastMay, Bool.and_eq_true] at has ⊢
      exact ⟨hok a b hab has.1, ih has.2⟩

end Lists

namespace Resembles

variable {cover inHead : Bool} (p : Category)

/-- A category of an item that may be missing is kept. -/
lemma kept_of_rel {o o' : Option Node} (h : Option.Rel (Resembles cover inHead) o o')
    (ho : o.all (p.holds cover) = true) : o'.all (p.holds cover) = true := by
  cases h with
  | none => rfl
  | some hab => exact hab.kept p ho

lemma kept_of_forall₂ {as bs : List Node} (h : List.Forall₂ (Resembles cover inHead) as bs)
    (has : as.all (p.holds cover) = true) : bs.all (p.holds cover) = true :=
  all_of_forall₂ h (fun _ _ hab => hab.kept p) has

/-- The items of a list with a rest element. -/
lemma kept_of_lastMay {as bs : List Node} (h : List.Forall₂ (Resembles cover inHead) as bs)
    (has : lastMay (p.holds cover) isRest as = true) : lastMay (p.holds cover) isRest bs = true :=
  lastMay_of_forall₂ h (fun _ _ hab => hab.kept p) (fun _ _ hab => hab.kept .rest) has

end Resembles

open Resembles (kept_of_rel kept_of_forall₂ kept_of_lastMay) in
/-- A node fits as before if its children resemble what they were.  The left side of a loop over a
value has to be a target of such a loop still. -/
lemma fits_of_congruent {cover inHead : Bool} {n m : Node}
    (h : Congruent (Resembles cover inHead) n m)
    (hleft : ∀ left left', n.leftSide? = some left → m.leftSide? = some left' →
      left.isLoopTarget = true → left'.isLoopTarget = true)
    (hn : n.fits cover = true) : m.fits cover = true := by
  cases h
  -- What is asked of the children is the same before and after, so it is kept place by place.
  all_goals simp only [fits, Bool.and_eq_true] at hn ⊢
  case program hbody | block hbody => exact kept_of_forall₂ .statement hbody hn
  case expressionStatement hargument | throwing hargument | unary hargument | spread hargument
    | awaiting hargument => exact hargument.kept .expression hn
  case returning hargument => exact kept_of_rel .expression hargument hn
  case conditionalStatement htest hconsequent halternate =>
    exact ⟨⟨htest.kept .expression hn.1.1, hconsequent.kept .statement hn.1.2⟩,
      kept_of_rel .statement halternate hn.2⟩
  case whileLoop htest hbody | doWhileLoop hbody htest =>
    exact ⟨htest.kept .expression hn.1, hbody.kept .statement hn.2⟩
  case forLoop hinit htest hstep hbody =>
    obtain ⟨⟨⟨hni, hnt⟩, hns⟩, hnb⟩ := hn
    exact ⟨⟨⟨kept_of_rel .loopStart hinit hni, kept_of_rel .expression htest hnt⟩,
      kept_of_rel .expression hstep hns⟩, hbody.kept .statement hnb⟩
  case forEach hside hright hbody =>
    exact ⟨⟨hleft _ _ rfl rfl hn.1.1, hright.kept .expression hn.1.2⟩, hbody.kept .statement hn.2⟩
  case guarded hbody hrecovery hfinalizer =>
    obtain ⟨⟨⟨hnb, hnr⟩, hnf⟩, hsome⟩ := hn
    rw [isSome_of_rel hrecovery, isSome_of_rel hfinalizer]
    exact ⟨⟨⟨hbody.kept .block hnb, kept_of_rel .handler hrecovery hnr⟩,
      kept_of_rel .block hfinalizer hnf⟩, hsome⟩
  case handler hparam hbody =>
    exact ⟨kept_of_rel .binding hparam hn.1, hbody.kept .block hn.2⟩
  case switch hdiscriminant hcases =>
    exact ⟨hdiscriminant.kept .expression hn.1, kept_of_forall₂ .switchCase hcases hn.2⟩
  case switchCase htest hconsequent =>
    exact ⟨kept_of_rel .expression htest hn.1, kept_of_forall₂ .statement hconsequent hn.2⟩
  case labeled hbody => exact hbody.kept .statement hn
  case declaration hdeclarators =>
    refine ⟨?_, kept_of_forall₂ .declarator hdeclarators hn.2⟩
    cases hdeclarators with
    | nil => exact hn.1
    | cons => rfl
  case declarator hid hinit =>
    exact ⟨hid.kept .binding hn.1, kept_of_rel .expression hinit hn.2⟩
  case function hparams hbody =>
    exact ⟨⟨hn.1.1, kept_of_lastMay .parameter hparams hn.1.2⟩, hbody.kept .block hn.2⟩
  case classDefinition hsuper hbody =>
    exact ⟨⟨hn.1.1, kept_of_rel .expression hsuper hn.1.2⟩, kept_of_forall₂ .method hbody hn.2⟩
  case taggedTemplate htag hquasi =>
    exact ⟨htag.kept .expression hn.1, hquasi.kept .template hn.2⟩
  case array helements =>
    exact all_of_forall₂ helements (fun _ _ => kept_of_rel .argument) hn
  case object hproperties => exact kept_of_forall₂ .member hproperties hn
  case property hkey hvalue =>
    refine ⟨hkey.key hn.1, ?_⟩
    split
    · next hinit =>
      rw [if_pos hinit, Bool.or_eq_true] at hn
      rw [Bool.or_eq_true]
      exact hn.2.imp (hvalue.kept .expression) (hvalue.kept .element)
    · next hinit =>
      rw [if_neg hinit] at hn
      exact hvalue.kept .methodFunction hn.2
  case arrow concise isAsync hparams hbody =>
    refine ⟨kept_of_lastMay .parameter hparams hn.1, ?_⟩
    cases concise with
    | true => exact hbody.kept .expression hn.2
    | false => exact hbody.kept .block hn.2
  case method hkey hvalue => exact ⟨hkey.key hn.1, hvalue.kept .methodFunction hn.2⟩
  case update hargument => exact hargument.kept .place hn
  case binary hl hr | logical hl hr =>
    exact ⟨hl.kept .expression hn.1, hr.kept .expression hn.2⟩
  case assignment hl hr =>
    refine ⟨?_, hr.kept .expression hn.2⟩
    split
    · next hplain =>
      rw [if_pos hplain] at hn
      exact hl.kept .target hn.1
    · next hplain =>
      rw [if_neg hplain] at hn
      exact hl.kept .place hn.1
  case conditional htest hconsequent halternate =>
    exact ⟨⟨htest.kept .expression hn.1.1, hconsequent.kept .expression hn.1.2⟩,
      halternate.kept .expression hn.2⟩
  case call hcallee harguments | construction hcallee harguments =>
    exact ⟨hcallee.kept .expression hn.1, kept_of_forall₂ .argument harguments hn.2⟩
  case member computed optional howner hkey =>
    refine ⟨howner.kept .expression hn.1, ?_⟩
    cases computed with
    | true => exact hkey.kept .expression hn.2
    | false => exact hkey.kept .name hn.2
  case template hexpressions | sequence hexpressions =>
    rw [← hexpressions.length_eq]
    exact ⟨hn.1, kept_of_forall₂ .expression hexpressions hn.2⟩
  case yielding hargument =>
    rw [isSome_of_rel hargument]
    exact ⟨kept_of_rel .expression hargument hn.1, hn.2⟩
  case objectPattern hmembers => exact kept_of_lastMay .patternMember hmembers hn
  case arrayPattern helements =>
    refine lastMay_of_forall₂ helements (fun _ _ => kept_of_rel .element) (fun o o' ho hany => ?_) hn
    cases ho with
    | none => cases hany
    | some h => exact h.kept .rest hany
  case defaulted hl hr => exact ⟨hl.kept .target hn.1, hr.kept .expression hn.2⟩
  case rest hargument => exact hargument.kept .target hn

/-- Every node of a tree fits. -/
def Fit (cover : Bool) (n : Node) : Prop := n.Everywhere fun m => m.fits cover = true

lemma fit_iff {cover : Bool} {n : Node} :
    n.Fit cover ↔ n.fits cover = true ∧ ∀ c ∈ n.children, c.Fit cover :=
  everywhere_iff

/-- Covers only add to what is allowed. -/
lemma Fit.tidy {cover : Bool} {n : Node} (h : n.Fit cover) : n.Tidy := by
  refine h.mono fun m hm => ?_
  cases cover with
  | true => exact hm
  | false => exact ((fits_false_iff m).1 hm).1

section Fragments

variable {cover : Bool}

lemma fit_identifier (name : String) : (identifier name).Fit cover :=
  fit_iff.2 ⟨rfl, by simp [children]⟩

lemma fit_literal (kind : LiteralKind) (raw : String) : (literal kind raw).Fit cover :=
  fit_iff.2 ⟨rfl, by simp [children]⟩

lemma fit_dot (owner key : String) : (dot (identifier owner) key).Fit cover := by
  refine fit_iff.2 ⟨rfl, ?_⟩
  simp [dot, children, fit_identifier]

/-- A call of a method of a proxy fits if its arguments do. -/
lemma fit_callMethod (name method : String) {arguments : List Node}
    (hargument : ∀ a ∈ arguments, a.isArgument = true) (hfit : ∀ a ∈ arguments, a.Fit cover) :
    (callMethod (identifier name) method arguments).Fit cover := by
  refine fit_iff.2 ⟨?_, List.forall_mem_cons.2 ⟨fit_dot name method, hfit⟩⟩
  simp only [callMethod, fits, dot, isExpression, Bool.true_and, List.all_eq_true]
  exact hargument

lemma fit_readProxy (name : String) : (readProxy name).Fit cover :=
  fit_callMethod name "get" (by simp) (by simp)

lemma fit_writeProxy (name : String) {value : Node} (hvalue : value.isExpression = true)
    (hfit : value.Fit cover) : (writeProxy name value).Fit cover := by
  refine fit_callMethod name "set" (List.forall_mem_singleton.2 ?_) (by simpa using hfit)
  rw [isArgument, hvalue, Bool.true_or]

lemma fit_updateProxy (name : String) (operator : BinaryOperator) (kind : LiteralKind)
    (raw : String) : (updateProxy name operator (literal kind raw)).Fit cover := by
  refine fit_writeProxy name rfl (fit_iff.2 ⟨rfl, ?_⟩)
  simp [children, fit_readProxy, fit_literal]

end Fragments

end Node

namespace ProxyNames

open Node

variable {names : ProxyNames} {cover : Bool} {n m : Node}

/-! ### Single changes -/

/-- A proxy around a value fits if the value does. -/
lemma fit_wrap (type : ProxyType) {value : Option Node}
    (hvalue : ∀ v ∈ value, v.isExpression = true) (hfit : ∀ v ∈ value, v.Fit cover) :
    (names.wrap type value).Fit cover := by
  refine fit_iff.2 ⟨?_, List.forall_mem_cons.2 ⟨fit_dot _ _, fun v hv => ?_⟩⟩
  · simp only [wrap, construct, fits, dot, isExpression, Bool.true_and, List.all_eq_true]
    intro v hv
    rw [isArgument, hvalue v (Option.mem_toList.1 hv), Bool.true_or]
  · exact hfit v (Option.mem_toList.1 hv)

lemma fit_declarator (name : String) {value : Node} (hvalue : value.isExpression = true)
    (hfit : value.Fit cover) : (Node.declarator (.identifier name) (some value)).Fit cover := by
  refine fit_iff.2 ⟨hvalue, ?_⟩
  simpa [children, fit_identifier] using hfit

/-- An argument that is read stays an argument and fits. -/
lemma isArgument_readArgument (h : n.isArgument = true) : (readArgument n).isArgument = true := by
  cases n <;> first | rfl | exact h

lemma fit_readArgument (h : n.Fit cover) : (readArgument n).Fit cover := by
  unfold readArgument readName
  split
  · exact fit_readProxy _
  · exact h

/-- A changed node resembles what it was. -/
lemma Change.resembles {parent : Option NodeKind} (h : names.Change parent n m)
    (inHead : Bool) : Resembles cover inHead n m := by
  cases h with
  | same => exact .refl _
  | hoist | write | compute | step | read =>
    refine ⟨fun p => ?_, fun _ => by rintro ⟨⟩, fun _ => by rintro ⟨⟩⟩
    cases p <;> first | (intro _; rfl) | rintro ⟨⟩

/-- A change leaves a tree in which every node fits. -/
lemma Change.fit {parent : Option NodeKind} (h : names.Change parent n m)
    (hn : n.Fit cover) : m.Fit cover := by
  obtain ⟨hroot, hbelow⟩ := fit_iff.1 hn
  cases h with
  | same => exact hn
  | hoist name params body isAsync isGenerator hparent hk =>
    have hfunction : (Node.function .expression (some name) params body isAsync isGenerator).Fit
        cover := by
      refine fit_iff.2 ⟨?_, hbelow⟩
      simp only [fits, Bool.and_eq_true] at hroot ⊢
      exact ⟨⟨rfl, hroot.1.2⟩, hroot.2⟩
    have hproxy : (names.wrap .function (some (.function .expression (some name) params body isAsync
        isGenerator))).Fit cover :=
      fit_wrap _ (by simp [isExpression]) (by simpa using hfunction)
    refine fit_iff.2 ⟨rfl, List.forall_mem_singleton.2 ?_⟩
    exact fit_declarator name rfl hproxy
  | write name value =>
    simp only [fits, Bool.and_eq_true] at hroot
    exact fit_writeProxy name hroot.2 (hbelow value (by simp [children]))
  | compute operator arithmetic name kind raw => exact fit_updateProxy name arithmetic kind raw
  | step operator leading name => exact fit_updateProxy name _ _ _
  | read id callee arguments =>
    obtain ⟨hid, hproxy⟩ := List.forall_mem_cons.1 hbelow
    obtain ⟨hconstruction, hparts⟩ := fit_iff.1 (List.forall_mem_singleton.1 hproxy)
    obtain ⟨hcallee, harguments⟩ := List.forall_mem_cons.1 hparts
    simp only [fits, Bool.and_eq_true, List.all_eq_true] at hconstruction
    have hread : (Node.construction callee (arguments.map readArgument)).Fit cover := by
      refine fit_iff.2 ⟨?_, List.forall_mem_cons.2 ⟨hcallee, List.forall_mem_map.2 ?_⟩⟩
      · simp only [fits, Bool.and_eq_true, List.all_eq_true, List.forall_mem_map]
        exact ⟨hconstruction.1, fun a ha => isArgument_readArgument (hconstruction.2 a ha)⟩
      · exact fun a ha => fit_readArgument (harguments a ha)
    refine fit_iff.2 ⟨hroot, List.forall_mem_cons.2 ⟨hid, List.forall_mem_singleton.2 hread⟩⟩

/-! ### The passes -/

variable {f : Option NodeKind → Node → Counted Node}

/-- A node with children that resemble what they were, all of which fit, fits. -/
lemma fit_withChildren {cs : List Node} {inHead : Bool}
    (hcs : List.Forall₂ (Resembles cover inHead) n.children cs) (hfit : ∀ d ∈ cs, d.Fit cover)
    (hleft : ∀ left left', n.leftSide? = some left → (n.withChildren cs).leftSide? = some left' →
      left.isLoopTarget = true → left'.isLoopTarget = true)
    (hn : n.fits cover = true) : (n.withChildren cs).Fit cover := by
  refine fit_iff.2 ⟨fits_of_congruent (congruent_withChildren hcs) hleft hn, ?_⟩
  rw [children_withChildren n hcs.length_eq.symm]
  exact hfit

/-- A pass leaves a tree in which every node fits. -/
lemma fit_rebuild (hf : names.Changes f) (parent : Option NodeKind)
    (hn : n.Fit cover) : (rebuildM f parent n).value.Fit cover := by
  have h := rebuild_induction (f := f) (P := fun _ n m => Resembles cover true n m ∧
    (n.Fit cover → m.Fit cover)) ?_ parent n
  · exact h.2 hn
  · intro parent n cs hcs
    have hresembles := hcs.imp fun _ _ hcd => hcd.1
    have hfilled := (congruent_withChildren hresembles).resembles
    refine ⟨hfilled.trans ((hf parent _).resembles true), fun hn => ?_⟩
    obtain ⟨hroot, hbelow⟩ := fit_iff.1 hn
    refine (hf parent _).fit (fit_withChildren hresembles ?_ ?_ hroot)
    · intro d hd
      obtain ⟨c, hc, hcd⟩ := exists_of_mem_right hcs hd
      exact hcd.2 (hbelow c hc)
    · intro left left' hleft hleft' htarget
      cases n with
      | forEach iteration side right body =>
        cases hleft
        obtain ⟨side', rest, hside, hrest, rfl⟩ := List.forall₂_cons_left_iff.1 hresembles
        cases hleft'
        exact hside.loopTarget rfl htarget
      | _ => cases hleft

/-! ### Wrapping -/

variable {read : List String}

lemma isExpression_wrappedFunction (h : n.isExpression = true) :
    (names.wrappedFunction n).isExpression = true := by
  unfold wrappedFunction
  split
  · rfl
  · exact h

lemma isExpression_of_isFunctionValue (h : n.isFunctionValue = true) : n.isExpression = true := by
  unfold isFunctionValue at h
  split at h
  · rfl
  · rfl
  · cases h

lemma fit_wrappedFunction (h : n.Fit cover) : (names.wrappedFunction n).Fit cover := by
  unfold wrappedFunction
  split
  · next hfunction =>
    have hexpression := isExpression_of_isFunctionValue hfunction
    exact fit_wrap _ (by simpa using hexpression) (by simpa using h)
  · exact h

lemma isArgument_wrappedArgument (h : n.isArgument = true) :
    (names.wrappedArgument read n).isArgument = true := by
  unfold wrappedArgument
  split
  · split
    · rfl
    · rfl
  · unfold wrappedFunction
    split
    · rfl
    · exact h

lemma fit_wrappedArgument (h : n.Fit cover) : (names.wrappedArgument read n).Fit cover := by
  unfold wrappedArgument
  split
  · split
    · exact fit_readProxy _
    · exact h
  · exact fit_wrappedFunction h

/-- A wrapped node resembles what it was. -/
lemma resembles_wrappedNode (inHead : Bool) (n : Node) :
    Resembles cover false n (names.wrappedNode read inHead n) := by
  cases n with
  | declarator id init =>
    cases id with
    | identifier name =>
      refine ⟨fun p => ?_, by rintro ⟨⟩, by rintro ⟨⟩⟩
      cases p <;> exact id
    | _ => exact .refl _
  | call =>
    refine ⟨fun p => ?_, by rintro ⟨⟩, by rintro ⟨⟩⟩
    cases p <;> exact id
  | _ => exact .refl _

/-- Wrapping a node leaves a tree in which every node fits. -/
lemma fit_wrappedNode (inHead : Bool) (hn : n.Fit cover) :
    (names.wrappedNode read inHead n).Fit cover := by
  obtain ⟨hroot, hbelow⟩ := fit_iff.1 hn
  cases n with
  | declarator id init =>
    cases id with
    | identifier name =>
      cases inHead with
      | true => exact hn
      | false =>
        refine fit_declarator name rfl (fit_wrap _ (fun v hv => ?_) fun v hv => ?_)
        · simp only [fits, Bool.and_eq_true, Option.all_eq_true] at hroot
          exact hroot.2 v hv
        · exact hbelow v (List.mem_cons_of_mem _ (Option.mem_toList.2 hv))
    | _ => exact hn
  | call callee arguments optional =>
    obtain ⟨hcallee, harguments⟩ := List.forall_mem_cons.1 hbelow
    simp only [fits, Bool.and_eq_true, List.all_eq_true] at hroot
    refine fit_iff.2 ⟨?_, List.forall_mem_cons.2 ⟨fit_wrappedFunction hcallee, ?_⟩⟩
    · simp only [wrappedNode, fits, Bool.and_eq_true, List.all_eq_true, List.forall_mem_map]
      exact ⟨isExpression_wrappedFunction hroot.1,
        fun a ha => isArgument_wrappedArgument (hroot.2 a ha)⟩
    · exact List.forall_mem_map.2 fun a ha => fit_wrappedArgument (harguments a ha)
  | _ => exact hn

/-- A relation between the children and the wrapped children of a node. -/
lemma forall₂_wrapped {R : Node → Node → Prop} {inHead : Bool}
    (h : ∀ c ∈ n.children, ∀ inHead, R c (names.wrapped read c inHead)) :
    List.Forall₂ R n.children (n.children.mapIdx fun place c =>
      names.wrapped read c (n.headSlot inHead place)) := by
  refine List.forall₂_iff_get.2 ⟨by simp, fun place hplace _ => ?_⟩
  simp only [List.get_eq_getElem, List.getElem_mapIdx]
  exact h _ (List.getElem_mem hplace) _

lemma resembles_wrapped (n : Node) (inHead : Bool) :
    Resembles cover false n (names.wrapped read n inHead) := by
  induction n using induction_on_children generalizing inHead with
  | step n ih =>
    rw [wrapped_eq]
    exact (congruent_withChildren (forall₂_wrapped ih)).resembles.trans
      (resembles_wrappedNode inHead _)

/-- The declarator of a loop head is left alone. -/
lemma wrappedNode_head (id : Node) (init : Option Node) :
    names.wrappedNode read true (.declarator id init) = .declarator id init := by
  cases id <;> rfl

/-- The left side of a loop over a value stays a target of the loop. -/
lemma isLoopTarget_wrapped {left : Node} (h : left.isLoopTarget = true) :
    (names.wrapped read left left.isDeclaration).isLoopTarget = true := by
  by_cases hdeclaration : left.isDeclaration = true
  · unfold isLoopTarget at h
    split at h
    · next kind id =>
      have hdeclarator : names.wrapped read (.declarator id none) true =
          .declarator (names.wrapped read id false) none :=
        (wrapped_eq names read _ true).trans (wrappedNode_head _ _)
      have hleft : names.wrapped read (.declaration kind [.declarator id none]) true =
          .declaration kind [names.wrapped read (.declarator id none) true] :=
        wrapped_eq names read _ true
      rw [hdeclaration, hleft, hdeclarator]
      rfl
    · have hnone : left.isTarget = false := by
        cases left <;> first | rfl | cases hdeclaration
      rw [hnone] at h
      cases h
  · have hfree : left.isDeclaration = false := Bool.eq_false_iff.2 hdeclaration
    rw [isLoopTarget_eq hfree] at h
    have hkeep : Resembles true false left (names.wrapped read left left.isDeclaration) :=
      resembles_wrapped left _
    exact Grammar.isLoopTarget_of_isTarget (hkeep.kept .target h)

/-- Wrapping by place leaves a tree in which every node fits. -/
lemma fit_wrapped (hn : n.Fit cover) (inHead : Bool) : (names.wrapped read n inHead).Fit cover := by
  induction n using induction_on_children generalizing inHead with
  | step n ih =>
    obtain ⟨hroot, hbelow⟩ := fit_iff.1 hn
    rw [wrapped_eq]
    refine fit_wrappedNode inHead (fit_withChildren (forall₂_wrapped fun c _ => resembles_wrapped c)
      ?_ ?_ hroot)
    · intro d hd
      obtain ⟨place, hplace, rfl⟩ := List.mem_mapIdx.1 hd
      exact ih _ (List.getElem_mem hplace) (hbelow _ (List.getElem_mem hplace)) _
    · intro left left' hleft hleft' htarget
      cases n with
      | forEach iteration side right body =>
        cases hleft
        have hslot : (Node.forEach iteration left right body).headSlot inHead 0 =
            left.isDeclaration := by
          rw [headSlot, beq_self_eq_true, Bool.and_true]
        have hside : left' = names.wrapped read left
            ((Node.forEach iteration left right body).headSlot inHead 0) :=
          (Option.some.inj hleft').symm
        rw [hside, hslot]
        exact isLoopTarget_wrapped htarget
      | _ => cases hleft

end ProxyNames

namespace Node

/-! ### Bodies -/

/-- The nodes that stand as bodies of branches, loops and labels. -/
def bodies : Node → List Node
  | conditionalStatement _ consequent alternate => consequent :: alternate.toList
  | whileLoop _ body | doWhileLoop body _ | forLoop _ _ _ body | forEach _ _ _ body
  | labeled _ body => [body]
  | _ => []

/-- The kinds of the nodes that stand as bodies in a tree, in the order of the nodes that they are
bodies of. -/
def bodyKinds : Node → List NodeKind :=
  fold fun n below => n.bodies.map kind ++ below.flatten

lemma bodyKinds_eq (n : Node) :
    n.bodyKinds = n.bodies.map kind ++ n.children.flatMap bodyKinds := by
  rw [bodyKinds, fold_eq, List.flatMap_def]

/-- Bodies keep their kinds if statements do, outside lists of statements. -/
lemma Congruent.map_kind_bodies {R : Node → Node → Prop} {cover : Bool} {n m : Node}
    (h : Congruent R n m)
    (hkind : n.kind.isStatementList = false → ∀ c d, R c d → c.isStatement = true → d.kind = c.kind)
    (hn : n.fits cover = true) : m.bodies.map kind = n.bodies.map kind := by
  cases h
  all_goals simp only [fits, Bool.and_eq_true] at hn
  case conditionalStatement htest hconsequent halternate =>
    have hsame := hkind rfl _ _ hconsequent hn.1.2
    cases halternate with
    | none => simp [bodies, hsame]
    | some halternate => simp [bodies, hsame, hkind rfl _ _ halternate hn.2]
  case whileLoop htest hbody | doWhileLoop hbody htest => simp [bodies, hkind rfl _ _ hbody hn.2]
  case forLoop hinit htest hstep hbody => simp [bodies, hkind rfl _ _ hbody hn.2]
  case forEach iteration _ _ _ _ _ _ hleft hright hbody =>
    simp [bodies, hkind (by cases iteration <;> rfl) _ _ hbody hn.2]
  case labeled hbody => simp [bodies, hkind rfl _ _ hbody hn]
  all_goals rfl

/-- A node with other children has the same kinds of bodies below it if the children do. -/
lemma bodyKinds_withChildren {cover : Bool} {n : Node} {cs : List Node}
    (hcs : List.Forall₂ (fun c d =>
      (n.kind.isStatementList = false → c.isStatement = true → d.kind = c.kind) ∧
        d.bodyKinds = c.bodyKinds) n.children cs)
    (hn : n.fits cover = true) : (n.withChildren cs).bodyKinds = n.bodyKinds := by
  have hbelow : cs.flatMap bodyKinds = n.children.flatMap bodyKinds :=
    flatMap_of_forall₂ (hcs.imp fun _ _ hcd => hcd.2)
  rw [bodyKinds_eq, bodyKinds_eq n, children_withChildren n hcs.length_eq.symm, hbelow,
    (congruent_withChildren hcs).map_kind_bodies (fun hlist c d hcd => hcd.1 hlist) hn]

/-- The nodes in the fragments of the changes are no statements with bodies. -/
lemma gathered_bodyKinds : Gathered bodyKinds := by
  intro n hn
  rw [bodyKinds_eq]
  cases n <;> cases hn <;> rfl

end Node

namespace ProxyNames

open Node

variable {names : ProxyNames} {cover : Bool} {read : List String} {n m : Node}

/-- A change neither adds nor removes a body. -/
lemma Change.bodyKinds_eq {parent : Option NodeKind} (h : names.Change parent n m) :
    m.bodyKinds = n.bodyKinds :=
  gathered_bodyKinds.of_change (fun _ _ _ => rfl) h

/-- Assignments and updates are no statements. -/
lemma kind_ne_of_isStatement (h : n.isStatement = true) :
    n.kind ≠ .assignment ∧ n.kind ≠ .update := by
  cases n with
  | assignment => cases h
  | update => cases h
  | forEach iteration => cases iteration <;> exact ⟨nofun, nofun⟩
  | jump jump => cases jump <;> exact ⟨nofun, nofun⟩
  | function role => cases role <;> exact ⟨nofun, nofun⟩
  | classDefinition role => cases role <;> exact ⟨nofun, nofun⟩
  | _ => exact ⟨nofun, nofun⟩

/-- Outside lists of statements, no change gives a statement another kind. -/
lemma kind_eq_of_becomes {k : NodeKind} (hk : k.isStatementList = false)
    (h : Becomes (some k) n.kind m.kind) (hn : n.isStatement = true) : m.kind = n.kind := by
  obtain ⟨hassignment, hupdate⟩ := kind_ne_of_isStatement hn
  generalize n.kind = before at h hassignment hupdate
  generalize m.kind = after at h
  cases h with
  | same => rfl
  | assignment => exact absurd rfl hassignment
  | update => exact absurd rfl hupdate
  | function hparent hlist =>
    cases hparent
    rw [hk] at hlist
    cases hlist

/-- A pass leaves the kinds of bodies alone. -/
lemma bodyKinds_rebuild {f : Option NodeKind → Node → Counted Node} (hf : names.Changes f)
    (parent : Option NodeKind) (hn : n.Fit cover) :
    (rebuildM f parent n).value.bodyKinds = n.bodyKinds := by
  have h := rebuild_induction (f := f) (P := fun parent n m => names.Alike parent n m ∧
    (n.Fit cover → m.bodyKinds = n.bodyKinds)) ?_ parent n
  · exact h.2 hn
  · intro parent n cs hcs
    refine ⟨.of_children (hcs.imp fun _ _ hcd => hcd.1) (hf parent _), fun hn => ?_⟩
    obtain ⟨hroot, hbelow⟩ := fit_iff.1 hn
    rw [(hf parent _).bodyKinds_eq]
    have hchildren : List.Forall₂ (fun c d =>
        (n.kind.isStatementList = false → c.isStatement = true → d.kind = c.kind) ∧
          d.bodyKinds = c.bodyKinds) n.children cs := by
      refine List.forall₂_iff_get.2 ⟨hcs.length_eq, fun place hplace hplace' => ?_⟩
      obtain ⟨halike, hkinds⟩ := (List.forall₂_iff_get.1 hcs).2 place hplace hplace'
      exact ⟨fun hlist => kind_eq_of_becomes hlist halike.kind,
        hkinds (hbelow _ (List.get_mem _ _))⟩
    exact bodyKinds_withChildren hchildren hroot

lemma kind_wrapped (n : Node) (inHead : Bool) : (names.wrapped read n inHead).kind = n.kind := by
  rw [wrapped_eq, kind_wrappedNode, kind_withChildren]

/-- Wrapping leaves the kinds of bodies alone. -/
lemma bodyKinds_wrapped (hn : n.Fit cover) (inHead : Bool) :
    (names.wrapped read n inHead).bodyKinds = n.bodyKinds := by
  induction n using induction_on_children generalizing inHead with
  | step n ih =>
    obtain ⟨hroot, hbelow⟩ := fit_iff.1 hn
    rw [wrapped_eq, gathered_bodyKinds.wrappedNode]
    refine bodyKinds_withChildren (forall₂_wrapped fun c hc inHead => ?_) hroot
    exact ⟨fun _ _ => kind_wrapped c inHead, ih c hc (hbelow c hc) inHead⟩

end ProxyNames

/-! ### Whole scripts -/

namespace Node

/-- A tree as a script has it, where `cover` says whether object literals may have covers. -/
structure Formed (cover : Bool) (n : Node) : Prop where
  root : n.kind = .program
  fit : n.Fit cover

/-- Without covers, these are the well-formed trees. -/
lemma formed_false_iff {n : Node} : n.Formed false ↔ n.WellFormed :=
  ⟨fun h => ⟨h.root, h.fit.mono fun _ => kind_ne_program_of_fits, h.fit⟩, fun h => ⟨h.root, h.fits⟩⟩

/-- A tree that is formed, with bodies of the same kinds as another one. -/
structure FormedAs (cover : Bool) (n m : Node) : Prop where
  formed : m.Formed cover
  bodies : m.bodyKinds = n.bodyKinds

end Node

namespace ProxyNames

open Node

variable {names : ProxyNames} {cover : Bool} {n m : Node}

/-- A pass keeps a tree formed. -/
lemma formedAs_rebuild {f : Option NodeKind → Node → Counted Node} (hf : names.Changes f)
    (hm : FormedAs cover n m) : FormedAs cover n (rebuildM f none m).value := by
  have hkind := (alike_rebuild hf none m).kind
  rw [hm.formed.root] at hkind
  have hroot : (rebuildM f none m).value.kind = .program := (hkind.eq_iff (by decide)).2 rfl
  exact ⟨⟨hroot, fit_rebuild hf none hm.formed.fit⟩,
    (bodyKinds_rebuild hf none hm.formed.fit).trans hm.bodies⟩

lemma formedAs_wrapAll (readArguments : Bool) (hn : n.Formed cover) :
    FormedAs cover n (names.wrapAll readArguments n).1 := by
  have hsingle : n.Everywhere SingleHead := hn.fit.tidy.mono fun _ => singleHead_of_fits
  rw [wrapAll_eq_wrapped hsingle]
  exact ⟨⟨(kind_wrapped n false).trans hn.root, fit_wrapped hn.fit false⟩,
    bodyKinds_wrapped hn.fit false⟩

/-- The import is one more declaration in front of the statements. -/
lemma formedAs_import {body : List Node} (h : FormedAs cover n (.program body)) :
    FormedAs cover n (.program (names.clientImport :: body)) := by
  have himport : names.clientImport.Fit cover := by
    refine fit_iff.2 ⟨rfl, List.forall_mem_singleton.2 (fit_declarator _ rfl (fit_iff.2 ⟨rfl, ?_⟩))⟩
    simp [children, fit_identifier, fit_literal]
  have hkinds : (Node.program (names.clientImport :: body)).bodyKinds =
      (Node.program body).bodyKinds := by
    rw [bodyKinds_eq, bodyKinds_eq (.program body)]
    rfl
  obtain ⟨hroot, hbelow⟩ := fit_iff.1 h.formed.fit
  exact ⟨⟨rfl, fit_iff.2 ⟨hroot, List.forall_mem_cons.2 ⟨himport, hbelow⟩⟩⟩, hkinds.trans h.bodies⟩

lemma formedAs_proxied (o : Options) (hn : n.Formed cover) : FormedAs cover n (o.proxied n) :=
  formedAs_rebuild o.names.change_readNode (formedAs_rebuild o.names.change_stepNode
    (formedAs_rebuild o.names.change_writeNode (formedAs_rebuild o.names.change_hoistNode
      (formedAs_wrapAll o.readArguments hn))))

lemma formedAs_instrumentTree (o : Options) (hn : n.Formed cover) :
    FormedAs cover n (o.instrumentTree n).1 := by
  have hproxied := formedAs_proxied o hn
  obtain ⟨body, hbody⟩ := exists_eq_program hproxied.formed.root
  rw [o.fst_instrumentTree]
  cases o.importClient with
  | false => exact hproxied
  | true =>
    rw [hbody] at hproxied ⊢
    exact formedAs_import hproxied

/-- What each pass and the whole of them make of a tree. -/
def passResults (names : ProxyNames) (readArguments : Bool) (o : Options) (n : Node) : List Node :=
  [(names.wrapAll readArguments n).1, (names.hoistFunctions n).value, n.writeAssignments.value,
    n.writeUpdates.value, (names.readConstructorArguments n).value, (o.instrumentTree n).1]

lemma formedAs_passResults (readArguments : Bool) (o : Options) (hn : n.Formed cover) :
    ∀ m ∈ names.passResults readArguments o n, FormedAs cover n m := by
  have hself : FormedAs cover n n := ⟨hn, rfl⟩
  simp only [passResults, List.forall_mem_cons, List.not_mem_nil, false_implies, implies_true,
    and_true]
  exact ⟨formedAs_wrapAll readArguments hn, formedAs_rebuild names.change_hoistNode hself,
    formedAs_rebuild names.change_writeNode hself, formedAs_rebuild names.change_stepNode hself,
    formedAs_rebuild names.change_readNode hself, formedAs_instrumentTree o hn⟩

end ProxyNames

/-- Every single pass leaves a well-formed tree well formed, and so do all of them together, with or
without the import; the same holds of trees with covers.  No node becomes a body or stops being one,
and no body changes its kind, so a declaration stands in the place of a body only if one stood there
before. -/
theorem wellFormed_passResults (names : ProxyNames) (readArguments : Bool) (o : Options) (n : Node) :
    ∀ m ∈ names.passResults readArguments o n,
      (n.WellFormed → m.WellFormed ∧ m.bodyKinds = n.bodyKinds) ∧
        (n.kind = .program → n.Tidy →
          m.kind = .program ∧ m.Tidy ∧ m.bodyKinds = n.bodyKinds) := by
  intro m hm
  constructor
  · intro hn
    have h := ProxyNames.formedAs_passResults readArguments o (Node.formed_false_iff.2 hn) m hm
    exact ⟨Node.formed_false_iff.1 h.formed, h.bodies⟩
  · intro hroot htidy
    have h := ProxyNames.formedAs_passResults readArguments o (Node.Formed.mk hroot htidy) m hm
    exact ⟨h.formed.root, h.formed.fit, h.bodies⟩

/-- A script with a declared function that stands as the body of a label, a loop that declares its
target, and a method. -/
def bodiesScript : Node :=
  .program [
    .labeled "a" (.function .declaration (some "f") [] (.block []) false false),
    .forEach .values (.declaration .functionScoped [.declarator (.identifier "x") none])
      (.identifier "y") (.expressionStatement (.assignment .assign (.identifier "x")
        (.object [.property (.identifier "m") (.function .expression none [] (.block []) false false)
          .init false false true])))]

/-- The function that is a body stays one, and the script stays well formed. -/
theorem wellFormed_passResults_bodies :
    bodiesScript.WellFormed ∧ bodiesScript.bodyKinds = [.functionDeclaration, .expressionStatement] ∧
      (({} : Options).instrumentTree bodiesScript).1.WellFormed ∧
      (({} : Options).instrumentTree bodiesScript).1.bodyKinds =
        [.functionDeclaration, .expressionStatement] := by
  have hfit : bodiesScript.walk.all (fun m => m.fits false) = true := rfl
  have hwell : bodiesScript.WellFormed :=
    Node.formed_false_iff.1 ⟨rfl, fun m hm => List.all_eq_true.1 hfit m hm⟩
  obtain ⟨hresult, hkinds⟩ := (wellFormed_passResults {} false {} bodiesScript
    (({} : Options).instrumentTree bodiesScript).1 (by simp [ProxyNames.passResults])).1 hwell
  exact ⟨hwell, rfl, hresult, hkinds⟩

end BindingProxy
