import BindingProxy.Proofs.Proxy.Commuting
import BindingProxy.Proofs.Proxy.Tally
import Mathlib.Algebra.BigOperators.Group.List.Basic

/-!
# The numbers of changes

An instrumented script comes with the numbers of the changes that were made.  They are found while
the tree is rebuilt, pass after pass, so what a pass counts are nodes of a tree that earlier passes
have left.  Still each number is the number of certain nodes of the script as it was read.

A pass counts at a node what its rule does there, and the rule depends on the children only through
their `Looks`: a plain name, a literal or the names that a new proxy is given.  These are kept by
every pass and by wrapping, so a pass counts in a rebuilt tree what it would have counted before.
The exception are the values of wrapped declarators, which are given to a new proxy that was not
there before: `constructorArguments` tells them from the arguments that the script itself gives to a
proxy.
-/

namespace BindingProxy

open Node

/-- A declaration of a function with a name. -/
def Node.declaresFunction : Node → Bool
  | function .declaration (some _) _ _ _ _ => true
  | _ => false

/-- The value of a declarator. -/
def Node.declaredValue : Node → Option Node
  | declarator _ init => init
  | _ => none

namespace ProxyNames

variable (names : ProxyNames)

/-! ### What a rule counts -/

/-- The arguments given to the constructor of the proxy that is the value of a declarator. -/
def valueArguments : Node → List Node
  | .declarator _ (some value) => (names.proxyArguments? value).getD []
  | _ => []

/-- The arguments that the constructor of a proxy is given by a declarator in its place: the value
of the declarator if it is wrapped, and what the script gives otherwise. -/
def constructorArguments (d : Node × Bool) : List Node :=
  if isWrapped d then d.1.declaredValue.toList else names.valueArguments d.1

/-- The parts of a node that the rules of the passes look at. -/
structure Looks (n m : Node) : Prop where
  name : m.name? = n.name?
  literal : m.kind = .literal ↔ n.kind = .literal
  arguments : (names.proxyArguments? m).map (List.map name?) =
    (names.proxyArguments? n).map (List.map name?)

variable {names}

lemma count_readName (n : Node) : (readName n).count = n.name?.isSome.toNat := by
  cases n <;> rfl

lemma count_mapM_readName (ns : List Node) :
    (ns.mapM readName).count = ns.countP fun n => n.name?.isSome := by
  rw [Counted.count_mapM]
  simp only [count_readName]
  exact sum_map_toNat _ ns

/-- The rule for constructor arguments counts the names among them. -/
lemma count_readNode (n : Node) :
    (names.readNode n).count = (names.valueArguments n).countP fun a => a.name?.isSome := by
  cases n with
  | declarator id init =>
    cases init with
    | none => rfl
    | some value =>
      rw [valueArguments]
      cases hproxy : names.proxyArguments? value with
      | none =>
        rw [readNode_eq_pure hproxy]
        rfl
      | some arguments =>
        obtain ⟨callee, rfl, hcallee⟩ := exists_of_proxyArguments? hproxy
        rw [readNode_of_callee hcallee, Counted.count_map, count_mapM_readName]
        rfl
  | _ => rfl

lemma count_writeNode (n : Node) : n.writeNode.count = n.isWrite.toNat := by
  rcases writeNode_cases n with ⟨hno, hpure⟩ | ⟨hyes, ⟨_, _, _, hchanged⟩ |
    ⟨_, _, _, _, _, _, hchanged⟩⟩
  · rw [hno, hpure]
    rfl
  · rw [hyes, hchanged]
    rfl
  · rw [hyes, hchanged]
    rfl

lemma count_stepNode (n : Node) : n.stepNode.count = n.isStep.toNat := by
  rcases stepNode_cases n with ⟨hno, hpure⟩ | ⟨hyes, _, _, _, _, hchanged⟩
  · rw [hno, hpure]
    rfl
  · rw [hyes, hchanged]
    rfl

/-- The rule for functions counts the declarations in lists of statements. -/
lemma count_hoistNode (parent : Option NodeKind) (n : Node) :
    (names.hoistNode parent n).count =
      (parent.any NodeKind.isStatementList && n.declaresFunction).toNat := by
  unfold hoistNode
  split
  · next k name params body isAsync isGenerator =>
    rw [declaresFunction, Bool.and_true, Option.any_some]
    cases k.isStatementList <;> rfl
  · next hnot =>
    cases parent with
    | none => rfl
    | some k =>
      have hno : n.declaresFunction = false := by
        unfold declaresFunction
        split
        · exact absurd rfl (hnot k _ _ _ _ _ rfl)
        · rfl
      rw [hno, Bool.and_false]
      rfl

lemma declaresFunction_of_named {n : Node} (h : NamesFunction n) :
    n.declaresFunction = (n.kind == .functionDeclaration) := by
  cases n with
  | function role id params body isAsync isGenerator =>
    cases role with
    | declaration =>
      cases id with
      | none => exact absurd rfl (h params body isAsync isGenerator)
      | some name => rfl
    | expression => rfl
  | forEach iteration => cases iteration <;> rfl
  | jump jump => cases jump <;> rfl
  | classDefinition role => cases role <;> rfl
  | _ => rfl

/-! ### Looks -/

/-- What is named in a new proxy decides how many names it is given. -/
lemma countP_valueArguments {id id' : Node} {init init' : Option Node}
    (h : Option.Rel names.Looks init init') :
    (names.valueArguments (.declarator id' init')).countP (fun a => a.name?.isSome) =
      (names.valueArguments (.declarator id init)).countP fun a => a.name?.isSome := by
  cases h with
  | none => rfl
  | @some value value' hvalue =>
    have hcount : ∀ v, (((names.proxyArguments? v).map (List.map name?)).getD []).countP
        Option.isSome = ((names.proxyArguments? v).getD []).countP fun a => a.name?.isSome := by
      intro v
      cases names.proxyArguments? v with
      | none => rfl
      | some arguments => exact List.countP_map
    rw [valueArguments, valueArguments, ← hcount, ← hcount, hvalue.arguments]

/-- A rule counts the same at a node whose children look the same. -/
lemma count_rule_withChildren {n : Node} {cs : List Node}
    (h : List.Forall₂ names.Looks n.children cs) (p : AccessPass) (parent : Option NodeKind) :
    (names.rule p parent (n.withChildren cs)).count = (names.rule p parent n).count := by
  have hcongruent := congruent_withChildren h
  generalize n.withChildren cs = m at hcongruent
  cases p with
  | functions =>
    rw [rule, rule, count_hoistNode, count_hoistNode]
    cases hcongruent with
    | @function role id => cases role <;> cases id <;> rfl
    | _ => rfl
  | assignments =>
    rw [rule, rule, count_writeNode, count_writeNode]
    cases hcongruent with
    | assignment hleft hright =>
      have hliteral := Bool.eq_iff_iff.2 ((beq_iff_eq.trans hright.literal).trans beq_iff_eq.symm)
      rw [isWrite, isWrite, hleft.name, hliteral]
    | _ => rfl
  | updates =>
    rw [rule, rule, count_stepNode, count_stepNode]
    cases hcongruent with
    | update hargument => exact congrArg (·.isSome.toNat) hargument.name
    | _ => rfl
  | arguments =>
    rw [rule, rule, count_readNode, count_readNode]
    cases hcongruent with
    | declarator hid hinit => exact countP_valueArguments hinit
    | _ => rfl

/-- Constructions of proxies look the same if their parts do. -/
lemma map_proxyArguments?_construction {callee callee' : Node} {arguments arguments' : List Node}
    (hcallee : names.isProxyCallee callee' = names.isProxyCallee callee)
    (harguments : List.Forall₂ (fun a b => b.name? = a.name?) arguments arguments') :
    (names.proxyArguments? (.construction callee' arguments')).map (List.map name?) =
      (names.proxyArguments? (.construction callee arguments)).map (List.map name?) := by
  rw [proxyArguments?, proxyArguments?, hcallee]
  split
  · exact congrArg some (map_of_forall₂ harguments)
  · rfl

/-- What a node keeps of its looks when its children are changed. -/
lemma Alike.looks {parent : Option NodeKind} {n m : Node} (h : names.Alike parent n m)
    (hconstruction : ∀ callee arguments, n = .construction callee arguments →
      (names.proxyArguments? m).map (List.map name?) =
        (names.proxyArguments? n).map (List.map name?)) : names.Looks n m where
  name := h.name
  literal := by
    have hkind := h.kind
    generalize n.kind = k, m.kind = k' at hkind
    cases hkind <;> simp
  arguments := by
    cases hproxy : names.proxyArguments? n with
    | none => rw [h.proxyArguments?_eq_none hproxy]
    | some arguments =>
      obtain ⟨callee, hn, -⟩ := exists_of_proxyArguments? hproxy
      rw [← hproxy]
      exact hconstruction callee arguments hn

/-- A pass keeps the looks of a tree. -/
lemma looks_sweep (p : AccessPass) (parent : Option NodeKind) (n : Node) :
    names.Looks n (names.sweep p parent n).value := by
  refine (alike_sweep p parent n).looks ?_
  rintro callee arguments rfl
  rw [sweep_construction]
  simp only [Counted.value_bind, Counted.value_pure, Counted.value_mapM]
  refine map_proxyArguments?_construction (alike_sweep p _ callee).callee ?_
  rw [List.forall₂_map_right_iff, List.forall₂_same]
  exact fun a _ => (alike_sweep p _ a).name

/-- A pass counts what its rule does to the nodes as they were before it. -/
lemma count_sweep_eq (p : AccessPass) (parent : Option NodeKind) (n : Node) :
    (names.sweep p parent n).count = (names.rule p parent n).count +
      (n.children.map fun c => (names.sweep p (some n.kind) c).count).sum := by
  have hchildren : List.Forall₂ names.Looks n.children
      (n.children.map fun c => (names.sweep p (some n.kind) c).value) := by
    rw [List.forall₂_map_right_iff, List.forall₂_same]
    exact fun c _ => looks_sweep p _ c
  rw [count_sweep, sweepBelow, count_rule_withChildren hchildren, Nat.add_comm]

/-! ### Counts after wrapping -/

variable {read : List String}

lemma alike_wrapped (read : List String) (parent : Option NodeKind) (n : Node) (inHead : Bool) :
    names.Alike parent n (names.wrapped read n inHead) := by
  induction n using induction_on_children generalizing parent inHead with
  | step n ih =>
    rw [wrapped_eq]
    exact .of_wrapped parent inHead (forall₂_mapIdx inHead fun c hc _ => ih c hc _ _)

/-- Wrapping by place keeps the looks of a tree. -/
lemma looks_wrapped (n : Node) (inHead : Bool) :
    names.Looks n (names.wrapped read n inHead) := by
  refine (alike_wrapped read none n inHead).looks ?_
  rintro callee arguments rfl
  have hcongruent := congruent_withChildren (forall₂_mapIdx
    (n := .construction callee arguments) inHead fun c _ =>
      names.alike_wrapped read (some .construction) c)
  rw [wrapped_eq]
  generalize withChildren _ _ = m at hcongruent
  cases hcongruent with
  | construction hcallee harguments =>
    exact map_proxyArguments?_construction hcallee.callee (harguments.imp fun _ _ hab => hab.name)

/-- A pass goes through a new proxy to its value. -/
lemma count_sweep_wrap (p : AccessPass) {k : NodeKind} (hk : k.isStatementList = false)
    (type : ProxyType) (value : Option Node) :
    (names.sweep p (some k) (names.wrap type value)).count =
      (value.toList.map fun v => (names.sweep p (some k) v).count).sum := by
  have hparent : names.sweep p (some .construction) = names.sweep p (some k) :=
    sweep_parent p rfl hk
  rw [wrap, construct, sweep_construction, hparent]
  simp [sweep_dot, Counted.count_mapM]

lemma count_sweep_wrappedFunction (p : AccessPass) {k : NodeKind} (hk : k.isStatementList = false)
    (n : Node) :
    (names.sweep p (some k) (names.wrappedFunction n)).count =
      (names.sweep p (some k) n).count := by
  unfold wrappedFunction
  split
  · rw [count_sweep_wrap p hk]
    simp
  · rfl

lemma count_sweep_wrappedArgument (p : AccessPass) {k : NodeKind} (hk : k.isStatementList = false)
    (n : Node) :
    (names.sweep p (some k) (names.wrappedArgument read n)).count =
      (names.sweep p (some k) n).count := by
  unfold wrappedArgument
  split
  · next name =>
    split
    · rw [sweep_readProxy, sweep_identifier]
      rfl
    · rfl
  · exact count_sweep_wrappedFunction p hk _

/-- A pass finds below a wrapped node what it would have found below the node itself. -/
lemma count_sweep_wrappedNode (p : AccessPass) (parent : Option NodeKind) (inHead : Bool)
    (n : Node) :
    (names.sweep p parent (names.wrappedNode read inHead n)).count =
      (names.rule p parent (names.wrappedNode read inHead n)).count +
        (n.children.map fun c => (names.sweep p (some n.kind) c).count).sum := by
  rw [count_sweep_eq, kind_wrappedNode]
  cases n with
  | declarator id init =>
    cases id with
    | identifier name =>
      cases inHead with
      | true => rfl
      | false =>
        simp [wrappedNode, children, Node.kind, count_sweep_wrap p (k := .declarator) rfl]
    | _ => rfl
  | call callee arguments optional =>
    simp [wrappedNode, children, Node.kind, count_sweep_wrappedFunction p (k := .call) rfl,
      count_sweep_wrappedArgument p (k := .call) rfl, Function.comp_def]
  | _ => rfl

/-- The passes that read no arguments count at a wrapped node what they count at the node. -/
lemma count_rule_wrappedNode {p : AccessPass} (hp : p ≠ .arguments) (parent : Option NodeKind)
    (inHead : Bool) (n : Node) :
    (names.rule p parent (names.wrappedNode read inHead n)).count =
      (names.rule p parent n).count := by
  have hpure : n.kind ≠ p.kind → (names.rule p parent (names.wrappedNode read inHead n)).count =
      (names.rule p parent n).count := by
    intro h
    rw [rule_eq_pure h, rule_eq_pure (by rwa [kind_wrappedNode])]
    rfl
  cases n with
  | declarator id init => exact hpure fun h => hp (AccessPass.kind_injective h.symm)
  | call callee arguments optional => exact hpure (p.ne_kind (by simp [Node.kind]))
  | _ => rfl

/-- The pass that reads arguments counts the names that the declarator gives to its proxy. -/
lemma count_readNode_wrappedNode (inHead : Bool) (n : Node) :
    (names.readNode (names.wrappedNode read inHead n)).count =
      (names.constructorArguments (n, inHead)).countP fun a => a.name?.isSome := by
  rw [count_readNode]
  cases n with
  | declarator id init =>
    cases id with
    | identifier name =>
      cases inHead with
      | true => rfl
      | false =>
        have hvalue : names.valueArguments (names.wrappedNode read false
            (.declarator (.identifier name) init)) = init.toList := by
          simp [wrappedNode, valueArguments, proxyArguments?_wrap]
        rw [hvalue]
        rfl
    | _ => rfl
  | _ => rfl

/-- What a declarator gives to its proxy has as many names after its children are wrapped. -/
lemma countP_constructorArguments_withChildren {n : Node} {cs : List Node}
    (h : List.Forall₂ names.Looks n.children cs) (inHead : Bool) :
    (names.constructorArguments (n.withChildren cs, inHead)).countP (fun a => a.name?.isSome) =
      (names.constructorArguments (n, inHead)).countP fun a => a.name?.isSome := by
  have hcongruent := congruent_withChildren h
  generalize n.withChildren cs = m at hcongruent
  cases hcongruent with
  | declarator hid hinit =>
    rw [constructorArguments, constructorArguments, isWrapped, isWrapped, hid.name]
    split
    · cases hinit with
      | none => rfl
      | some hvalue => simp [declaredValue, hvalue.name]
    · exact countP_valueArguments hinit
  | _ => rfl

/-- What a pass counts in a wrapped tree, from what it counts in the wrapped children. -/
lemma count_sweep_wrapped (p : AccessPass) (parent : Option NodeKind) (n : Node) (inHead : Bool) :
    (names.sweep p parent (names.wrapped read n inHead)).count =
      (names.rule p parent (names.wrappedNode read inHead (n.withChildren
        (n.children.mapIdx fun place c => names.wrapped read c (n.headSlot inHead place))))).count +
        (n.children.mapIdx fun place c => (names.sweep p (some n.kind)
          (names.wrapped read c (n.headSlot inHead place))).count).sum := by
  rw [wrapped_eq, count_sweep_wrappedNode, kind_withChildren,
    children_withChildren n List.length_mapIdx]
  rw [map_mapIdx]

/-- The passes that read no arguments count in a wrapped tree what they count in the tree. -/
lemma count_sweep_wrapped_of_ne {p : AccessPass} (hp : p ≠ .arguments) (parent : Option NodeKind)
    (n : Node) (inHead : Bool) :
    (names.sweep p parent (names.wrapped read n inHead)).count = (names.sweep p parent n).count := by
  induction n using induction_on_children generalizing parent inHead with
  | step n ih =>
    have hbelow : (n.children.mapIdx fun place c => (names.sweep p (some n.kind)
        (names.wrapped read c (n.headSlot inHead place))).count) =
          n.children.map fun c => (names.sweep p (some n.kind) c).count :=
      (mapIdx_congr inHead fun c hc inHead => ih c hc _ inHead).trans (mapIdx_eq_map _ _)
    rw [count_sweep_wrapped, count_rule_wrappedNode hp, count_rule_withChildren
      (forall₂_mapIdx inHead fun c _ => looks_wrapped c), hbelow, count_sweep_eq p parent n]

/-- The pass that reads arguments counts in a wrapped tree the names that declarators give to their
proxies. -/
lemma count_sweep_arguments_wrapped (parent : Option NodeKind) (n : Node) (inHead : Bool) :
    (names.sweep .arguments parent (names.wrapped read n inHead)).count =
      ((n.placedDeclarators inHead).flatMap names.constructorArguments).countP
        fun a => a.name?.isSome := by
  induction n using induction_on_children generalizing parent inHead with
  | step n ih =>
    have hroot : ((if n.isDeclarator then [(n, inHead)] else []).flatMap
        names.constructorArguments) = names.constructorArguments (n, inHead) := by
      cases n with
      | declarator id init => exact List.append_nil _
      | _ => rfl
    have hflatten : ∀ ds : List (List (Node × Bool)),
        (ds.flatten.flatMap names.constructorArguments).countP (fun a => a.name?.isSome) =
          (ds.map fun d => (d.flatMap names.constructorArguments).countP
            fun a => a.name?.isSome).sum := by
      intro ds
      simp only [List.countP_flatMap, List.map_flatten, List.sum_flatten, List.map_map]
      rfl
    have hbelow : (n.children.mapIdx fun place c => (names.sweep .arguments (some n.kind)
        (names.wrapped read c (n.headSlot inHead place))).count) =
          n.children.mapIdx fun place c => ((c.placedDeclarators (n.headSlot inHead place)).flatMap
            names.constructorArguments).countP fun a => a.name?.isSome :=
      mapIdx_congr inHead fun c hc inHead => ih c hc _ inHead
    rw [count_sweep_wrapped, rule, count_readNode_wrappedNode,
      countP_constructorArguments_withChildren (forall₂_mapIdx inHead fun c _ =>
        looks_wrapped c), hbelow, placedDeclarators_eq, List.flatMap_append, hroot,
      List.countP_append, hflatten, map_mapIdx]

/-! ### Counts of whole passes -/

/-- A pass that counts at every node whether it has a property counts the nodes that have it. -/
lemma count_sweep_eq_countP {p : AccessPass} {q : Node → Bool}
    (h : ∀ parent n, (names.rule p parent n).count = (q n).toNat) (parent : Option NodeKind)
    (n : Node) : (names.sweep p parent n).count = n.walk.countP q := by
  induction n using induction_on_children generalizing parent with
  | step n ih =>
    have hbelow : (n.children.map fun c => (names.sweep p (some n.kind) c).count) =
        n.children.map fun c => c.walk.countP q :=
      List.map_congr_left fun c hc => ih c hc _
    rw [count_sweep_eq, h, hbelow, walk_eq, countP_cons_toNat, List.countP_flatMap]
    rfl

/-- The pass for functions counts the declarations whose parent is a list of statements. -/
lemma count_sweep_functions {n : Node} (h : n.Everywhere NamesFunction)
    (parent : Option NodeKind) :
    (names.sweep .functions parent n).count =
      (parent.any NodeKind.isStatementList && n.kind == .functionDeclaration).toNat +
        (n.childrenUnder [.program, .block, .switchCase]).countP
          fun c => c.kind == .functionDeclaration := by
  induction n using induction_on_children generalizing parent with
  | step n ih =>
    have hown : n.declaresFunction = (n.kind == .functionDeclaration) :=
      declaresFunction_of_named h.root
    have hlist : [NodeKind.program, .block, .switchCase].contains n.kind = n.kind.isStatementList := by
      rw [Bool.eq_iff_iff, List.contains_iff_mem, NodeKind.isStatementList_iff]
    have hchildren : (n.children.map fun c => (n.kind.isStatementList &&
        c.kind == .functionDeclaration).toNat).sum = (if n.kind.isStatementList then n.children
          else []).countP fun c => c.kind == .functionDeclaration := by
      rw [sum_map_toNat]
      cases n.kind.isStatementList <;> simp
    have hbelow : (n.children.map fun c => (names.sweep .functions (some n.kind) c).count) =
        n.children.map fun c => (n.kind.isStatementList && c.kind == .functionDeclaration).toNat +
          (c.childrenUnder [.program, .block, .switchCase]).countP
            fun c => c.kind == .functionDeclaration :=
      List.map_congr_left fun c hc => ih c hc (h.child hc) _
    rw [count_sweep_eq, rule, count_hoistNode, hown, hbelow, List.sum_map_add, hchildren,
      childrenUnder_eq, hlist, List.countP_append, List.countP_flatMap]
    rfl

/-- The names given to proxies, taken apart into the values of wrapped declarators and the arguments
that the script gives. -/
lemma countP_constructorArguments (ds : List (Node × Bool)) :
    (ds.flatMap names.constructorArguments).countP (fun a => a.name?.isSome) =
      ds.countP (fun d => isWrapped d && d.1.declaredValue.any (·.name?.isSome)) +
        ((ds.filter (!isWrapped ·)).flatMap (names.valueArguments ·.1)).countP
          fun a => a.name?.isSome := by
  induction ds with
  | nil => rfl
  | cons d ds ih =>
    rw [List.flatMap_cons, List.countP_append, ih, countP_cons_toNat, List.filter_cons,
      constructorArguments]
    cases hwrapped : isWrapped d with
    | true =>
      have hvalue : d.1.declaredValue.toList.countP (fun a => a.name?.isSome) =
          (d.1.declaredValue.any (·.name?.isSome)).toNat := by
        cases d.1.declaredValue with
        | none => rfl
        | some value => exact countP_cons_toNat _ value []
      simp only [if_true, Bool.true_and, Bool.not_true, Bool.false_eq_true, if_false, hvalue]
      omega
    | false =>
      simp only [Bool.false_eq_true, if_false, Bool.false_and, Bool.not_false, if_true,
        List.flatMap_cons, List.countP_append, Bool.toNat_false]
      omega

end ProxyNames

/-! ### Counts in the script -/

/-- The numbers of the places in a script, as it was read, where there is something to change. -/
def Options.changesIn (o : Options) (n : Node) : Changes where
  wrapped :=
    { declarators := (n.placedDeclarators false).countP isWrapped
      functionLiterals := (n.childrenUnder [.call]).countP isFunctionValue
      callArguments :=
        if o.readArguments then
          (n.walk.flatMap callArguments).countP fun a => a.name?.any n.variableNames.contains
        else 0 }
  functions := (n.childrenUnder [.program, .block, .switchCase]).countP
    fun c => c.kind == .functionDeclaration
  assignments := n.walk.countP isWrite
  updates := n.walk.countP isStep
  constructorArguments :=
    (n.placedDeclarators false).countP
        (fun d => isWrapped d && d.1.declaredValue.any (·.name?.isSome)) +
      (((n.placedDeclarators false).filter (!isWrapped ·)).flatMap
        (o.names.valueArguments ·.1)).countP fun a => a.name?.isSome
  clientImported := o.importClient

/-- The passes that follow count what each of them would count right after the wrapping. -/
lemma Options.snd_instrumentTree (o : Options) (n : Node) :
    (o.instrumentTree n).2 =
      { wrapped := (o.names.wrapAll o.readArguments n).2
        functions := (o.names.pass .functions (o.names.wrapAll o.readArguments n).1).count
        assignments := (o.names.pass .assignments (o.names.wrapAll o.readArguments n).1).count
        updates := (o.names.pass .updates (o.names.wrapAll o.readArguments n).1).count
        constructorArguments := (o.names.pass .arguments (o.names.wrapAll o.readArguments n).1).count
        clientImported :=
          (if o.importClient then o.names.importInto? (o.proxied n) else none).isSome } := by
  have hassignments : ∀ m, (o.names.pass .assignments (o.names.pass .functions m).value).count =
      (o.names.pass .assignments m).count := ProxyNames.count_pass_pass (by decide)
  have hupdates : ∀ m, (o.names.pass .updates (o.names.pass .assignments
      (o.names.pass .functions m).value).value).count = (o.names.pass .updates m).count := fun m => by
    rw [ProxyNames.count_pass_pass (by decide), ProxyNames.count_pass_pass (by decide)]
  have harguments : ∀ m, (o.names.pass .arguments (o.names.pass .updates (o.names.pass .assignments
      (o.names.pass .functions m).value).value).value).count = (o.names.pass .arguments m).count :=
    fun m => by
      rw [ProxyNames.count_pass_pass (by decide), ProxyNames.count_pass_pass (by decide),
        ProxyNames.count_pass_pass (by decide)]
  rw [← hassignments, ← hupdates, ← harguments]
  rfl

/-- The numbers of changes that come with an instrumented script are the numbers of the places in the
script, as it was read, where there is something to change. -/
theorem changes_eq_changesIn {text : String} {n : Node} (h : parse text = .ok n) (o : Options) :
    (o.instrument text).map Prod.snd = .ok (o.changesIn n) := by
  obtain ⟨⟨body, hprogram⟩, htidy⟩ := tidy_of_parse h
  have hsingle : n.Everywhere SingleHead := htidy.mono fun _ => singleHead_of_fits
  have hnamed : n.Everywhere ProxyNames.NamesFunction :=
    htidy.mono fun _ => ProxyNames.namesFunction_of_fits
  have hwrapped : (o.names.wrapAll o.readArguments n).2 = (o.changesIn n).wrapped := by
    have hnone : ∀ a : Node, a.name?.any ([] : List String).contains = false := by
      intro a
      cases a.name? <;> rfl
    rw [ProxyNames.snd_wrapAll hsingle, Options.changesIn, tally]
    cases o.readArguments <;> simp [hnone]
  have hpass : ∀ p, p ≠ .arguments → (o.names.pass p (o.names.wrapAll o.readArguments n).1).count =
      (o.names.sweep p none n).count := fun p hp => by
    rw [ProxyNames.wrapAll_eq_wrapped hsingle, ProxyNames.pass_eq]
    exact ProxyNames.count_sweep_wrapped_of_ne hp none n false
  have harguments : (o.names.pass .arguments (o.names.wrapAll o.readArguments n).1).count =
      (o.changesIn n).constructorArguments := by
    rw [ProxyNames.wrapAll_eq_wrapped hsingle, ProxyNames.pass_eq]
    exact (ProxyNames.count_sweep_arguments_wrapped none n false).trans
      (ProxyNames.countP_constructorArguments _)
  have himported : (if o.importClient then o.names.importInto? (o.proxied n) else none).isSome =
      o.importClient := by
    obtain ⟨body', hproxied⟩ := ProxyNames.exists_proxied_eq_program (o := o) body
    rw [hprogram, hproxied]
    cases o.importClient <;> rfl
  have hassignments : (o.names.sweep .assignments none n).count = n.walk.countP isWrite := by
    refine ProxyNames.count_sweep_eq_countP (fun parent m => ?_) none n
    exact ProxyNames.count_writeNode m
  have hupdates : (o.names.sweep .updates none n).count = n.walk.countP isStep := by
    refine ProxyNames.count_sweep_eq_countP (fun parent m => ?_) none n
    exact ProxyNames.count_stepNode m
  have hchanges : (o.instrumentTree n).2 = o.changesIn n := by
    rw [o.snd_instrumentTree, hwrapped, hpass _ (by decide), hpass _ (by decide),
      hpass _ (by decide), harguments, himported, ProxyNames.count_sweep_functions hnamed,
      hassignments, hupdates, Option.any_none, Bool.false_and, Bool.toNat_false, Nat.zero_add]
    rfl
  rw [Options.instrument, h]
  exact congrArg Except.ok hchanges

/-- A script with something to change of every kind.  The declarators of `a` and `[b]` are not
wrapped, that of `[b]` gives two names to a proxy, and `h` is not declared in a list. -/
def countedScript : String :=
  "for (let a of f(() => 1)) g(c); let [b] = new Proxy.Variable(a, 1, c), c = b;" ++
    "function g() \x7b c = d; c += 1; c++; if (d) function h() \x7b\x7d \x7d"

theorem changes_eq_changesIn_script :
    ∃ n, parse countedScript = .ok n ∧
      (({ readArguments := true, importClient := true } : Options).instrument
        countedScript).map Prod.snd =
          .ok { wrapped := ⟨1, 1, 1⟩, functions := 1, assignments := 2, updates := 1,
                constructorArguments := 3, clientImported := true } := by
  obtain ⟨n, hparse, hcheck⟩ := exists_of_parse_any
    (show (parse countedScript).toOption.any (fun n => decide
      (({ readArguments := true, importClient := true } : Options).changesIn n =
        { wrapped := ⟨1, 1, 1⟩, functions := 1, assignments := 2, updates := 1,
          constructorArguments := 3, clientImported := true })) = true by
      rw [show parse countedScript = _ from parse_ofList_append _ _]
      decide +kernel)
  refine ⟨n, hparse, (changes_eq_changesIn hparse _).trans ?_⟩
  rw [of_decide_eq_true hcheck]

end BindingProxy
