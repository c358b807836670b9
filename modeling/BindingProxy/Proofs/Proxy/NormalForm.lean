import BindingProxy.Proofs.Grammar.WellFormed
import BindingProxy.Proofs.Proxy.Change
import BindingProxy.Proofs.Proxy.Wrapping
import BindingProxy.Proxy.Instrument

/-!
# The normal form of an instrumented script

After instrumenting, every binding goes through its proxy: no plain name is assigned or updated
directly where a write can take its place, no function is declared in a list of statements, every
declared name is bound to a proxy, and constructors of proxies are given no bare name.  `IsNormal`
collects this.

Each part is brought about by one of the passes and kept by the later ones.  What the later ones
keep follows from `Change` once the part is seen to be stable; what is left is what each rule brings
about at a single node.
-/

namespace BindingProxy

/-- Kinds that no change makes or takes away stay what they are. -/
lemma Becomes.eq_iff {parent : Option NodeKind} {k k' x : NodeKind} (h : Becomes parent k k')
    (hx : x ∉ [NodeKind.assignment, .update, .call, .functionDeclaration, .declaration]) :
    k' = x ↔ k = x := by
  cases h with
  | same => rfl
  | _ =>
    constructor
    · rintro rfl
      simp at hx
    · rintro rfl
      simp at hx

/-- No change makes a function declaration. -/
lemma Becomes.eq_functionDeclaration {parent : Option NodeKind} {k : NodeKind}
    (h : Becomes parent k .functionDeclaration) : k = .functionDeclaration := by
  cases h
  rfl

lemma NodeKind.isStatementList_iff {k : NodeKind} :
    k.isStatementList = true ↔ k ∈ [NodeKind.program, .block, .switchCase] := by
  cases k <;> decide

lemma AssignmentOperator.isSome_arithmetic? (operator : AssignmentOperator) :
    operator.arithmetic?.isSome =
      [.add, .subtract, .multiply, .divide, .remainder].contains operator := by
  cases operator <;> rfl

namespace Node

/-! ### The parts of the normal form -/

/-- An assignment of a plain name that has to be a write: a plain one, or arithmetic with a
literal. -/
def isWrite : Node → Bool
  | assignment operator left right =>
    left.name?.isSome && (operator == .assign ||
      ([.add, .subtract, .multiply, .divide, .remainder].contains operator &&
        right.kind == .literal))
  | _ => false

/-- An update of a plain name. -/
def isStep : Node → Bool
  | update _ _ argument => argument.name?.isSome
  | _ => false

/-- A list of statements in which no function is declared; other nodes have no such list. -/
def DeclaresNoFunction (n : Node) : Prop :=
  n.kind ∈ [NodeKind.program, .block, .switchCase] → ∀ c ∈ n.children, c.kind ≠ .functionDeclaration

lemma exists_eq_identifier {n : Node} (h : n.name?.isSome = true) : ∃ name, n = identifier name := by
  cases n with
  | identifier name => exact ⟨name, rfl⟩
  | _ => cases h

lemma eq_identifier_of_name? {n : Node} {name : String} (h : n.name? = some name) :
    n = identifier name := by
  cases n <;> cases h
  rfl

lemma isDeclaration_eq_kind (n : Node) : n.isDeclaration = (n.kind == .declaration) := by
  cases n with
  | forEach iteration => cases iteration <;> rfl
  | jump jump => cases jump <;> rfl
  | function role => cases role <;> rfl
  | classDefinition role => cases role <;> rfl
  | _ => rfl

lemma isDeclarator_withChildren (n : Node) (cs : List Node) :
    (n.withChildren cs).isDeclarator = n.isDeclarator := by
  cases n <;> rfl

lemma exists_eq_literal {n : Node} (h : n.kind = .literal) : ∃ kind raw, n = literal kind raw := by
  unfold kind at h
  split at h <;> cases h
  exact ⟨_, _, rfl⟩

end Node

namespace ProxyNames

open Node

variable (names : ProxyNames)

/-- A declarator of a plain name whose value is a new proxy around at most one argument; nothing is
asked of others. -/
def BindsProxy (n : Node) : Prop :=
  ∀ name init, n = .declarator (.identifier name) init →
    ∃ value arguments, init = some value ∧ names.proxyArguments? value = some arguments ∧
      arguments.length ≤ 1

/-- A declarator whose value, if it is a new proxy, is given no bare name; nothing is asked of
others. -/
def ReadsArguments (n : Node) : Prop :=
  ∀ id value arguments, n = .declarator id (some value) →
    names.proxyArguments? value = some arguments → ∀ a ∈ arguments, a.name? = none

/-- A new proxy is not made around another one. -/
def NotNested (n : Node) : Prop :=
  ∀ arguments, names.proxyArguments? n = some arguments →
    ∀ a ∈ arguments, names.proxyArguments? a = none

/-- A tree in which all bindings go through their proxies. -/
structure IsNormal (n : Node) : Prop where
  writes : n.Everywhere fun m => m.isWrite = false
  steps : n.Everywhere fun m => m.isStep = false
  functions : n.Everywhere DeclaresNoFunction
  declarators : ∀ d ∈ n.freeDeclarators false, names.BindsProxy d
  arguments : n.Everywhere names.ReadsArguments

/-! ### Stability -/

variable {names} {n : Node}

lemma ofAccess_isWrite : OfAccess fun m => m.isWrite = false := by
  intro n h
  cases n <;> first | rfl | simp [Node.kind] at h

lemma ofAccess_isStep : OfAccess fun m => m.isStep = false := by
  intro n h
  cases n <;> first | rfl | simp [Node.kind] at h

lemma stable_isWrite : names.Stable fun m => m.isWrite = false where
  children {n cs} h hn := by
    cases n with
    | assignment operator left right =>
      obtain ⟨left', rest, hleft, hrest, rfl⟩ := List.forall₂_cons_left_iff.1 h
      obtain ⟨right', rest, hright, hrest, rfl⟩ := List.forall₂_cons_left_iff.1 hrest
      have hliteral : (right'.kind == .literal) = (right.kind == .literal) := by
        rw [Bool.eq_iff_iff, beq_iff_eq, beq_iff_eq]
        exact hright.kind.eq_iff (by decide)
      rw [isWrite, ← hleft.name, ← hliteral] at hn
      exact hn
    | _ => rfl
  access := ofAccess_isWrite
  binding _ _ _ := ⟨rfl, rfl, rfl⟩
  function _ := rfl
  declarator _ := rfl
  construction _ := rfl

lemma stable_isStep : names.Stable fun m => m.isStep = false where
  children {n cs} h hn := by
    cases n with
    | update operator leading argument =>
      obtain ⟨argument', rest, hargument, hrest, rfl⟩ := List.forall₂_cons_left_iff.1 h
      rw [isStep, ← hargument.name] at hn
      exact hn
    | _ => rfl
  access := ofAccess_isStep
  binding _ _ _ := ⟨rfl, rfl, rfl⟩
  function _ := rfl
  declarator _ := rfl
  construction _ := rfl

lemma stable_declaresNoFunction : names.Stable DeclaresNoFunction where
  children {n cs} h hn := by
    intro hlist d hd hkind
    rw [kind_withChildren] at hlist
    rw [children_withChildren n h.length_eq.symm] at hd
    obtain ⟨c, hc, hcd⟩ := exists_of_mem_right h hd
    have hbecomes := hcd.kind
    rw [hkind] at hbecomes
    exact hn hlist c hc hbecomes.eq_functionDeclaration
  access n h hlist := by
    simp only [List.mem_cons, List.not_mem_nil, or_false] at h
    rcases h with h | h | h | h | h <;> rw [h] at hlist <;> simp at hlist
  binding _ _ _ := by
    refine ⟨?_, ?_, ?_⟩ <;> intro hlist <;> simp [bind, declare, wrap, construct, Node.kind] at hlist
  function _ := by
    intro hlist
    simp [Node.kind] at hlist
  declarator _ := by
    intro hlist
    simp [Node.kind] at hlist
  construction _ := by
    intro hlist
    simp [Node.kind] at hlist

/-- Nodes that are no constructions are not nested. -/
lemma notNested_of_none (h : names.proxyArguments? n = none) : names.NotNested n := by
  intro arguments harguments
  rw [h] at harguments
  cases harguments

/-- A node that looks like no new proxy is none. -/
lemma Alike.proxyArguments?_eq_none {parent : Option NodeKind} {n m : Node}
    (h : names.Alike parent n m) (hn : names.proxyArguments? n = none) :
    names.proxyArguments? m = none := by
  have hproxy := h.proxy
  rw [hn] at hproxy
  exact Option.map_eq_none_iff.1 hproxy

lemma proxyArguments?_readArgument (h : names.proxyArguments? n = none) :
    names.proxyArguments? (readArgument n) = none := by
  unfold readArgument readName
  split
  · rfl
  · exact h

lemma proxyArguments?_of_isFunctionValue (h : n.isFunctionValue = true) :
    names.proxyArguments? n = none := by
  cases n <;> first | rfl | cases h

/-- A wrapped value is a new proxy around it. -/
lemma proxyArguments?_wrap (type : ProxyType) (value : Option Node) :
    names.proxyArguments? (names.wrap type value) = some value.toList := by
  have hcallee : names.isProxyCallee (dot (.identifier names.namespaceName) type.name) = true := by
    cases type <;> simp [isProxyCallee, dot, isProxyType]
  simp [wrap, construct, proxyArguments?, hcallee]

/-- A proxy around what is no new proxy is not nested. -/
lemma notNested_wrap {type : ProxyType} {value : Option Node}
    (h : ∀ n ∈ value, names.proxyArguments? n = none) : names.NotNested (names.wrap type value) := by
  intro found hfound a ha
  rw [proxyArguments?_wrap, Option.some.injEq] at hfound
  rw [← hfound] at ha
  exact h a (Option.mem_toList.1 ha)

lemma stable_notNested : names.Stable names.NotNested where
  children {n cs} h hn := by
    cases n with
    | construction callee arguments =>
      obtain ⟨callee', arguments', hcallee, harguments, rfl⟩ := List.forall₂_cons_left_iff.1 h
      rw [withChildren_construction harguments.length_eq.symm]
      by_cases hproxy : names.isProxyCallee callee = true
      · intro found hfound a' ha'
        simp only [proxyArguments?, hcallee.callee, hproxy, if_true, Option.some.injEq] at hfound
        rw [← hfound] at ha'
        obtain ⟨a, ha, halike⟩ := exists_of_mem_right harguments ha'
        exact halike.proxyArguments?_eq_none (hn arguments (by simp [proxyArguments?, hproxy]) a ha)
      · exact notNested_of_none (by simp [proxyArguments?, hcallee.callee, hproxy])
    | _ => exact notNested_of_none rfl
  access n h := by
    refine notNested_of_none ?_
    cases n <;> first | rfl | simp [Node.kind] at h
  binding name f hf := by
    refine ⟨notNested_of_none rfl, notNested_of_none rfl, notNested_wrap ?_⟩
    simpa using proxyArguments?_of_isFunctionValue hf
  function _ := notNested_of_none rfl
  declarator _ := notNested_of_none rfl
  construction {callee arguments} hn := by
    by_cases hproxy : names.isProxyCallee callee = true
    · intro found hfound a' ha'
      simp only [proxyArguments?, hproxy, if_true, Option.some.injEq] at hfound
      rw [← hfound] at ha'
      obtain ⟨a, ha, rfl⟩ := List.mem_map.1 ha'
      exact proxyArguments?_readArgument (hn arguments (by simp [proxyArguments?, hproxy]) a ha)
    · exact notNested_of_none (by simp [proxyArguments?, hproxy])

/-! ### What each rule brings about -/

/-- What has to be a write, spelled out. -/
lemma exists_of_isWrite (h : n.isWrite = true) :
    ∃ operator name right, n = .assignment operator (.identifier name) right ∧
      (operator = .assign ∨
        (operator.arithmetic?.isSome = true ∧ ∃ kind raw, right = .literal kind raw)) := by
  cases n with
  | assignment operator left right =>
    simp only [isWrite, ← AssignmentOperator.isSome_arithmetic?, Bool.and_eq_true,
      Bool.or_eq_true, beq_iff_eq] at h
    obtain ⟨name, rfl⟩ := exists_eq_identifier h.1
    refine ⟨operator, name, right, rfl, h.2.imp id fun hright => ⟨hright.1, ?_⟩⟩
    exact exists_eq_literal hright.2
  | _ => cases h

/-- What the rule for assignments does: an assignment that has to be a write becomes one, and all
else is left alone. -/
lemma writeNode_cases (n : Node) :
    (n.isWrite = false ∧ n.writeNode = pure n) ∨
      n.isWrite = true ∧
        ((∃ name value, n = .assignment .assign (.identifier name) value ∧
          n.writeNode = .changed (writeProxy name value)) ∨
        ∃ operator arithmetic name kind raw,
          n = .assignment operator (.identifier name) (.literal kind raw) ∧
            n.writeNode = .changed (updateProxy name arithmetic (.literal kind raw))) := by
  by_cases hplain : ∃ name value, n = .assignment .assign (.identifier name) value
  · obtain ⟨name, value, rfl⟩ := hplain
    exact .inr ⟨rfl, .inl ⟨name, value, rfl, rfl⟩⟩
  have hplain' : ∀ name value, n = .assignment .assign (.identifier name) value → False :=
    fun name value h => hplain ⟨name, value, h⟩
  by_cases hliteral : ∃ operator name kind raw,
      n = .assignment operator (.identifier name) (.literal kind raw)
  · obtain ⟨operator, name, kind, raw, rfl⟩ := hliteral
    have hassign : operator ≠ .assign := by
      rintro rfl
      exact hplain' name _ rfl
    have heq := writeNode.eq_2 operator name kind raw (by rintro rfl; exact hassign rfl)
    cases harithmetic : operator.arithmetic? with
    | some arithmetic =>
      rw [harithmetic] at heq
      refine .inr ⟨?_, .inr ⟨operator, arithmetic, name, kind, raw, rfl, heq⟩⟩
      rw [isWrite, ← AssignmentOperator.isSome_arithmetic?, harithmetic]
      exact Bool.or_true _
    | none =>
      rw [harithmetic] at heq
      refine .inl ⟨?_, heq⟩
      rw [isWrite, ← AssignmentOperator.isSome_arithmetic?, harithmetic]
      simp [hassign]
  · refine .inl ⟨?_, writeNode.eq_3 n hplain' fun operator name kind raw h =>
      hliteral ⟨operator, name, kind, raw, h⟩⟩
    by_contra hwrite
    obtain ⟨operator, name, right, rfl, rfl | ⟨_, kind, raw, rfl⟩⟩ :=
      exists_of_isWrite (eq_true_of_ne_false hwrite)
    · exact hplain' name right rfl
    · exact hliteral ⟨operator, name, kind, raw, rfl⟩

/-- What the rule for updates does. -/
lemma stepNode_cases (n : Node) :
    (n.isStep = false ∧ n.stepNode = pure n) ∨
      n.isStep = true ∧ ∃ operator leading name, n = .update operator leading (.identifier name) ∧
        n.stepNode = .changed (updateProxy name operator.delta (.literal .number "1")) := by
  cases n with
  | update operator leading argument =>
    cases argument with
    | identifier name => exact .inr ⟨rfl, operator, leading, name, rfl, rfl⟩
    | _ => exact .inl ⟨rfl, rfl⟩
  | _ => exact .inl ⟨rfl, rfl⟩

lemma everywhere_writeAssignments (n : Node) :
    n.writeAssignments.value.Everywhere fun m => m.isWrite = false := by
  refine everywhere_rebuild_of_rule (fun _ m hm => ?_) none n
  rcases writeNode_cases m with ⟨hroot, hpure⟩ | ⟨_, ⟨name, value, rfl, hchanged⟩ |
    ⟨operator, arithmetic, name, kind, raw, rfl, hchanged⟩⟩
  · rw [hpure]
    exact everywhere_iff.2 ⟨hroot, hm⟩
  · rw [hchanged]
    exact everywhere_callMethod ofAccess_isWrite name "set"
      (List.forall_mem_singleton.2 (hm value (by simp [Node.children])))
  · rw [hchanged]
    exact everywhere_updateProxy ofAccess_isWrite name arithmetic kind raw

lemma everywhere_writeUpdates (n : Node) :
    n.writeUpdates.value.Everywhere fun m => m.isStep = false := by
  refine everywhere_rebuild_of_rule (fun _ m hm => ?_) none n
  rcases stepNode_cases m with ⟨hroot, hpure⟩ | ⟨_, operator, leading, name, rfl, hchanged⟩
  · rw [hpure]
    exact everywhere_iff.2 ⟨hroot, hm⟩
  · rw [hchanged]
    exact everywhere_updateProxy ofAccess_isStep name _ _ _

/-- A declared function has a name. -/
def NamesFunction (n : Node) : Prop :=
  ∀ params body isAsync isGenerator,
    n ≠ .function .declaration none params body isAsync isGenerator

lemma namesFunction_withChildren (h : NamesFunction n) (cs : List Node) :
    NamesFunction (n.withChildren cs) := by
  cases n with
  | function role id params body isAsync isGenerator =>
    intro params' body' isAsync' isGenerator' heq
    cases heq
    exact h params body isAsync isGenerator rfl
  | _ =>
    intro params body isAsync isGenerator heq
    cases heq

/-- In a list of statements, a declared function that has a name does not stay one. -/
lemma kind_hoistNode {k : NodeKind} (hk : k.isStatementList = true) (h : NamesFunction n) :
    (names.hoistNode (some k) n).value.kind ≠ .functionDeclaration := by
  cases n with
  | function role id params body isAsync isGenerator =>
    cases role with
    | declaration =>
      cases id with
      | none => exact absurd rfl (h params body isAsync isGenerator)
      | some name => simp [hoistNode, hk, Counted.changed, bind, declare, Node.kind]
    | expression => simp [hoistNode, Node.kind]
  | forEach iteration => cases iteration <;> simp [hoistNode, Node.kind]
  | jump jump => cases jump <;> simp [hoistNode, Node.kind]
  | classDefinition role => cases role <;> simp [hoistNode, Node.kind]
  | _ => simp [hoistNode, Node.kind]

lemma everywhere_hoistFunctions (hn : n.Everywhere NamesFunction) :
    (names.hoistFunctions n).value.Everywhere DeclaresNoFunction := by
  have hstable : names.Stable DeclaresNoFunction := stable_declaresNoFunction
  refine (rebuild_induction (f := names.hoistNode) (P := fun parent n m => n.Everywhere NamesFunction →
    (∀ k, parent = some k → k.isStatementList = true → m.kind ≠ .functionDeclaration) ∧
      m.Everywhere DeclaresNoFunction) ?_ none n hn).2
  intro parent n cs hcs hn
  obtain ⟨hroot, hbelow⟩ := everywhere_iff.1 hn
  have hchildren : ∀ d ∈ cs, (n.kind.isStatementList = true → d.kind ≠ .functionDeclaration) ∧
      d.Everywhere DeclaresNoFunction := by
    intro d hd
    obtain ⟨c, hc, hcd⟩ := exists_of_mem_right hcs hd
    obtain ⟨hkind, hd⟩ := hcd (hbelow c hc)
    exact ⟨hkind n.kind rfl, hd⟩
  constructor
  · rintro k rfl hk
    exact kind_hoistNode hk (namesFunction_withChildren hroot cs)
  · refine hstable.everywhere_of_change (names.change_hoistNode parent _) (everywhere_iff.2 ?_)
    rw [DeclaresNoFunction, kind_withChildren, children_withChildren n hcs.length_eq.symm]
    refine ⟨fun hlist d hd => (hchildren d hd).1 ?_, fun d hd => (hchildren d hd).2⟩
    exact NodeKind.isStatementList_iff.2 hlist

lemma readsArguments_of_not_declarator (h : n.isDeclarator = false) : names.ReadsArguments n := by
  rintro id value arguments rfl
  cases h

lemma ofAccess_readsArguments : OfAccess names.ReadsArguments := by
  intro n h
  refine readsArguments_of_not_declarator ?_
  cases n <;> first | rfl | simp [Node.kind] at h

lemma name?_readArgument (n : Node) : (readArgument n).name? = none := by
  cases n <;> rfl

/-- A declarator whose arguments are read is given no bare name. -/
lemma readsArguments_read (id callee : Node) (arguments : List Node) :
    names.ReadsArguments
      (.declarator id (some (.construction callee (arguments.map readArgument)))) := by
  intro id' value found heq hfound a ha
  cases heq
  obtain ⟨callee', heq, _⟩ := exists_of_proxyArguments? hfound
  cases heq
  obtain ⟨b, _, rfl⟩ := List.mem_map.1 ha
  exact name?_readArgument b

/-- A name that is read is the only argument that changes. -/
lemma readName_of_name?_eq_none (h : n.name? = none) : readName n = pure n := by
  cases n with
  | identifier name => cases h
  | _ => rfl

/-- The rule for constructor arguments leaves alone what needs no reading. -/
lemma readNode_of_readsArguments (h : names.ReadsArguments n) : names.readNode n = pure n := by
  unfold readNode
  split
  · next id callee arguments =>
    split
    · next hcallee =>
      have hproxy : names.proxyArguments? (.construction callee arguments) = some arguments := by
        rw [proxyArguments?, if_pos hcallee]
      have hpure : arguments.mapM readName = pure arguments :=
        Counted.mapM_eq_pure fun a ha => readName_of_name?_eq_none (h id _ arguments rfl hproxy a ha)
      rw [hpure, pure_bind]
    · rfl
  · rfl

/-- What the rule for constructor arguments does. -/
lemma readNode_cases (n : Node) :
    (names.ReadsArguments n ∧ (names.readNode n).value = n) ∨
      ∃ id callee arguments, n = .declarator id (some (.construction callee arguments)) ∧
        (names.readNode n).value =
          .declarator id (some (.construction callee (arguments.map readArgument))) := by
  by_cases h : ∃ id value arguments, n = .declarator id (some value) ∧
      names.proxyArguments? value = some arguments
  · obtain ⟨id, value, arguments, rfl, hproxy⟩ := h
    obtain ⟨callee, rfl, hcallee⟩ := exists_of_proxyArguments? hproxy
    refine .inr ⟨id, callee, arguments, rfl, ?_⟩
    rw [readNode, if_pos hcallee, Counted.value_bind, Counted.value_pure, Counted.value_mapM]
    rfl
  · have hreads : names.ReadsArguments n :=
      fun id value arguments heq hproxy => absurd ⟨id, value, arguments, heq, hproxy⟩ h
    exact .inl ⟨hreads, by rw [readNode_of_readsArguments hreads, Counted.value_pure]⟩

lemma everywhere_readConstructorArguments (n : Node) :
    (names.readConstructorArguments n).value.Everywhere names.ReadsArguments := by
  refine everywhere_rebuild_of_rule (fun _ m hm => ?_) none n
  rcases names.readNode_cases m with ⟨hroot, hpure⟩ | ⟨id, callee, arguments, rfl, hread⟩
  · rw [hpure]
    exact everywhere_iff.2 ⟨hroot, hm⟩
  · rw [hread]
    obtain ⟨hid, hproxy⟩ := List.forall_mem_cons.1 hm
    obtain ⟨hcallee, harguments⟩ :=
      List.forall_mem_cons.1 (everywhere_iff.1 (List.forall_mem_singleton.1 hproxy)).2
    have hread : ∀ a ∈ arguments.map readArgument, a.Everywhere names.ReadsArguments := by
      intro a ha
      obtain ⟨b, hb, rfl⟩ := List.mem_map.1 ha
      exact everywhere_readArgument ofAccess_readsArguments (harguments b hb)
    have hconstruction : (Node.construction callee (arguments.map readArgument)).Everywhere
        names.ReadsArguments :=
      everywhere_iff.2
        ⟨readsArguments_of_not_declarator rfl, List.forall_mem_cons.2 ⟨hcallee, hread⟩⟩
    exact everywhere_iff.2 ⟨readsArguments_read id callee arguments, List.forall_mem_cons.2
      ⟨hid, List.forall_mem_singleton.2 hconstruction⟩⟩

/-! ### What wrapping brings about -/

variable {read : List String}

lemma alike_wrappedNode (parent : Option NodeKind) (inHead : Bool) (n : Node) :
    names.Alike parent n (names.wrappedNode read inHead n) where
  kind := by
    rw [kind_wrappedNode]
    exact .same _
  name := names.name?_wrappedNode read inHead n
  callee := by unfold wrappedNode; split <;> rfl
  proxy := by unfold wrappedNode; split <;> rfl

/-- A wrapped node looks like the node if its children do. -/
lemma Alike.of_wrapped {cs : List Node} (parent : Option NodeKind) (inHead : Bool)
    (h : List.Forall₂ (names.Alike (some n.kind)) n.children cs) :
    names.Alike parent n (names.wrappedNode read inHead (n.withChildren cs)) := by
  have hfilled := alike_withChildren parent h
  have hnode : names.Alike parent _ (names.wrappedNode read inHead (n.withChildren cs)) :=
    alike_wrappedNode parent inHead _
  refine ⟨?_, hnode.name.trans hfilled.name, hnode.callee.trans hfilled.callee,
    hnode.proxy.trans hfilled.proxy⟩
  rw [kind_wrappedNode, kind_withChildren]
  exact .same _

/-- A property that the new nodes have is kept when a node is wrapped.  What stands in a new proxy
is a child of the node. -/
lemma everywhere_wrappedNode {P Q : Node → Prop} (haccess : OfAccess P)
    (hdeclarator : ∀ name init, P (.declarator (.identifier name) init))
    (hwrap : ∀ type value, (∀ n ∈ value, Q n) → P (names.wrap type value)) (inHead : Bool)
    (hn : n.Everywhere P) (hQ : ∀ c ∈ n.children, Q c) :
    (names.wrappedNode read inHead n).Everywhere P := by
  have hproxy : ∀ type value, (∀ m ∈ value, Q m ∧ m.Everywhere P) →
      (names.wrap type value).Everywhere P := by
    intro type value hvalue
    refine everywhere_iff.2 ⟨hwrap type value fun m hm => (hvalue m hm).1,
      List.forall_mem_cons.2 ⟨everywhere_dot haccess _ _, fun m hm => ?_⟩⟩
    exact (hvalue m (Option.mem_toList.1 hm)).2
  have hfunction : ∀ c ∈ n.children, (names.wrappedFunction c).Everywhere P := by
    intro c hc
    unfold wrappedFunction
    split
    · exact hproxy _ _ (by simpa using ⟨hQ c hc, hn.child hc⟩)
    · exact hn.child hc
  cases n with
  | declarator id init =>
    cases id with
    | identifier name =>
      cases inHead with
      | true => exact hn
      | false =>
        obtain ⟨hid, hinit⟩ := List.forall_mem_cons.1 (everywhere_iff.1 hn).2
        have hvalue : ∀ m ∈ init, Q m ∧ m.Everywhere P := by
          intro m hm
          have hm' := Option.mem_toList.2 hm
          exact ⟨hQ m (List.mem_cons_of_mem _ hm'), hinit m hm'⟩
        exact everywhere_iff.2 ⟨hdeclarator name _, List.forall_mem_cons.2
          ⟨hid, List.forall_mem_singleton.2 (hproxy _ init hvalue)⟩⟩
    | _ => exact hn
  | call callee arguments optional =>
    obtain ⟨hcallee, harguments⟩ := List.forall_mem_cons.1 hfunction
    refine everywhere_iff.2 ⟨haccess _ (by simp [wrappedNode, Node.kind]), List.forall_mem_cons.2
      ⟨hcallee, fun a ha => ?_⟩⟩
    obtain ⟨b, hb, rfl⟩ := List.mem_map.1 ha
    unfold wrappedArgument
    split
    · split
      · exact everywhere_callMethod haccess _ "get" (by simp)
      · exact everywhere_identifier haccess _
    · exact harguments b hb
  | _ => exact hn

/-- Wrapping keeps the names of declared functions. -/
lemma everywhere_namesFunction_wrapTree (hn : n.Everywhere NamesFunction)
    (s : WrapState) : ((names.wrapTree read n).run s).1.Everywhere NamesFunction := by
  have hplain : ∀ {m : Node}, m.kind ≠ .functionDeclaration → NamesFunction m := by
    rintro m hm params body isAsync isGenerator rfl
    exact hm rfl
  refine names.wrap_induction
    (P := fun n m => n.Everywhere NamesFunction → m.Everywhere NamesFunction) read ?_ n s hn
  intro n cs inHead hcs hn
  obtain ⟨hroot, hbelow⟩ := everywhere_iff.1 hn
  refine everywhere_wrappedNode (Q := fun _ => True) (fun m hm => hplain ?_) (fun _ _ => hplain (by simp [Node.kind]))
    (fun _ _ _ => hplain (by simp [wrap, construct, Node.kind])) inHead (everywhere_iff.2 ?_) (by simp)
  · rintro heq
    rw [heq] at hm
    simp at hm
  · rw [children_withChildren n hcs.length_eq.symm]
    refine ⟨namesFunction_withChildren hroot cs, fun d hd => ?_⟩
    obtain ⟨c, hc, hcd⟩ := exists_of_mem_right hcs hd
    exact hcd (hbelow c hc)

/-- In a tree without new proxies, wrapping nests none. -/
lemma everywhere_notNested_wrapTree
    (hn : n.Everywhere fun m => names.proxyArguments? m = none) (s : WrapState) :
    ((names.wrapTree read n).run s).1.Everywhere names.NotNested := by
  have haccess : OfAccess names.NotNested := stable_notNested.access
  refine (names.wrap_induction (P := fun n m => (∀ parent, names.Alike parent n m) ∧
    (n.Everywhere (fun m => names.proxyArguments? m = none) → m.Everywhere names.NotNested))
      read ?_ n s).2 hn
  intro n cs inHead hcs
  have halike := hcs.imp fun _ _ hcd => hcd.1 (some n.kind)
  refine ⟨fun parent => .of_wrapped parent inHead halike, fun hn => ?_⟩
  obtain ⟨hroot, hbelow⟩ := everywhere_iff.1 hn
  have hnone := (alike_withChildren none halike).proxyArguments?_eq_none hroot
  have hchildren : ∀ d ∈ cs, names.proxyArguments? d = none ∧ d.Everywhere names.NotNested := by
    intro d hd
    obtain ⟨c, hc, hcd⟩ := exists_of_mem_right hcs hd
    exact ⟨(hcd.1 none).proxyArguments?_eq_none (hbelow c hc).root, hcd.2 (hbelow c hc)⟩
  have hfilled := children_withChildren n hcs.length_eq.symm
  refine everywhere_wrappedNode (Q := fun m => names.proxyArguments? m = none) haccess
    (fun _ _ => notNested_of_none rfl) (fun _ _ => notNested_wrap) inHead (everywhere_iff.2 ?_) ?_
  · rw [hfilled]
    exact ⟨notNested_of_none hnone, fun d hd => (hchildren d hd).2⟩
  · rw [hfilled]
    exact fun d hd => (hchildren d hd).1

end ProxyNames

end BindingProxy
