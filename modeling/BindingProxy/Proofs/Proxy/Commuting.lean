import BindingProxy.Proofs.Proxy.Instrumented
import Mathlib.Algebra.Ring.Nat

/-!
# The order of the passes

Once the values of a script are wrapped, four passes are left: functions, assignments, updates and
constructor arguments.  Any two of them commute on every tree, well formed or not: the tree is the
same in either order, and each pass makes as many changes as it would make alone.  So the four may
run in any order.

The reason is that every rule changes nodes of one kind only, and that no rule makes or hides a node
of the kind of another.  `PassesOver` is the form in which this is used: a whole pass can be moved
over a single change of another rule.  It is shown for each rule, and the commutation of whole passes
follows by induction on the tree.
-/

namespace BindingProxy

open Node

/-- The passes that follow the wrapping of values. -/
inductive AccessPass where
  | functions | assignments | updates | arguments
deriving Repr, DecidableEq, Inhabited

namespace AccessPass

/-- The order in which a script is instrumented. -/
def inOrder : List AccessPass := [functions, assignments, updates, arguments]

/-- The kind of nodes that a pass may change. -/
def kind : AccessPass → NodeKind
  | functions => .functionDeclaration
  | assignments => .assignment
  | updates => .update
  | arguments => .declarator

lemma kind_injective : Function.Injective kind := by
  intro p q h
  cases p <;> cases q <;> first | rfl | cases h

/-- No change makes a node of a kind that a pass may change. -/
lemma eq_kind_of_becomes (p : AccessPass) {parent : Option NodeKind} {k k' : NodeKind}
    (h : Becomes parent k k') (hk : k' = p.kind) : k = p.kind := by
  cases h with
  | same => exact hk
  | _ => cases p <;> cases hk

/-- The passes change four kinds of nodes. -/
lemma ne_kind {k : NodeKind}
    (h : k ∉ [NodeKind.functionDeclaration, .assignment, .update, .declarator]) (p : AccessPass) :
    k ≠ p.kind := by
  rintro rfl
  cases p <;> simp [kind] at h

end AccessPass

namespace Counted

variable {α β : Type}

@[simp]
lemma value_map (f : α → β) (c : Counted α) : (f <$> c).value = f c.value := rfl

@[simp]
lemma count_map (f : α → β) (c : Counted α) : (f <$> c).count = c.count := rfl

/-- The number of changes of steps over a list. -/
lemma count_mapM (f : α → Counted β) (as : List α) :
    (as.mapM f).count = (as.map fun a => (f a).count).sum := by
  induction as with
  | nil => rfl
  | cons a as ih =>
    rw [List.mapM_cons, count_bind, count_bind, count_pure, ih, List.map_cons, List.sum_cons]
    rfl

end Counted

namespace Node

lemma exists_eq_function {n : Node} (h : n.kind = .functionDeclaration) :
    ∃ id params body isAsync isGenerator,
      n = function .declaration id params body isAsync isGenerator := by
  unfold kind at h
  split at h <;> cases h
  exact ⟨_, _, _, _, _, rfl⟩

lemma exists_eq_declarator {n : Node} (h : n.kind = .declarator) :
    ∃ id init, n = declarator id init := by
  unfold kind at h
  split at h <;> cases h
  exact ⟨_, _, rfl⟩

end Node

namespace ProxyNames

variable (names : ProxyNames)

/-- The rule of a pass. -/
def rule : AccessPass → Option NodeKind → Node → Counted Node
  | .functions, parent, n => names.hoistNode parent n
  | .assignments, _, n => n.writeNode
  | .updates, _, n => n.stepNode
  | .arguments, _, n => names.readNode n

/-- One of the passes over a whole tree. -/
def pass : AccessPass → Node → Counted Node
  | .functions, n => names.hoistFunctions n
  | .assignments, n => n.writeAssignments
  | .updates, n => n.writeUpdates
  | .arguments, n => names.readConstructorArguments n

/-- A list of passes, one after another, with the number of changes that each of them makes. -/
def passes : List AccessPass → Node → Node × (AccessPass → Nat)
  | [], n => (n, fun _ => 0)
  | p :: ps, n =>
    let first := names.pass p n
    let rest := passes ps first.value
    (rest.1, fun q => (if q = p then first.count else 0) + rest.2 q)

lemma pass_eq (p : AccessPass) (n : Node) : names.pass p n = rebuildM (names.rule p) none n := by
  cases p <;> rfl

variable {names} {p q : AccessPass}

/-! ### Single nodes -/

lemma changes_rule (p : AccessPass) : names.Changes (names.rule p) := by
  intro parent n
  cases p with
  | functions => exact names.change_hoistNode parent n
  | assignments => exact names.change_writeNode parent n
  | updates => exact names.change_stepNode parent n
  | arguments => exact names.change_readNode parent n

/-- A rule leaves alone what is not of the kind that it changes. -/
lemma rule_eq_pure {n : Node} (h : n.kind ≠ p.kind) (parent : Option NodeKind) :
    names.rule p parent n = pure n := by
  cases p with
  | functions =>
    simp only [rule, hoistNode]
    split
    · exact absurd rfl h
    · rfl
  | assignments =>
    rcases writeNode_cases n with ⟨_, hpure⟩ | ⟨_, ⟨name, value, rfl, _⟩ |
      ⟨operator, arithmetic, name, kind, raw, rfl, _⟩⟩
    · exact hpure
    · exact absurd rfl h
    · exact absurd rfl h
  | updates =>
    rcases stepNode_cases n with ⟨_, hpure⟩ | ⟨_, operator, leading, name, rfl, _⟩
    · exact hpure
    · exact absurd rfl h
  | arguments =>
    simp only [rule, readNode]
    split
    · exact absurd rfl h
    · rfl

/-- A rule changes nothing where it cannot hoist, whatever the parent is. -/
lemma rule_parent (p : AccessPass) {k k' : NodeKind} (hk : k.isStatementList = false)
    (hk' : k'.isStatementList = false) (n : Node) :
    names.rule p (some k) n = names.rule p (some k') n := by
  cases p with
  | functions =>
    simp only [rule]
    cases n with
    | function role id params body isAsync isGenerator =>
      cases role <;> cases id <;> simp [hoistNode, hk, hk']
    | _ => rfl
  | _ => rfl

/-- What a rule makes is still no node for another rule. -/
lemma kind_rule_ne {q : AccessPass} {n : Node} (h : n.kind ≠ q.kind) (p : AccessPass)
    (parent : Option NodeKind) : (names.rule p parent n).value.kind ≠ q.kind :=
  fun hkind => h (q.eq_kind_of_becomes (changes_rule p parent n).alike.kind hkind)

/-- Two rules commute at a node, since at most one of them changes it. -/
lemma rule_comm (hpq : p ≠ q) (parent : Option NodeKind) (n : Node) :
    (names.rule q parent (names.rule p parent n).value).value =
      (names.rule p parent (names.rule q parent n).value).value := by
  by_cases hp : n.kind = p.kind
  · have hq : n.kind ≠ q.kind := fun hq => hpq (AccessPass.kind_injective (hp.symm.trans hq))
    rw [rule_eq_pure (kind_rule_ne hq p parent), rule_eq_pure hq]
    rfl
  · rw [rule_eq_pure (kind_rule_ne hp q parent), rule_eq_pure hp]
    rfl

/-- A rule makes as many changes at a node after another rule as before it. -/
lemma count_rule_rule (hpq : p ≠ q) (parent : Option NodeKind) (n : Node) :
    (names.rule p parent (names.rule q parent n).value).count = (names.rule p parent n).count := by
  by_cases hp : n.kind = p.kind
  · have hq : n.kind ≠ q.kind := fun hq => hpq (AccessPass.kind_injective (hp.symm.trans hq))
    rw [rule_eq_pure hq, Counted.value_pure]
  · rw [rule_eq_pure (kind_rule_ne hp q parent), rule_eq_pure hp]
    rfl

/-! ### Whole trees -/

/-- A pass over a part of a tree. -/
def sweep (names : ProxyNames) (p : AccessPass) (parent : Option NodeKind) (n : Node) :
    Counted Node :=
  rebuildM (names.rule p) parent n

/-- A node after a pass over each of its children. -/
def sweepBelow (names : ProxyNames) (p : AccessPass) (n : Node) : Node :=
  n.withChildren (n.children.map fun c => (names.sweep p (some n.kind) c).value)

section

variable (p q : AccessPass) (parent : Option NodeKind) (n : Node)

lemma kind_sweepBelow : (names.sweepBelow p n).kind = n.kind := kind_withChildren n _

lemma children_sweepBelow :
    (names.sweepBelow p n).children =
      n.children.map fun c => (names.sweep p (some n.kind) c).value :=
  children_withChildren n (List.length_map _)

/-- Two passes go over the children one after the other. -/
lemma sweepBelow_sweepBelow : names.sweepBelow p (names.sweepBelow q n) =
    n.withChildren (n.children.map fun c =>
      (names.sweep p (some n.kind) (names.sweep q (some n.kind) c).value).value) := by
  rw [sweepBelow, kind_sweepBelow, children_sweepBelow, List.map_map]
  exact withChildren_withChildren n _ (List.length_map _)

lemma value_sweep :
    (names.sweep p parent n).value = (names.rule p parent (names.sweepBelow p n)).value :=
  value_rebuildM parent n

lemma count_sweep :
    (names.sweep p parent n).count =
      (n.children.map fun c => (names.sweep p (some n.kind) c).count).sum +
        (names.rule p parent (names.sweepBelow p n)).count := by
  rw [sweep, rebuildM_eq, Counted.count_bind, Counted.value_mapM, Counted.count_mapM]
  rfl

lemma alike_sweep : names.Alike parent n (names.sweep p parent n).value :=
  alike_rebuild (changes_rule p) parent n

end

/-- A pass only goes into the children of a node that is not of its kind. -/
lemma sweep_of_kind_ne {n : Node} (h : n.kind ≠ p.kind) (parent : Option NodeKind) :
    names.sweep p parent n = n.withChildren <$> n.children.mapM (names.sweep p (some n.kind)) := by
  have hrule : ∀ cs, names.rule p parent (n.withChildren cs) = pure (n.withChildren cs) :=
    fun cs => rule_eq_pure (by rwa [kind_withChildren]) parent
  rw [sweep, rebuildM_eq]
  simp only [hrule, bind_pure_comp]
  rfl

/-- The kind of the parent makes no difference to a pass as long as it is no list of statements. -/
lemma sweep_parent (p : AccessPass) {k k' : NodeKind} (hk : k.isStatementList = false)
    (hk' : k'.isStatementList = false) : names.sweep p (some k) = names.sweep p (some k') := by
  funext n
  rw [sweep, sweep, rebuildM_eq, rebuildM_eq (names.rule p) (some k')]
  simp only [rule_parent p hk hk']

/-! ### The fragments of the changes

A pass finds nothing to do in the nodes that a change adds, and does in the others what it would have
done before. -/

section

variable (p : AccessPass) (parent : Option NodeKind)

lemma sweep_identifier (name : String) :
    names.sweep p parent (.identifier name) = pure (.identifier name) :=
  sweep_of_kind_ne (p.ne_kind (by simp [Node.kind])) parent

lemma sweep_literal (kind : LiteralKind) (raw : String) :
    names.sweep p parent (.literal kind raw) = pure (.literal kind raw) :=
  sweep_of_kind_ne (p.ne_kind (by simp [Node.kind])) parent

lemma sweep_dot (owner key : String) :
    names.sweep p parent (dot (.identifier owner) key) = pure (dot (.identifier owner) key) := by
  rw [dot, sweep_of_kind_ne (p.ne_kind (by simp [Node.kind]))]
  simp only [children, List.mapM_cons, List.mapM_nil, sweep_identifier, pure_bind, map_pure]
  rfl

lemma sweep_readProxy (name : String) :
    names.sweep p parent (readProxy name) = pure (readProxy name) := by
  rw [readProxy, callMethod, sweep_of_kind_ne (p.ne_kind (by simp [Node.kind]))]
  simp only [children, List.mapM_cons, List.mapM_nil, sweep_dot, pure_bind, map_pure]
  rfl

lemma sweep_writeProxy (name : String) (value : Node) :
    names.sweep p parent (writeProxy name value) =
      writeProxy name <$> names.sweep p (some .call) value := by
  rw [writeProxy, callMethod, sweep_of_kind_ne (p.ne_kind (by simp [Node.kind]))]
  simp only [children, List.mapM_cons, List.mapM_nil, sweep_dot, pure_bind, bind_pure_comp,
    Functor.map_map]
  rfl

lemma sweep_updateProxy (name : String) (operator : BinaryOperator) (kind : LiteralKind)
    (raw : String) :
    names.sweep p parent (updateProxy name operator (.literal kind raw)) =
      pure (updateProxy name operator (.literal kind raw)) := by
  rw [updateProxy, sweep_writeProxy, sweep_of_kind_ne (p.ne_kind (by simp [Node.kind]))]
  simp only [children, List.mapM_cons, List.mapM_nil, sweep_readProxy, sweep_literal, pure_bind,
    map_pure]
  rfl

lemma sweep_construction (callee : Node) (arguments : List Node) :
    names.sweep p parent (.construction callee arguments) = (do
      let callee ← names.sweep p (some .construction) callee
      let arguments ← arguments.mapM (names.sweep p (some .construction))
      pure (.construction callee arguments)) := by
  rw [sweep_of_kind_ne (p.ne_kind (by simp [Node.kind])), Counted.ext_iff]
  constructor
  · simp only [children, Counted.value_map, Counted.value_mapM, Counted.value_bind,
      Counted.value_pure]
    exact withChildren_construction (List.length_map _)
  · simp [children, Node.kind]

/-- A proxy around a value is rebuilt from the value. -/
lemma sweep_wrap (type : ProxyType) (value : Node) :
    names.sweep p parent (names.wrap type (some value)) =
      (fun value => names.wrap type (some value)) <$> names.sweep p (some .construction) value := by
  rw [wrap, construct, sweep_construction]
  simp [sweep_dot, wrap, construct]

end

/-- A declarator is rebuilt from its parts by the passes that do not read arguments. -/
lemma sweep_declarator (hp : p ≠ .arguments) (parent : Option NodeKind) (id : Node)
    (init : Option Node) :
    names.sweep p parent (.declarator id init) = (do
      let id ← names.sweep p (some .declarator) id
      let init ← init.mapM (names.sweep p (some .declarator))
      pure (.declarator id init)) := by
  have hkind : (Node.declarator id init).kind ≠ p.kind :=
    fun h => hp (AccessPass.kind_injective h.symm)
  rw [sweep_of_kind_ne hkind]
  cases init with
  | none => simp [children, Node.kind]; rfl
  | some value => simp [children, Node.kind]; rfl

/-- A declarator that makes a proxy around something else than a name is left alone. -/
lemma rule_bound {value : Node} (h : value.name? = none) (p : AccessPass)
    (parent : Option NodeKind) (name : String) (type : ProxyType) :
    names.rule p parent (.declarator (.identifier name) (some (names.wrap type (some value)))) =
      pure (.declarator (.identifier name) (some (names.wrap type (some value)))) := by
  by_cases hp : p = .arguments
  · subst hp
    rw [rule]
    refine readNode_of_readsArguments ?_
    intro id found arguments heq hproxy a ha
    cases heq
    rw [proxyArguments?_wrap] at hproxy
    cases hproxy
    rw [List.mem_singleton.1 ha]
    exact h
  · exact rule_eq_pure (fun h => hp (AccessPass.kind_injective h.symm)) parent

/-- A pass goes through the constant that a function was bound to, into the function. -/
lemma sweep_bind {value : Node} (h : value.name? = none) (p : AccessPass)
    (parent : Option NodeKind) (name : String) (type : ProxyType) :
    names.sweep p parent (names.bind name type value) =
      names.bind name type <$> names.sweep p (some .construction) value := by
  have hname : (names.sweep p (some .construction) value).value.name? = none :=
    (alike_sweep p _ value).name.trans h
  have hbound : names.rule p (some .declaration) (.declarator (.identifier name)
      (some (names.wrap type (some (names.sweep p (some .construction) value).value)))) = pure _ :=
    rule_bound hname p _ name type
  have hdeclarator : names.sweep p (some .declaration)
      (.declarator (.identifier name) (some (names.wrap type (some value)))) =
        (fun value => .declarator (.identifier name) (some (names.wrap type (some value)))) <$>
          names.sweep p (some .construction) value := by
    rw [Counted.ext_iff, value_sweep, count_sweep]
    simp only [sweepBelow, children, Option.toList_some, List.map_cons, List.map_nil, Node.kind,
      sweep_identifier, sweep_wrap, Counted.value_map, Counted.count_map, Counted.value_pure,
      Counted.count_pure, List.sum_cons, List.sum_nil, Nat.zero_add, Nat.add_zero]
    exact ⟨congrArg Counted.value hbound, by exact congrArg (_ + Counted.count ·) hbound⟩
  rw [ProxyNames.bind, declare, sweep_of_kind_ne (p.ne_kind (by simp [Node.kind]))]
  simp only [children, List.mapM_cons, List.mapM_nil, Node.kind, hdeclarator, bind_pure_comp]
  rfl

/-- A function is rebuilt from its parameters and its body, as a declaration or as a value. -/
lemma sweep_function (hp : p ≠ .functions) (parent : Option NodeKind) (role : Role)
    (id : Option String) (params : List Node) (body : Node) (isAsync isGenerator : Bool) :
    names.sweep p parent (.function role id params body isAsync isGenerator) = (do
      let params ← params.mapM (names.sweep p (some .functionExpression))
      let body ← names.sweep p (some .functionExpression) body
      pure (.function role id params body isAsync isGenerator)) := by
  have hkind : (Node.function role id params body isAsync isGenerator).kind ≠ p.kind := by
    cases role with
    | declaration => exact fun h => hp (AccessPass.kind_injective h.symm)
    | expression => exact p.ne_kind (by simp [Node.kind])
  have hlist : (Node.function role id params body isAsync isGenerator).kind.isStatementList =
      false := by
    cases role <;> rfl
  have hbelow : names.sweep p (some (Node.function role id params body isAsync isGenerator).kind) =
      names.sweep p (some .functionExpression) := sweep_parent p hlist rfl
  rw [sweep_of_kind_ne hkind, hbelow, Counted.ext_iff]
  constructor
  · simp only [children, Counted.value_map, Counted.value_mapM, Counted.value_bind,
      Counted.value_pure, List.map_append, List.map_cons, List.map_nil]
    exact withChildren_function (List.length_map _)
  · simp [children, Counted.count_mapM]

/-- Reading an argument commutes with a pass. -/
lemma sweep_readArgument (p : AccessPass) (parent : Option NodeKind) (n : Node) :
    names.sweep p parent (readArgument n) = readArgument <$> names.sweep p parent n := by
  by_cases hname : n.name? = none
  · have hswept : (names.sweep p parent n).value.name? = none :=
      (alike_sweep p parent n).name.trans hname
    rw [Counted.ext_iff, Counted.value_map, Counted.count_map, readArgument, readArgument,
      readName_of_name?_eq_none hname, readName_of_name?_eq_none hswept]
    exact ⟨rfl, rfl⟩
  · obtain ⟨name, rfl⟩ := exists_eq_identifier (Option.isSome_iff_ne_none.2 hname)
    rw [sweep_identifier]
    exact sweep_readProxy p parent name

lemma count_readName_sweep (p : AccessPass) (parent : Option NodeKind) (n : Node) :
    (readName (names.sweep p parent n).value).count = (readName n).count := by
  by_cases hname : n.name? = none
  · have hswept : (names.sweep p parent n).value.name? = none :=
      (alike_sweep p parent n).name.trans hname
    rw [readName_of_name?_eq_none hname, readName_of_name?_eq_none hswept]
    rfl
  · obtain ⟨name, rfl⟩ := exists_eq_identifier (Option.isSome_iff_ne_none.2 hname)
    rw [sweep_identifier]
    rfl

/-! ### Moving a pass over a change -/

/-- A pass and a change that another rule makes at a node can be exchanged. -/
structure PassesOver (names : ProxyNames) (p q : AccessPass) (parent : Option NodeKind) (n : Node) :
    Prop where
  sweep : names.sweep p parent (names.rule q parent n).value =
    (fun m => (names.rule q parent m).value) <$> names.sweep p parent n
  count : (names.rule q parent (names.sweep p parent n).value).count = (names.rule q parent n).count

/-- There is nothing to exchange with a rule that leaves the node alone before and after. -/
lemma PassesOver.of_pure {parent : Option NodeKind} {n : Node}
    (hbefore : names.rule q parent n = pure n)
    (hafter : names.rule q parent (names.sweep p parent n).value =
      pure (names.sweep p parent n).value) :
    names.PassesOver p q parent n where
  sweep := by
    rw [hbefore, Counted.ext_iff, Counted.value_map, hafter]
    exact ⟨rfl, rfl⟩
  count := by
    rw [hbefore, hafter]
    rfl

lemma passesOver_of_kind_ne {q : AccessPass} {n : Node} (h : n.kind ≠ q.kind) (p : AccessPass)
    (parent : Option NodeKind) : names.PassesOver p q parent n := by
  have hkind : (names.sweep p parent n).value.kind ≠ q.kind :=
    fun hkind => h (q.eq_kind_of_becomes (alike_sweep p parent n).kind hkind)
  exact .of_pure (rule_eq_pure h parent) (rule_eq_pure hkind parent)

lemma passesOver_assignments (hp : p ≠ .assignments) (parent : Option NodeKind)
    (n : Node) : names.PassesOver p .assignments parent n := by
  rcases writeNode_cases n with ⟨hno, hpure⟩ | ⟨_, ⟨name, value, rfl, hchanged⟩ |
    ⟨operator, arithmetic, name, kind, raw, rfl, hchanged⟩⟩
  · have hafter : (names.sweep p parent n).value.isWrite = false :=
      stable_isWrite.rebuild_root (changes_rule p) parent hno
    exact .of_pure hpure (writeNode_eq_pure hafter)
  · have hkind : (Node.assignment .assign (.identifier name) value).kind ≠ p.kind :=
      fun h => hp (AccessPass.kind_injective h.symm)
    have hparent : names.sweep p (some .call) = names.sweep p (some .assignment) :=
      sweep_parent p rfl rfl
    have hbefore : names.sweep p parent (.assignment .assign (.identifier name) value) =
        Node.assignment .assign (.identifier name) <$> names.sweep p (some .assignment) value := by
      rw [sweep_of_kind_ne hkind]
      simp only [children, List.mapM_cons, List.mapM_nil, sweep_identifier, pure_bind,
        bind_pure_comp, Functor.map_map]
      rfl
    constructor
    · rw [rule, hchanged, hbefore, Functor.map_map]
      exact (sweep_writeProxy p parent name value).trans (by rw [hparent]; rfl)
    · rw [hbefore]
      rfl
  · have hkind : (Node.assignment operator (.identifier name) (.literal kind raw)).kind ≠ p.kind :=
      fun h => hp (AccessPass.kind_injective h.symm)
    have hbefore : names.sweep p parent
        (.assignment operator (.identifier name) (.literal kind raw)) =
          pure (.assignment operator (.identifier name) (.literal kind raw)) := by
      rw [sweep_of_kind_ne hkind]
      simp only [children, List.mapM_cons, List.mapM_nil, sweep_identifier, sweep_literal,
        pure_bind, map_pure]
      rfl
    constructor
    · rw [hbefore, map_pure, rule, hchanged]
      exact sweep_updateProxy p parent name arithmetic kind raw
    · rw [hbefore]
      rfl

lemma passesOver_updates (hp : p ≠ .updates) (parent : Option NodeKind)
    (n : Node) : names.PassesOver p .updates parent n := by
  rcases stepNode_cases n with ⟨hno, hpure⟩ | ⟨_, operator, leading, name, rfl, hchanged⟩
  · have hafter : (names.sweep p parent n).value.isStep = false :=
      stable_isStep.rebuild_root (changes_rule p) parent hno
    exact .of_pure hpure (stepNode_eq_pure hafter)
  · have hkind : (Node.update operator leading (.identifier name)).kind ≠ p.kind :=
      fun h => hp (AccessPass.kind_injective h.symm)
    have hbefore : names.sweep p parent (.update operator leading (.identifier name)) =
        pure (.update operator leading (.identifier name)) := by
      rw [sweep_of_kind_ne hkind]
      simp only [children, List.mapM_cons, List.mapM_nil, sweep_identifier, pure_bind, map_pure]
      rfl
    constructor
    · rw [hbefore, map_pure, rule, hchanged]
      exact sweep_updateProxy p parent name _ _ _
    · rw [hbefore]
      rfl

/-- Reading the arguments of a declarator leaves alone what makes no proxy. -/
lemma readNode_eq_pure {id value : Node} (h : names.proxyArguments? value = none) :
    names.readNode (.declarator id (some value)) = pure (.declarator id (some value)) := by
  refine readNode_of_readsArguments ?_
  intro id' value' arguments heq hproxy
  cases heq
  rw [h] at hproxy
  cases hproxy

lemma readNode_of_callee {id callee : Node} {arguments : List Node}
    (h : names.isProxyCallee callee = true) :
    names.readNode (.declarator id (some (.construction callee arguments))) =
      (fun read => .declarator id (some (.construction callee read))) <$>
        arguments.mapM readName := by
  rw [readNode, if_pos h, bind_pure_comp]

lemma passesOver_arguments (hp : p ≠ .arguments) (parent : Option NodeKind)
    {id : Node} {init : Option Node} :
    names.PassesOver p .arguments parent (.declarator id init) := by
  cases init with
  | none =>
    refine .of_pure rfl ?_
    rw [sweep_declarator hp]
    rfl
  | some value =>
    cases hproxy : names.proxyArguments? value with
    | none =>
      refine .of_pure (readNode_eq_pure hproxy) ?_
      rw [sweep_declarator hp]
      exact readNode_eq_pure ((alike_sweep p _ value).proxyArguments?_eq_none hproxy)
    | some arguments =>
      obtain ⟨callee, rfl, hcallee⟩ := exists_of_proxyArguments? hproxy
      have hcallee' : names.isProxyCallee (names.sweep p (some .construction) callee).value = true :=
        (alike_sweep p _ callee).callee.trans hcallee
      have hbefore : (names.rule .arguments parent
          (.declarator id (some (.construction callee arguments)))).value =
            .declarator id (some (.construction callee (arguments.map readArgument))) := by
        rw [rule, readNode_of_callee hcallee, Counted.value_map, Counted.value_mapM]
        rfl
      have hafter : (names.sweep p parent
          (.declarator id (some (.construction callee arguments)))).value =
            .declarator (names.sweep p (some .declarator) id).value
              (some (.construction (names.sweep p (some .construction) callee).value
                (arguments.map fun a => (names.sweep p (some .construction) a).value))) := by
        rw [sweep_declarator hp]
        simp [sweep_construction, Counted.value_mapM]
      constructor
      · have hread : ∀ a, readArgument (names.sweep p (some .construction) a).value =
            (readName (names.sweep p (some .construction) a).value).value := fun _ => rfl
        rw [hbefore, Counted.ext_iff, Counted.value_map, Counted.count_map, hafter, rule,
          readNode_of_callee hcallee', sweep_declarator hp, sweep_declarator hp]
        constructor
        · simp [sweep_construction, Counted.value_mapM, sweep_readArgument, hread]
        · simp [sweep_construction, Counted.count_mapM, sweep_readArgument, Function.comp_def]
      · rw [hafter, rule, rule, readNode_of_callee hcallee', readNode_of_callee hcallee]
        simp [Counted.count_mapM, count_readName_sweep, Function.comp_def]

/-- Only a declared function with a name is hoisted, and only in a list of statements. -/
lemma hoistNode_declaration_eq_pure {parent : Option NodeKind} {id : Option String}
    (h : ∀ k name, parent = some k → id = some name → k.isStatementList = false)
    (params : List Node) (body : Node) (isAsync isGenerator : Bool) :
    names.hoistNode parent (.function .declaration id params body isAsync isGenerator) =
      pure (.function .declaration id params body isAsync isGenerator) := by
  unfold hoistNode
  split
  · next k name params body isAsync isGenerator heq =>
    cases heq
    simp [h k name rfl rfl]
  · rfl

lemma passesOver_functions (hp : p ≠ .functions) (parent : Option NodeKind)
    (id : Option String) (params : List Node) (body : Node) (isAsync isGenerator : Bool) :
    names.PassesOver p .functions parent
      (.function .declaration id params body isAsync isGenerator) := by
  by_cases hhoisted : ∃ k name, parent = some k ∧ id = some name ∧ k.isStatementList = true
  · obtain ⟨k, name, rfl, rfl, hk⟩ := hhoisted
    have hrule : ∀ params body, names.rule .functions (some k)
        (.function .declaration (some name) params body isAsync isGenerator) =
          .changed (names.bind name .function
            (.function .expression (some name) params body isAsync isGenerator)) := by
      intro params body
      simp only [rule, hoistNode, hk, if_true]
    constructor
    · rw [hrule, sweep_function hp, Counted.changed, sweep_bind rfl, sweep_function hp]
      simp only [map_bind, map_pure, hrule, Counted.changed]
    · rw [hrule, sweep_function hp]
      simp only [Counted.value_bind, Counted.value_pure, hrule]
      rfl
  · have hnot : ∀ k name, parent = some k → id = some name → k.isStatementList = false :=
      fun k name hparent hid => Bool.eq_false_iff.2 fun hk => hhoisted ⟨k, name, hparent, hid, hk⟩
    refine .of_pure (hoistNode_declaration_eq_pure hnot _ _ _ _) ?_
    rw [sweep_function hp]
    exact hoistNode_declaration_eq_pure hnot _ _ _ _

/-- A pass can be moved over a change of any other rule. -/
lemma passesOver (hpq : p ≠ q) (parent : Option NodeKind) (n : Node) :
    names.PassesOver p q parent n := by
  by_cases hkind : n.kind = q.kind
  · cases q with
    | functions =>
      obtain ⟨id, params, body, isAsync, isGenerator, rfl⟩ := exists_eq_function hkind
      exact passesOver_functions hpq parent id params body isAsync isGenerator
    | assignments => exact passesOver_assignments hpq parent n
    | updates => exact passesOver_updates hpq parent n
    | arguments =>
      obtain ⟨id, init, rfl⟩ := exists_eq_declarator hkind
      exact passesOver_arguments hpq parent
  · exact passesOver_of_kind_ne hkind p parent

/-! ### Two passes -/

section

variable (hpq : p ≠ q) (parent : Option NodeKind) (n : Node)
include hpq

/-- The tree of two passes, from a node whose children both have been over. -/
lemma value_sweep_sweep :
    (names.sweep p parent (names.sweep q parent n).value).value = (names.rule q parent
      (names.rule p parent (names.sweepBelow p (names.sweepBelow q n))).value).value := by
  rw [value_sweep q, (passesOver hpq parent _).sweep, Counted.value_map, value_sweep p]

/-- A rule makes as many changes at a node that only its pass has been below as at one that both
have been below: the other pass is moved over it, first below the node and then at the node. -/
lemma count_rule_sweepBelow :
    (names.rule p parent (names.sweepBelow q (names.sweepBelow p n))).count =
      (names.rule p parent (names.sweepBelow p n)).count := by
  have hpassed : names.PassesOver q p parent (names.sweepBelow p n) := passesOver hpq.symm parent _
  have hmoved := hpassed.count
  rwa [value_sweep q, count_rule_rule hpq] at hmoved

/-- Two passes commute on every tree, and neither changes how often the other finds something to
do. -/
lemma sweep_comm :
    (names.sweep p parent (names.sweep q parent n).value).value =
        (names.sweep q parent (names.sweep p parent n).value).value ∧
      (names.sweep p parent (names.sweep q parent n).value).count =
        (names.sweep p parent n).count := by
  induction n using induction_on_children generalizing parent with
  | step n ih =>
    have htrees : names.sweepBelow p (names.sweepBelow q n) =
        names.sweepBelow q (names.sweepBelow p n) := by
      rw [sweepBelow_sweepBelow, sweepBelow_sweepBelow]
      exact congrArg n.withChildren (List.map_congr_left fun c hc => (ih c hc _).1)
    constructor
    · rw [value_sweep_sweep hpq, value_sweep_sweep hpq.symm, htrees]
      exact rule_comm hpq parent _
    · have hcounts : (n.children.map fun c =>
            (names.sweep p (some n.kind) (names.sweep q (some n.kind) c).value).count) =
          n.children.map fun c => (names.sweep p (some n.kind) c).count :=
        List.map_congr_left fun c hc => (ih c hc _).2
      rw [value_sweep q, (passesOver hpq parent _).sweep, Counted.count_map, count_sweep p,
        kind_sweepBelow, children_sweepBelow, List.map_map, htrees, count_rule_sweepBelow hpq,
        count_sweep p]
      exact congrArg (List.sum · + _) hcounts

end

/-! ### Any order -/

lemma pass_comm (hpq : p ≠ q) (n : Node) :
    (names.pass p (names.pass q n).value).value = (names.pass q (names.pass p n).value).value := by
  simp only [pass_eq]
  exact (sweep_comm hpq none n).1

lemma count_pass_pass (hpq : p ≠ q) (n : Node) :
    (names.pass p (names.pass q n).value).count = (names.pass p n).count := by
  simp only [pass_eq]
  exact (sweep_comm hpq none n).2

/-- Two passes that follow one another can be exchanged. -/
lemma passes_swap (hpq : p ≠ q) (ps : List AccessPass) (n : Node) :
    names.passes (p :: q :: ps) n = names.passes (q :: p :: ps) n := by
  simp only [passes, pass_comm hpq, count_pass_pass hpq, count_pass_pass hpq.symm]
  refine Prod.ext rfl (funext fun r => ?_)
  exact Nat.add_left_comm _ _ _

/-- Different passes may run in any order. -/
lemma passes_perm {ps qs : List AccessPass} (h : ps.Perm qs) (hps : ps.Nodup) (n : Node) :
    names.passes ps n = names.passes qs n := by
  induction h generalizing n with
  | nil => rfl
  | cons p _ ih => simp only [passes, ih (List.nodup_cons.1 hps).2]
  | swap p q ps =>
    have hne : q ≠ p := fun h => (List.nodup_cons.1 hps).1 (h ▸ List.mem_cons_self)
    exact passes_swap hne ps n
  | trans hfirst _ ihfirst ihsecond =>
    exact (ihfirst hps n).trans (ihsecond (hfirst.nodup_iff.1 hps) n)

end ProxyNames

/-- A tree with its bindings behind proxies, where the passes after the wrapping run in the given
order. -/
def Options.instrumentIn (o : Options) (order : List AccessPass) (n : Node) : Node × Changes :=
  let (tree, wrapped) := o.names.wrapAll o.readArguments n
  let (tree, counts) := o.names.passes order tree
  let imported := if o.importClient then o.names.importInto? tree else none
  (imported.getD tree,
    { wrapped
      functions := counts .functions
      assignments := counts .assignments
      updates := counts .updates
      constructorArguments := counts .arguments
      clientImported := imported.isSome })

/-- Two of the passes for functions, assignments, updates and constructor arguments leave the same
tree in either order, and neither of them makes more or fewer changes after the other.  So any order
of the four gives the tree and the numbers of changes of an instrumented script. -/
theorem passes_commute (names : ProxyNames) (n : Node) :
    (∀ p q, p ≠ q →
      (names.pass q (names.pass p n).value).value = (names.pass p (names.pass q n).value).value ∧
        (names.pass p (names.pass q n).value).count = (names.pass p n).count ∧
        (names.pass q (names.pass p n).value).count = (names.pass q n).count) ∧
      ∀ order, order.Perm AccessPass.inOrder →
        names.passes order n = names.passes AccessPass.inOrder n ∧
          ∀ o : Options, o.instrumentIn order n = o.instrumentTree n := by
  constructor
  · intro p q hpq
    exact ⟨ProxyNames.pass_comm hpq.symm n, ProxyNames.count_pass_pass hpq n,
      ProxyNames.count_pass_pass hpq.symm n⟩
  · intro order horder
    have hnodup : order.Nodup := horder.nodup_iff.2 (by decide)
    have hpasses : ∀ (names : ProxyNames) (m : Node),
        names.passes order m = names.passes AccessPass.inOrder m :=
      fun names m => ProxyNames.passes_perm horder hnodup m
    refine ⟨hpasses names n, fun o => ?_⟩
    simp [Options.instrumentIn, Options.instrumentTree, hpasses, AccessPass.inOrder,
      ProxyNames.passes, ProxyNames.pass]

/-- A script in which every pass finds something to do. -/
def crossingScript : Node :=
  .program [
    .function .declaration (some "f") []
      (.block [.expressionStatement (.assignment .assign (.identifier "x")
        (.update .increment false (.identifier "y")))]) false false,
    .declare .constant "z" (some (ProxyNames.construct {} "Variable" [.identifier "x"]))]

/-- The passes for functions and assignments cross in that script, and all four may run in the
opposite order. -/
theorem passes_commute_crossing :
    AccessPass.functions ≠ .assignments ∧
      (ProxyNames.pass {} .functions crossingScript).count = 1 ∧
      (ProxyNames.pass {} .assignments crossingScript).count = 1 ∧
      (ProxyNames.pass {} .assignments (ProxyNames.pass {} .functions crossingScript).value).value =
        (ProxyNames.pass {} .functions (ProxyNames.pass {} .assignments crossingScript).value).value ∧
      AccessPass.inOrder.reverse.Perm AccessPass.inOrder ∧
      ProxyNames.passes {} AccessPass.inOrder.reverse crossingScript =
        ProxyNames.passes {} AccessPass.inOrder crossingScript := by
  have hperm := AccessPass.inOrder.reverse_perm
  have hcommute := passes_commute {} crossingScript
  have hcross := hcommute.1 .functions .assignments (by decide)
  exact ⟨by decide, rfl, rfl, hcross.1, hperm, (hcommute.2 _ hperm).1⟩

end BindingProxy
