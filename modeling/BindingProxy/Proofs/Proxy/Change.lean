import BindingProxy.Proofs.Tree.Shape
import BindingProxy.Proxy.Instrument

/-!
# What the changes do to a node

Functions, assignments, updates and constructor arguments are changed by four passes, each of which
rebuilds the tree by a rule of its own.  `Change` lists what any of these rules can do to a node.
What is shown of `Change` holds of all four passes, whatever their order.

A changed node looks to its parent almost as before: a plain name, a proxy type and the construction
of a proxy stay what they are, and `Becomes` lists how its kind can change.  This is `Alike`.  A
property of single nodes that depends on their children only through their looks, and that the new
fragments have, is `Stable`, and the passes preserve it.
-/

namespace BindingProxy

open Node

/-- How a change can change the kind of a node.  A function declaration becomes a constant only in a
list of statements. -/
inductive Becomes (parent : Option NodeKind) : NodeKind → NodeKind → Prop where
  | same (k : NodeKind) : Becomes parent k k
  | assignment : Becomes parent .assignment .call
  | update : Becomes parent .update .call
  | function {k : NodeKind} (hparent : parent = some k) (hk : k.isStatementList = true) :
    Becomes parent .functionDeclaration .declaration

namespace ProxyNames

variable (names : ProxyNames)

/-- The arguments of a construction of a proxy. -/
def proxyArguments? : Node → Option (List Node)
  | .construction callee arguments =>
    if names.isProxyCallee callee then some arguments else none
  | _ => none

variable {names} in
/-- What has the arguments of a new proxy is one. -/
lemma exists_of_proxyArguments? {n : Node} {arguments : List Node}
    (h : names.proxyArguments? n = some arguments) :
    ∃ callee, n = .construction callee arguments ∧ names.isProxyCallee callee = true := by
  cases n with
  | construction callee found =>
    by_cases hcallee : names.isProxyCallee callee = true
    · rw [proxyArguments?, if_pos hcallee] at h
      cases h
      exact ⟨callee, rfl, hcallee⟩
    · rw [proxyArguments?, if_neg hcallee] at h
      cases h
  | _ => cases h

/-- An argument of the constructor of a proxy after the change: a name is read. -/
def readArgument (n : Node) : Node := (readName n).value

/-- What a rule can do to a node under a parent. -/
inductive Change (parent : Option NodeKind) : Node → Node → Prop where
  | same (n : Node) : Change parent n n
  | hoist (name : String) (params : List Node) (body : Node) (isAsync isGenerator : Bool)
    {k : NodeKind} (hparent : parent = some k) (hk : k.isStatementList = true) :
    Change parent (.function .declaration (some name) params body isAsync isGenerator)
      (names.bind name .function (.function .expression (some name) params body isAsync isGenerator))
  | write (name : String) (value : Node) :
    Change parent (.assignment .assign (.identifier name) value) (writeProxy name value)
  | compute (operator : AssignmentOperator) (arithmetic : BinaryOperator) (name : String)
    (kind : LiteralKind) (raw : String) :
    Change parent (.assignment operator (.identifier name) (.literal kind raw))
      (updateProxy name arithmetic (.literal kind raw))
  | step (operator : UpdateOperator) (leading : Bool) (name : String) :
    Change parent (.update operator leading (.identifier name))
      (updateProxy name operator.delta (.literal .number "1"))
  | read (id callee : Node) (arguments : List Node) :
    Change parent (.declarator id (some (.construction callee arguments)))
      (.declarator id (some (.construction callee (arguments.map readArgument))))

/-! ### The rules -/

section

variable (parent : Option NodeKind) (n : Node)

lemma change_hoistNode : names.Change parent n (names.hoistNode parent n).value := by
  unfold hoistNode
  split
  · next k name params body isAsync isGenerator =>
    by_cases hk : k.isStatementList = true
    · simp only [hk, if_true]
      exact .hoist name params body isAsync isGenerator rfl hk
    · simp only [hk]
      exact .same _
  · exact .same _

lemma change_writeNode : names.Change parent n n.writeNode.value := by
  unfold writeNode
  split
  · exact .write _ _
  · split
    · exact .compute _ _ _ _ _
    · exact .same _
  · exact .same _

lemma change_stepNode : names.Change parent n n.stepNode.value := by
  unfold stepNode
  split
  · exact .step _ _ _
  · exact .same _

lemma change_readNode : names.Change parent n (names.readNode n).value := by
  unfold readNode
  split
  · split
    · rw [Counted.value_bind, Counted.value_pure, Counted.value_mapM]
      exact .read _ _ _
    · exact .same _
  · exact .same _

end

/-! ### Looks -/

/-- What a node looks like to its parent after a change. -/
structure Alike (parent : Option NodeKind) (n m : Node) : Prop where
  kind : Becomes parent n.kind m.kind
  name : m.name? = n.name?
  callee : names.isProxyCallee m = names.isProxyCallee n
  proxy : (names.proxyArguments? m).map List.length = (names.proxyArguments? n).map List.length

variable {names}

lemma Change.alike {parent : Option NodeKind} {n m : Node} (h : names.Change parent n m) :
    names.Alike parent n m := by
  cases h with
  | same => exact ⟨.same _, rfl, rfl, rfl⟩
  | hoist name params body isAsync isGenerator hparent hk =>
    exact ⟨.function hparent hk, rfl, rfl, rfl⟩
  | write => exact ⟨.assignment, rfl, rfl, rfl⟩
  | compute => exact ⟨.assignment, rfl, rfl, rfl⟩
  | step => exact ⟨.update, rfl, rfl, rfl⟩
  | read => exact ⟨.same _, rfl, rfl, rfl⟩

/-- Whether a property is a proxy type depends only on its names. -/
lemma isProxyCallee_member (owner key : Node) (computed optional : Bool) :
    names.isProxyCallee (.member owner key computed optional) =
      (!computed && owner.name?.any fun a => key.name?.any fun b => names.isProxyType a b) := by
  cases owner with
  | identifier a =>
    cases key with
    | identifier b => cases computed <;> rfl
    | _ => cases computed <;> rfl
  | _ => cases computed <;> rfl

/-- A property stays a proxy type or none if its parts keep their names. -/
lemma isProxyCallee_withChildren {n : Node} {cs : List Node}
    (h : List.Forall₂ (fun c d => d.name? = c.name?) n.children cs) :
    names.isProxyCallee (n.withChildren cs) = names.isProxyCallee n := by
  cases n with
  | member owner key computed optional =>
    obtain ⟨owner', rest, howner, hrest, rfl⟩ := List.forall₂_cons_left_iff.1 h
    obtain ⟨key', rest, hkey, hrest, rfl⟩ := List.forall₂_cons_left_iff.1 hrest
    rw [isProxyCallee_member, ← howner, ← hkey, ← isProxyCallee_member owner' key' computed optional]
    rfl
  | _ => rfl

/-- A construction stays one of a proxy, with as many arguments, if its callee stays a proxy type. -/
lemma proxyArguments?_withChildren {n : Node} {cs : List Node}
    (h : List.Forall₂ (fun c d => names.isProxyCallee d = names.isProxyCallee c) n.children cs) :
    (names.proxyArguments? (n.withChildren cs)).map List.length =
      (names.proxyArguments? n).map List.length := by
  cases n with
  | construction callee arguments =>
    obtain ⟨callee', arguments', hcallee, harguments, rfl⟩ := List.forall₂_cons_left_iff.1 h
    rw [withChildren_construction harguments.length_eq.symm]
    simp only [proxyArguments?, hcallee]
    split <;> simp [harguments.length_eq]
  | _ => rfl

/-- A node looks the same with children that look the same. -/
lemma alike_withChildren {n : Node} {cs : List Node} (parent : Option NodeKind)
    (h : List.Forall₂ (names.Alike (some n.kind)) n.children cs) :
    names.Alike parent n (n.withChildren cs) where
  kind := by
    rw [kind_withChildren]
    exact .same _
  name := name?_withChildren n cs
  callee := isProxyCallee_withChildren (h.imp fun _ _ hcd => hcd.name)
  proxy := proxyArguments?_withChildren (h.imp fun _ _ hcd => hcd.callee)

/-! ### Properties that the passes preserve -/

/-- A property of the kinds of nodes that access a proxy. -/
def OfAccess (P : Node → Prop) : Prop :=
  ∀ n, n.kind ∈ [NodeKind.call, .member, .identifier, .binary, .literal] → P n

section OfAccess

variable {P : Node → Prop} (hP : OfAccess P)

include hP

lemma everywhere_identifier (name : String) : (Node.identifier name).Everywhere P :=
  everywhere_iff.2 ⟨hP _ (by simp [Node.kind]), by simp [Node.children]⟩

lemma everywhere_dot (owner key : String) : (dot (.identifier owner) key).Everywhere P := by
  refine everywhere_iff.2 ⟨hP _ (by simp [dot, Node.kind]), ?_⟩
  simp [dot, Node.children, everywhere_identifier hP]

/-- A call of a method of a proxy. -/
lemma everywhere_callMethod (name method : String) {arguments : List Node}
    (h : ∀ a ∈ arguments, a.Everywhere P) :
    (callMethod (.identifier name) method arguments).Everywhere P :=
  everywhere_iff.2 ⟨hP _ (by simp [callMethod, Node.kind]),
    List.forall_mem_cons.2 ⟨everywhere_dot hP name method, h⟩⟩

lemma everywhere_updateProxy (name : String) (operator : BinaryOperator) (kind : LiteralKind)
    (raw : String) : (updateProxy name operator (.literal kind raw)).Everywhere P := by
  have hliteral : (Node.literal kind raw).Everywhere P :=
    everywhere_iff.2 ⟨hP _ (by simp [Node.kind]), by simp [Node.children]⟩
  have hread : (readProxy name).Everywhere P := everywhere_callMethod hP name "get" (by simp)
  refine everywhere_callMethod hP name "set" (List.forall_mem_singleton.2 ?_)
  exact everywhere_iff.2 ⟨hP _ (by simp [Node.kind]), by simp [Node.children, hread, hliteral]⟩

lemma everywhere_readArgument {n : Node} (h : n.Everywhere P) : (readArgument n).Everywhere P := by
  unfold readArgument readName
  split
  · exact everywhere_callMethod hP _ "get" (by simp)
  · exact h

end OfAccess

/-- A property of single nodes that depends on their children only through their looks, and that the
fragments of the changes have. -/
structure Stable (names : ProxyNames) (P : Node → Prop) : Prop where
  /-- The property is kept when the children are changed. -/
  children {n : Node} {cs : List Node} :
    List.Forall₂ (names.Alike (some n.kind)) n.children cs → P n → P (n.withChildren cs)
  /-- The nodes that access a proxy have the property. -/
  access : OfAccess P
  /-- The nodes that bind a name to a function have the property. -/
  binding (name : String) {f : Node} (hf : f.isFunctionValue = true) :
    P (names.bind name .function f) ∧
      P (.declarator (.identifier name) (some (names.wrap .function (some f)))) ∧
        P (names.wrap .function (some f))
  /-- A declared function keeps the property as a value. -/
  function {id : Option String} {params : List Node} {body : Node} {isAsync isGenerator : Bool} :
    P (.function .declaration id params body isAsync isGenerator) →
      P (.function .expression id params body isAsync isGenerator)
  /-- A declarator keeps the property when the arguments of its proxy are read. -/
  declarator {id callee : Node} {arguments : List Node} :
    P (.declarator id (some (.construction callee arguments))) →
      P (.declarator id (some (.construction callee (arguments.map readArgument))))
  /-- A construction keeps the property when its arguments are read. -/
  construction {callee : Node} {arguments : List Node} :
    P (.construction callee arguments) →
      P (.construction callee (arguments.map readArgument))

/-- A change keeps the property in the whole tree below it. -/
lemma Stable.everywhere_of_change {P : Node → Prop} (hP : names.Stable P) {parent : Option NodeKind} {n m : Node}
    (h : names.Change parent n m) (hn : n.Everywhere P) : m.Everywhere P := by
  obtain ⟨hroot, hbelow⟩ := everywhere_iff.1 hn
  cases h with
  | same => exact hn
  | hoist name params body isAsync isGenerator hparent hk =>
    obtain ⟨hbind, hdeclarator, hwrap⟩ := hP.binding name
      (f := .function .expression (some name) params body isAsync isGenerator) rfl
    have hfunction := everywhere_iff.2 ⟨hP.function hroot, hbelow⟩
    have hproxy := everywhere_iff.2 ⟨hwrap, List.forall_mem_cons.2
      ⟨everywhere_dot hP.access _ _, List.forall_mem_singleton.2 hfunction⟩⟩
    have hbound := everywhere_iff.2 ⟨hdeclarator, List.forall_mem_cons.2
      ⟨everywhere_identifier hP.access name, List.forall_mem_singleton.2 hproxy⟩⟩
    exact everywhere_iff.2 ⟨hbind, List.forall_mem_singleton.2 hbound⟩
  | write name value =>
    refine everywhere_callMethod hP.access name "set" (List.forall_mem_singleton.2 ?_)
    exact hbelow value (by simp [Node.children])
  | compute operator arithmetic name kind raw => exact everywhere_updateProxy hP.access name _ kind raw
  | step operator leading name => exact everywhere_updateProxy hP.access name _ _ _
  | read id callee arguments =>
    obtain ⟨hid, hproxy⟩ := List.forall_mem_cons.1 hbelow
    obtain ⟨hconstruction, hparts⟩ := everywhere_iff.1 (List.forall_mem_singleton.1 hproxy)
    obtain ⟨hcallee, harguments⟩ := List.forall_mem_cons.1 hparts
    have hread : ∀ a ∈ arguments.map readArgument, a.Everywhere P := by
      intro a ha
      obtain ⟨b, hb, rfl⟩ := List.mem_map.1 ha
      exact everywhere_readArgument hP.access (harguments b hb)
    have hproxy := everywhere_iff.2
      ⟨hP.construction hconstruction, List.forall_mem_cons.2 ⟨hcallee, hread⟩⟩
    exact everywhere_iff.2 ⟨hP.declarator hroot, List.forall_mem_cons.2
      ⟨hid, List.forall_mem_singleton.2 hproxy⟩⟩

/-! ### The passes -/

/-- A rule that makes only changes. -/
def Changes (names : ProxyNames) (f : Option NodeKind → Node → Counted Node) : Prop :=
  ∀ parent n, names.Change parent n (f parent n).value

variable {f : Option NodeKind → Node → Counted Node}

/-- A node keeps its looks when its children are changed and then the node itself. -/
lemma Alike.of_children {parent : Option NodeKind} {n m : Node} {cs : List Node}
    (h : List.Forall₂ (names.Alike (some n.kind)) n.children cs)
    (hchange : names.Change parent (n.withChildren cs) m) : names.Alike parent n m := by
  have hfilled := alike_withChildren parent h
  have hm := hchange.alike
  refine ⟨?_, hm.name.trans hfilled.name, hm.callee.trans hfilled.callee,
    hm.proxy.trans hfilled.proxy⟩
  simpa only [kind_withChildren] using hm.kind

/-- A pass keeps the looks of every tree. -/
lemma alike_rebuild (hf : names.Changes f) (parent : Option NodeKind) (n : Node) :
    names.Alike parent n (rebuildM f parent n).value :=
  rebuild_induction (P := names.Alike) (fun parent _ _ hcs => .of_children hcs (hf parent _)) parent n

/-- A changed node has the stable properties that it had before. -/
lemma Stable.of_change {P : Node → Prop} (hP : names.Stable P) {parent : Option NodeKind} {n m : Node}
    (h : names.Change parent n m) (hn : P n) : P m := by
  cases h with
  | same => exact hn
  | hoist name params body isAsync isGenerator hparent hk => exact (hP.binding name rfl).1
  | write name value => exact hP.access _ (by simp [writeProxy, callMethod, Node.kind])
  | compute operator arithmetic name kind raw =>
    exact hP.access _ (by simp [updateProxy, writeProxy, callMethod, Node.kind])
  | step operator leading name =>
    exact hP.access _ (by simp [updateProxy, writeProxy, callMethod, Node.kind])
  | read id callee arguments => exact hP.declarator hn

/-- The root of a tree has the stable properties after a pass that it had before. -/
lemma Stable.rebuild_root {P : Node → Prop} (hP : names.Stable P) (hf : names.Changes f)
    (parent : Option NodeKind) {n : Node} (hn : P n) : P (rebuildM f parent n).value := by
  rw [value_rebuildM]
  refine hP.of_change (hf parent _) (hP.children ?_ hn)
  rw [List.forall₂_map_right_iff, List.forall₂_same]
  exact fun c _ => alike_rebuild hf _ c

/-- A pass preserves stable properties. -/
lemma Stable.everywhere_rebuild {P : Node → Prop} (hP : names.Stable P) (hf : names.Changes f)
    (parent : Option NodeKind) {n : Node} (hn : n.Everywhere P) :
    (rebuildM f parent n).value.Everywhere P := by
  have h := rebuild_induction (f := f)
    (P := fun parent n m => names.Alike parent n m ∧ (n.Everywhere P → m.Everywhere P)) ?_ parent n
  · exact h.2 hn
  · intro parent n cs hcs
    have halike := hcs.imp fun _ _ hcd => hcd.1
    refine ⟨.of_children halike (hf parent _), fun hn => ?_⟩
    obtain ⟨hroot, hbelow⟩ := everywhere_iff.1 hn
    refine hP.everywhere_of_change (hf parent _) (everywhere_iff.2 ⟨hP.children halike hroot, ?_⟩)
    rw [children_withChildren n hcs.length_eq.symm]
    intro d hd
    obtain ⟨c, hc, hcd⟩ := exists_of_mem_right hcs hd
    exact hcd.2 (hbelow c hc)

/-- A pass whose rule brings a property to every node that it is given establishes it. -/
lemma everywhere_rebuild_of_rule {P : Node → Prop}
    (hrule : ∀ parent m, (∀ c ∈ m.children, c.Everywhere P) → (f parent m).value.Everywhere P)
    (parent : Option NodeKind) (n : Node) : (rebuildM f parent n).value.Everywhere P := by
  refine rebuild_induction (P := fun _ _ m => m.Everywhere P) ?_ parent n
  intro parent n cs hcs
  refine hrule parent _ ?_
  rw [children_withChildren n hcs.length_eq.symm]
  intro d hd
  obtain ⟨c, _, hd⟩ := exists_of_mem_right hcs hd
  exact hd

end ProxyNames

/-! ### All passes together -/

/-- A tree after all passes, before anything is imported. -/
def Options.proxied (o : Options) (n : Node) : Node :=
  (o.names.readConstructorArguments (o.names.hoistFunctions
    (o.names.wrapAll o.readArguments n).1).value.writeAssignments.value.writeUpdates.value).value

lemma Options.fst_instrumentTree (o : Options) (n : Node) :
    (o.instrumentTree n).1 =
      (if o.importClient then o.names.importInto? (o.proxied n) else none).getD (o.proxied n) :=
  rfl

end BindingProxy
