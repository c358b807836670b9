import BindingProxy.Proofs.Proxy.NormalForm

/-!
# Declared names are bound to proxies

Wrapping binds every declared name to a proxy, the names in loop heads apart, and the later passes
keep it so.  Where a declarator stands decides whether it is asked for, so the statements are about
a node together with its being in a loop head or not.
-/

namespace BindingProxy

namespace ProxyNames

open Node

variable {names : ProxyNames}

/-! ### Fragments -/

/-- The declarators outside loop heads bind proxies. -/
abbrev BindProxies (names : ProxyNames) (n : Node) (inHead : Bool) : Prop :=
  DeclaratorsFit names.BindsProxy n inHead

variable {n : Node}

/-- A node whose children stand in no loop head, and that is no declarator. -/
lemma bindProxies_iff {inHead : Bool} (hslot : ∀ place, n.headSlot inHead place = false)
    (hn : n.isDeclarator = false) :
    names.BindProxies n inHead ↔ ∀ c ∈ n.children, names.BindProxies c false := by
  rw [BindProxies, declaratorsFit_iff_of_no_slot hslot, hn]
  simp

lemma bindProxies_identifier (name : String) (inHead : Bool) :
    names.BindProxies (.identifier name) inHead :=
  (bindProxies_iff (fun _ => rfl) rfl).2 (by simp [Node.children])

lemma bindProxies_dot (owner key : String) : names.BindProxies (dot (.identifier owner) key) false :=
  (bindProxies_iff (fun _ => rfl) rfl).2 (by simp [dot, Node.children, bindProxies_identifier])

lemma bindProxies_callMethod (name method : String) {arguments : List Node} (inHead : Bool)
    (h : ∀ a ∈ arguments, names.BindProxies a false) :
    names.BindProxies (callMethod (.identifier name) method arguments) inHead :=
  (bindProxies_iff (fun _ => rfl) rfl).2 (List.forall_mem_cons.2 ⟨bindProxies_dot name method, h⟩)

lemma bindProxies_updateProxy (name : String) (operator : BinaryOperator) (kind : LiteralKind)
    (raw : String) (inHead : Bool) :
    names.BindProxies (updateProxy name operator (.literal kind raw)) inHead := by
  have hliteral : names.BindProxies (.literal kind raw) false :=
    (bindProxies_iff (fun _ => rfl) rfl).2 (by simp [Node.children])
  have hread : names.BindProxies (readProxy name) false :=
    bindProxies_callMethod name "get" false (by simp)
  refine bindProxies_callMethod name "set" inHead (List.forall_mem_singleton.2 ?_)
  exact (bindProxies_iff (fun _ => rfl) rfl).2 (by simp [Node.children, hread, hliteral])

lemma bindProxies_readArgument (h : names.BindProxies n false) :
    names.BindProxies (readArgument n) false := by
  unfold readArgument readName
  split
  · exact bindProxies_callMethod _ "get" false (by simp)
  · exact h

lemma bindProxies_wrap (type : ProxyType) (value : Option Node)
    (h : ∀ n ∈ value, names.BindProxies n false) :
    names.BindProxies (names.wrap type value) false := by
  refine (bindProxies_iff (fun _ => rfl) rfl).2 (List.forall_mem_cons.2 ⟨bindProxies_dot _ _, ?_⟩)
  exact fun n hn => h n (Option.mem_toList.1 hn)

/-- A name bound to a value in a proxy. -/
lemma bindsProxy_wrap (id : Node) (type : ProxyType) (value : Option Node) :
    names.BindsProxy (.declarator id (some (names.wrap type value))) := by
  intro name init heq
  cases heq
  refine ⟨_, value.toList, rfl, proxyArguments?_wrap type value, ?_⟩
  cases value <;> simp

/-- A declarator from its parts. -/
lemma bindProxies_declarator {id : Node} {init : Option Node}
    (hbinds : names.BindsProxy (.declarator id init)) (hid : names.BindProxies id false)
    (hinit : ∀ n ∈ init, names.BindProxies n false) (inHead : Bool) :
    names.BindProxies (.declarator id init) inHead := by
  refine (declaratorsFit_iff_of_no_slot fun _ => rfl).2 ⟨fun _ _ => hbinds, ?_⟩
  exact List.forall_mem_cons.2 ⟨hid, fun n hn => hinit n (Option.mem_toList.1 hn)⟩

/-- A name stays bound to a proxy when the argument of the proxy is read. -/
lemma bindsProxy_read {id callee : Node} {arguments : List Node}
    (h : names.BindsProxy (.declarator id (some (.construction callee arguments)))) :
    names.BindsProxy
      (.declarator id (some (.construction callee (arguments.map readArgument)))) := by
  intro name init heq
  cases heq
  obtain ⟨value, found, hvalue, hproxy, hlength⟩ := h name _ rfl
  cases hvalue
  obtain ⟨callee', heq, hcallee⟩ := exists_of_proxyArguments? hproxy
  cases heq
  refine ⟨_, arguments.map readArgument, rfl, ?_, by simpa using hlength⟩
  rw [proxyArguments?, if_pos hcallee]

/-! ### The later passes -/

/-- A change keeps it that declared names are bound to proxies. -/
lemma Change.bindProxies {parent : Option NodeKind} {n m : Node} (h : names.Change parent n m)
    {inHead : Bool} (hn : names.BindProxies n inHead) : names.BindProxies m inHead := by
  cases h with
  | same => exact hn
  | hoist name params body isAsync isGenerator hparent hk =>
    have hfunction := (bindProxies_iff (fun _ => rfl) rfl).1 hn
    have hvalue : names.BindProxies (.function .expression (some name) params body isAsync
        isGenerator) false := (bindProxies_iff (fun _ => rfl) rfl).2 hfunction
    have hproxy := bindProxies_wrap .function (some _) (by simpa using hvalue)
    refine declaratorsFit_iff.2 ⟨by simp [bind, declare, isDeclarator], fun place hplace => ?_⟩
    have hzero : place = 0 := by simpa [bind, declare, Node.children] using hplace
    subst hzero
    exact bindProxies_declarator (bindsProxy_wrap _ _ _) (bindProxies_identifier name false)
      (by simpa using hproxy) inHead
  | write name value =>
    have hparts := (bindProxies_iff (fun _ => rfl) rfl).1 hn
    exact bindProxies_callMethod name "set" inHead
      (List.forall_mem_singleton.2 (hparts value (by simp [Node.children])))
  | compute operator arithmetic name kind raw => exact bindProxies_updateProxy name _ kind raw inHead
  | step operator leading name => exact bindProxies_updateProxy name _ _ _ inHead
  | read id callee arguments =>
    obtain ⟨hbinds, hparts⟩ := (declaratorsFit_iff_of_no_slot fun _ => rfl).1 hn
    obtain ⟨hid, hvalue⟩ := List.forall_mem_cons.1 hparts
    have hproxy : names.BindProxies (.construction callee arguments) false :=
      hvalue _ (by simp)
    obtain ⟨hcallee, harguments⟩ :=
      List.forall_mem_cons.1 ((bindProxies_iff (fun _ => rfl) rfl).1 hproxy)
    have hread : ∀ a ∈ arguments.map readArgument, names.BindProxies a false := by
      intro a ha
      obtain ⟨b, hb, rfl⟩ := List.mem_map.1 ha
      exact bindProxies_readArgument (harguments b hb)
    refine (declaratorsFit_iff_of_no_slot fun _ => rfl).2 ⟨fun hd hfree => ?_, ?_⟩
    · exact bindsProxy_read (hbinds rfl hfree)
    · refine List.forall_mem_cons.2 ⟨hid, List.forall_mem_singleton.2 ?_⟩
      exact (bindProxies_iff (fun _ => rfl) rfl).2 (List.forall_mem_cons.2 ⟨hcallee, hread⟩)

/-- A declarator still binds a proxy when its children look the same. -/
lemma bindsProxy_withChildren {cs : List Node}
    (h : List.Forall₂ (names.Alike (some n.kind)) n.children cs) (hn : names.BindsProxy n) :
    names.BindsProxy (n.withChildren cs) := by
  cases n with
  | declarator id init =>
    obtain ⟨id', rest, hid, hrest, rfl⟩ := List.forall₂_cons_left_iff.1 h
    intro name init' heq
    have hname : id = .identifier name := by
      cases heq
      exact eq_identifier_of_name? hid.name.symm
    obtain ⟨value, arguments, rfl, hproxy, hlength⟩ := hn name init (by rw [hname])
    obtain ⟨value', rest, hvalue, hrest, rfl⟩ := List.forall₂_cons_left_iff.1 hrest
    have hlook := hvalue.proxy
    rw [hproxy] at hlook
    obtain ⟨arguments', hproxy', hlength'⟩ := Option.map_eq_some_iff.1 hlook
    cases heq
    exact ⟨value', arguments', rfl, hproxy', by omega⟩
  | _ =>
    intro name init heq
    cases heq

/-- Declarations stay declarations and no others come up, lists of statements apart. -/
lemma Alike.isDeclaration_eq {k : NodeKind} {n m : Node} (h : names.Alike (some k) n m)
    (hk : k.isStatementList = false) : m.isDeclaration = n.isDeclaration := by
  rw [isDeclaration_eq_kind, isDeclaration_eq_kind]
  have hkind := h.kind
  generalize n.kind = k₁, m.kind = k₂ at hkind ⊢
  cases hkind with
  | same => rfl
  | assignment => rfl
  | update => rfl
  | function hparent hk' =>
    cases hparent
    rw [hk] at hk'
    cases hk'

/-- A pass keeps it that declared names are bound to proxies. -/
lemma bindProxies_rebuild {f : Option NodeKind → Node → Counted Node} (hf : names.Changes f)
    (parent : Option NodeKind) {inHead : Bool} (hn : names.BindProxies n inHead) :
    names.BindProxies (rebuildM f parent n).value inHead := by
  refine (rebuild_induction (f := f) (P := fun parent n m => names.Alike parent n m ∧
    ∀ inHead, names.BindProxies n inHead → names.BindProxies m inHead) ?_ parent n).2 inHead hn
  intro parent n cs hcs
  have halike := hcs.imp fun _ _ hcd => hcd.1
  refine ⟨.of_children halike (hf parent _), fun inHead hn => (hf parent _).bindProxies ?_⟩
  obtain ⟨hbinds, hbelow⟩ := declaratorsFit_iff.1 hn
  refine declaratorsFit_iff.2 ⟨fun hd hfree => ?_, fun place hplace => ?_⟩
  · exact bindsProxy_withChildren halike (hbinds (by rwa [isDeclarator_withChildren] at hd) hfree)
  · have hfilled := children_withChildren n hcs.length_eq.symm
    have hcs_place : place < cs.length := by rwa [hfilled] at hplace
    have hn_place : place < n.children.length := by rwa [hcs.length_eq]
    rw [headSlot_withChildren (halike.imp fun _ _ hcd => hcd.isDeclaration_eq)]
    simp only [hfilled]
    exact (hcs.get hn_place hcs_place).2 _ (hbelow place hn_place)

/-! ### Wrapping -/

variable {read : List String}

lemma bindProxies_wrappedFunction (h : names.BindProxies n false) :
    names.BindProxies (names.wrappedFunction n) false := by
  unfold wrappedFunction
  split
  · exact bindProxies_wrap .function (some n) (by simpa using h)
  · exact h

lemma bindProxies_wrappedArgument (h : names.BindProxies n false) :
    names.BindProxies (names.wrappedArgument read n) false := by
  unfold wrappedArgument
  split
  · split
    · exact bindProxies_callMethod _ "get" false (by simp)
    · exact h
  · exact bindProxies_wrappedFunction h

/-- Once its children are wrapped, wrapping a node binds the name that it may declare. -/
lemma bindProxies_wrappedNode {inHead : Bool}
    (h : ∀ place (hplace : place < n.children.length),
      names.BindProxies n.children[place] (n.headSlot inHead place)) :
    names.BindProxies (names.wrappedNode read inHead n) inHead := by
  have hplain : (n.isDeclarator = true → inHead = false → names.BindsProxy n) →
      names.BindProxies n inHead := fun hn => declaratorsFit_iff.2 ⟨hn, h⟩
  cases n with
  | declarator id init =>
    cases id with
    | identifier name =>
      cases inHead with
      | true => exact hplain fun _ hfree => absurd hfree.symm Bool.false_ne_true
      | false =>
        have hvalue : ∀ n ∈ init, names.BindProxies n false := by
          rintro n rfl
          exact h 1 (by simp [Node.children])
        refine bindProxies_declarator (bindsProxy_wrap _ _ init) (bindProxies_identifier name false)
          ?_ false
        simpa using bindProxies_wrap (.ofValue init) init hvalue
    | _ =>
      refine hplain fun _ _ => ?_
      rintro name init heq
      cases heq
  | call callee arguments optional =>
    have hchildren : ∀ c ∈ callee :: arguments, names.BindProxies c false := by
      intro c hc
      obtain ⟨place, hplace, rfl⟩ := List.mem_iff_getElem.1 hc
      exact h place hplace
    obtain ⟨hcallee, harguments⟩ := List.forall_mem_cons.1 hchildren
    refine (bindProxies_iff (fun _ => rfl) rfl).2
      (List.forall_mem_cons.2 ⟨bindProxies_wrappedFunction hcallee, fun a ha => ?_⟩)
    obtain ⟨b, hb, rfl⟩ := List.mem_map.1 ha
    exact bindProxies_wrappedArgument (harguments b hb)
  | _ => exact hplain fun hd _ => absurd hd Bool.false_ne_true

lemma isDeclaration_wrapped (n : Node) (inHead : Bool) :
    (names.wrapped read n inHead).isDeclaration = n.isDeclaration := by
  rw [wrapped_eq, isDeclaration_eq_kind, kind_wrappedNode, kind_withChildren,
    isDeclaration_eq_kind]

/-- Wrapping binds declared names to proxies. -/
lemma bindProxies_wrapped (n : Node) (inHead : Bool) :
    names.BindProxies (names.wrapped read n inHead) inHead := by
  induction n using induction_on_children generalizing inHead with
  | step n ih =>
    rw [wrapped_eq]
    set cs := n.children.mapIdx fun place c => names.wrapped read c (n.headSlot inHead place)
      with hcs
    have hlength : cs.length = n.children.length := by simp [hcs]
    have hslot : ∀ place, (n.withChildren cs).headSlot inHead place = n.headSlot inHead place := by
      refine fun place => headSlot_withChildren (List.forall₂_iff_get.2 ⟨hlength.symm, ?_⟩) _ _
      intro place hplace hplace' _
      simp only [hcs, List.get_eq_getElem, List.getElem_mapIdx]
      exact isDeclaration_wrapped _ _
    refine bindProxies_wrappedNode fun place hplace => ?_
    simp only [hslot, children_withChildren n hlength]
    simp only [hcs, List.getElem_mapIdx]
    exact ih _ (List.getElem_mem _) _

end ProxyNames

end BindingProxy
