import BindingProxy.Proofs.Grammar.WellFormed
import BindingProxy.Proofs.Proxy.DeclaredNames

/-!
# Instrumented scripts are in normal form

The passes are put together.  Whatever script is read, all its bindings go through proxies after
instrumenting, and doing any of the last four passes once more changes nothing, even with the import
in front.
-/

namespace BindingProxy

namespace Node

/-- In a tree that was read, the head of a loop over a value declares one target. -/
lemma singleHead_of_fits {n : Node} (h : n.fits true = true) : n.SingleHead := by
  rintro iteration kind declarators right body rfl
  simp only [fits, Bool.and_eq_true] at h
  have hleft := h.1.1
  unfold isLoopTarget at hleft
  split at hleft
  · next id heq =>
    cases heq
    exact ⟨_, _, rfl⟩
  · cases hleft

end Node

namespace ProxyNames

open Node

variable {names : ProxyNames} {n : Node}

/-- In a tree that was read, declared functions have names. -/
lemma namesFunction_of_fits (h : n.fits true = true) : NamesFunction n := by
  rintro params body isAsync isGenerator rfl
  simp [fits] at h

/-- A tree that does not mention the namespace has no new proxy. -/
lemma proxyArguments?_eq_none (h : n.Everywhere fun m => m.name? ≠ some names.namespaceName) :
    n.Everywhere fun m => names.proxyArguments? m = none := by
  induction n using induction_on_children with
  | step n ih =>
    refine everywhere_iff.2 ⟨?_, fun c hc => ih c hc (h.child hc)⟩
    cases hproxy : names.proxyArguments? n with
    | none => rfl
    | some arguments =>
      obtain ⟨callee, rfl, hcallee⟩ := exists_of_proxyArguments? hproxy
      have hbelow := h.child List.mem_cons_self
      unfold isProxyCallee at hcallee
      split at hcallee
      · next owner key optional =>
        refine absurd ?_ (hbelow.child List.mem_cons_self).root
        simp only [isProxyType, Bool.and_eq_true, beq_iff_eq] at hcallee
        rw [← hcallee.1]
        rfl
      · cases hcallee

/-! ### Passes that change nothing -/

/-- A tree that the last four passes leave alone. -/
structure IsFixed (names : ProxyNames) (n : Node) : Prop where
  functions : names.hoistFunctions n = ⟨n, 0⟩
  writes : n.writeAssignments = ⟨n, 0⟩
  steps : n.writeUpdates = ⟨n, 0⟩
  arguments : names.readConstructorArguments n = ⟨n, 0⟩

lemma hoistNode_eq_pure {parent : Option NodeKind}
    (h : ∀ k, parent = some k → k.isStatementList = true → n.kind ≠ .functionDeclaration) :
    names.hoistNode parent n = pure n := by
  unfold hoistNode
  split
  · next k name params body isAsync isGenerator =>
    by_cases hk : k.isStatementList = true
    · exact absurd rfl (h k rfl hk)
    · simp only [hk]
      rfl
  · rfl

lemma writeNode_eq_pure (h : n.isWrite = false) : n.writeNode = pure n := by
  rcases writeNode_cases n with ⟨_, hpure⟩ | ⟨hwrite, _⟩
  · exact hpure
  · rw [h] at hwrite
    cases hwrite

lemma stepNode_eq_pure (h : n.isStep = false) : n.stepNode = pure n := by
  rcases stepNode_cases n with ⟨_, hpure⟩ | ⟨hstep, _⟩
  · exact hpure
  · rw [h] at hstep
    cases hstep

/-- A pass whose rule leaves alone the nodes with a property changes nothing in a tree all of whose
nodes have it. -/
lemma rebuildM_eq_pure_of_everywhere {P : Node → Prop} {f : Node → Counted Node}
    (hf : ∀ m, P m → f m = pure m) (hn : n.Everywhere P) :
    n.rebuildM (fun _ => f) none = pure n :=
  rebuildM_eq_pure (hf n hn.root) (hn.children.mono fun _ hm c hc => hf c (hm c hc))

/-- What is in normal form, whatever the declared names are bound to, stays as it is. -/
lemma isFixed_of_everywhere (hwrites : n.Everywhere fun m => m.isWrite = false)
    (hsteps : n.Everywhere fun m => m.isStep = false) (hfunctions : n.Everywhere DeclaresNoFunction)
    (harguments : n.Everywhere names.ReadsArguments) : names.IsFixed n where
  functions := by
    refine rebuildM_eq_pure (hoistNode_eq_pure (by simp)) fun m hm c hc => hoistNode_eq_pure ?_
    rintro k hparent hk
    cases hparent
    exact hfunctions m hm (NodeKind.isStatementList_iff.1 hk) c hc
  writes := rebuildM_eq_pure_of_everywhere (fun _ => writeNode_eq_pure) hwrites
  steps := rebuildM_eq_pure_of_everywhere (fun _ => stepNode_eq_pure) hsteps
  arguments := rebuildM_eq_pure_of_everywhere (fun _ => readNode_of_readsArguments) harguments

/-- The import of the namespace has every property that its few nodes have. -/
lemma everywhere_clientImport {P : Node → Prop} (haccess : OfAccess P)
    (hdeclaration : ∀ kind declarators, P (.declaration kind declarators))
    (hdeclarator : ∀ id callee arguments optional,
      P (.declarator id (some (.call callee arguments optional)))) :
    names.clientImport.Everywhere P := by
  have hliteral : ∀ raw, (Node.literal .string raw).Everywhere P :=
    fun raw => everywhere_iff.2 ⟨haccess _ (by simp [Node.kind]), by simp [Node.children]⟩
  have hcall : (Node.call (.identifier "require") [.literal .string (quoted names.clientModule)]
      false).Everywhere P :=
    everywhere_iff.2 ⟨haccess _ (by simp [Node.kind]), List.forall_mem_cons.2
      ⟨everywhere_identifier haccess _, List.forall_mem_singleton.2 (hliteral _)⟩⟩
  have hbinding : (Node.declarator (.identifier names.namespaceName) (some (.call
      (.identifier "require") [.literal .string (quoted names.clientModule)] false))).Everywhere P :=
    everywhere_iff.2 ⟨hdeclarator _ _ _ _, List.forall_mem_cons.2
      ⟨everywhere_identifier haccess _, List.forall_mem_singleton.2 hcall⟩⟩
  exact everywhere_iff.2 ⟨hdeclaration _ _, List.forall_mem_singleton.2 hbinding⟩

/-- A program in front of which the namespace is imported. -/
lemma everywhere_import {P : Node → Prop} (himport : names.clientImport.Everywhere P)
    {body : List Node} (hbody : (Node.program body).Everywhere P)
    (hroot : P (.program (names.clientImport :: body))) :
    (Node.program (names.clientImport :: body)).Everywhere P :=
  everywhere_iff.2 ⟨hroot, List.forall_mem_cons.2 ⟨himport, (everywhere_iff.1 hbody).2⟩⟩

/-- A program in normal form stays as it is, also with the namespace imported. -/
lemma IsNormal.isFixed {body : List Node} (h : names.IsNormal (.program body)) :
    names.IsFixed (.program body) ∧ names.IsFixed (.program (names.clientImport :: body)) := by
  refine ⟨isFixed_of_everywhere h.writes h.steps h.functions h.arguments, ?_⟩
  refine isFixed_of_everywhere (everywhere_import ?_ h.writes rfl)
    (everywhere_import ?_ h.steps rfl) (everywhere_import ?_ h.functions ?_)
    (everywhere_import ?_ h.arguments ?_)
  · exact everywhere_clientImport ofAccess_isWrite (fun _ _ => rfl) fun _ _ _ _ => rfl
  · exact everywhere_clientImport ofAccess_isStep (fun _ _ => rfl) fun _ _ _ _ => rfl
  · have hstable : names.Stable DeclaresNoFunction := stable_declaresNoFunction
    refine everywhere_clientImport hstable.access ?_ ?_
    · intro kind declarators hlist
      simp [Node.kind] at hlist
    · intro id callee arguments optional hlist
      simp [Node.kind] at hlist
  · intro hlist
    refine List.forall_mem_cons.2 ⟨by simp [clientImport, declare, Node.kind], ?_⟩
    exact h.functions.root (by simp [Node.kind])
  · refine everywhere_clientImport ofAccess_readsArguments ?_ ?_
    · exact fun _ _ => readsArguments_of_not_declarator rfl
    · intro id callee arguments optional id' value found heq hfound
      cases heq
      cases hfound
  · exact readsArguments_of_not_declarator rfl

/-! ### All passes together -/

variable {o : Options}

/-- Wrapping keeps the looks of every tree. -/
lemma alike_wrapAll (readArguments : Bool) (parent : Option NodeKind) (n : Node) :
    names.Alike parent n (names.wrapAll readArguments n).1 :=
  names.wrap_induction (P := fun n m => ∀ parent, names.Alike parent n m) _
    (fun _ _ inHead hcs parent => .of_wrapped parent inHead (hcs.imp fun _ _ h => h _)) n _ parent

/-- A property that wrapping brings about and that is stable holds in the end. -/
lemma everywhere_proxied {P : Node → Prop} (hP : o.names.Stable P)
    (h : (o.names.hoistFunctions (o.names.wrapAll o.readArguments n).1).value.Everywhere P) :
    (o.proxied n).Everywhere P :=
  hP.everywhere_rebuild o.names.change_readNode none (hP.everywhere_rebuild o.names.change_stepNode none
    (hP.everywhere_rebuild o.names.change_writeNode none h))

/-- A program stays a program. -/
lemma exists_proxied_eq_program (body : List Node) :
    ∃ body', o.proxied (.program body) = .program body' := by
  apply exists_eq_program
  have hkeep : ∀ {n m : Node}, o.names.Alike none n m → n.kind = .program → m.kind = .program :=
    fun h => (h.kind.eq_iff (by decide)).2
  exact hkeep (alike_rebuild o.names.change_readNode none _) (hkeep (alike_rebuild o.names.change_stepNode none _)
    (hkeep (alike_rebuild o.names.change_writeNode none _) (hkeep (alike_rebuild o.names.change_hoistNode none _)
      (hkeep (alike_wrapAll _ none _) rfl))))

/-- The passes bring a tree that was read into normal form. -/
lemma isNormal_proxied (h : n.Tidy) : o.names.IsNormal (o.proxied n) where
  writes := by
    have hstable : o.names.Stable fun m => m.isWrite = false := stable_isWrite
    exact hstable.everywhere_rebuild o.names.change_readNode none
      (hstable.everywhere_rebuild o.names.change_stepNode none (everywhere_writeAssignments _))
  steps := by
    have hstable : o.names.Stable fun m => m.isStep = false := stable_isStep
    exact hstable.everywhere_rebuild o.names.change_readNode none (everywhere_writeUpdates _)
  functions := by
    refine everywhere_proxied stable_declaresNoFunction (everywhere_hoistFunctions ?_)
    exact everywhere_namesFunction_wrapTree (h.mono fun _ => namesFunction_of_fits) _
  declarators := by
    have hbind : o.names.BindProxies
        (o.names.wrapped (if o.readArguments then n.variableNames else []) n false) false :=
      bindProxies_wrapped n false
    rw [← wrapAll_eq_wrapped (h.mono fun _ => singleHead_of_fits)] at hbind
    exact bindProxies_rebuild o.names.change_readNode none (bindProxies_rebuild o.names.change_stepNode none
      (bindProxies_rebuild o.names.change_writeNode none (bindProxies_rebuild o.names.change_hoistNode none hbind)))
  arguments := everywhere_readConstructorArguments _

/-- In a tree without the namespace, the passes put no new proxy around another one. -/
lemma notNested_proxied (h : n.Everywhere fun m => m.name? ≠ some o.names.namespaceName) :
    (o.proxied n).Everywhere o.names.NotNested :=
  everywhere_proxied stable_notNested (stable_notNested.everywhere_rebuild o.names.change_hoistNode none
    (everywhere_notNested_wrapTree (proxyArguments?_eq_none h) _))

end ProxyNames

/-- A script that was read is in normal form after instrumenting, the import in front of it apart.
New proxies are nested only if the script itself mentions the namespace.  The passes change nothing
in the whole result. -/
theorem isNormal_instrumentTree {text : String} {n : Node} (h : parse text = .ok n) (o : Options) :
    ∃ body, (o.instrumentTree n).1 =
        .program (if o.importClient then o.names.clientImport :: body else body) ∧
      o.names.IsNormal (.program body) ∧
      ((n.Everywhere fun m => m.name? ≠ some o.names.namespaceName) →
        (Node.program body).Everywhere o.names.NotNested) ∧
      o.names.IsFixed (o.instrumentTree n).1 := by
  obtain ⟨⟨statements, rfl⟩, htidy⟩ := tidy_of_parse h
  obtain ⟨body, hbody⟩ := ProxyNames.exists_proxied_eq_program (o := o) statements
  have hnormal := ProxyNames.isNormal_proxied (o := o) htidy
  have hnested := ProxyNames.notNested_proxied (o := o) (n := .program statements)
  rw [hbody] at hnormal hnested
  have htree : (o.instrumentTree (.program statements)).1 =
      .program (if o.importClient then o.names.clientImport :: body else body) := by
    rw [o.fst_instrumentTree, hbody]
    cases o.importClient <;> rfl
  refine ⟨body, htree, hnormal, hnested, ?_⟩
  rw [htree]
  cases o.importClient with
  | false => exact hnormal.isFixed.1
  | true => exact hnormal.isFixed.2

/-- A script with every kind of binding, in which the namespace is imported. -/
theorem isNormal_instrumentTree_script :
    ∃ n, parse "let x = f; x = 1; x++; function f(a) \x7b a += 2 \x7d for (const y of x) f(y)" =
        .ok n ∧
      (n.Everywhere fun m => m.name? ≠ some ({} : ProxyNames).namespaceName) ∧
      ∃ body, (({ importClient := true } : Options).instrumentTree n).1 =
          .program (({} : ProxyNames).clientImport :: body) ∧
        ({} : ProxyNames).IsNormal (.program body) ∧
        (Node.program body).Everywhere ({} : ProxyNames).NotNested ∧
        ({} : ProxyNames).IsFixed (({ importClient := true } : Options).instrumentTree n).1 := by
  obtain ⟨n, hparse, hcheck⟩ := exists_of_parse_any
    (show (parse "let x = f; x = 1; x++; function f(a) \x7b a += 2 \x7d for (const y of x) f(y)")
      |>.toOption.any (fun n => n.walk.all fun m => m.name? != some ({} : ProxyNames).namespaceName)
      by rw [parse_ofList]; decide +kernel)
  have hfree : n.Everywhere fun m => m.name? ≠ some ({} : ProxyNames).namespaceName := by
    simpa [Node.Everywhere] using hcheck
  obtain ⟨body, htree, hnormal, hnested, hfixed⟩ :=
    isNormal_instrumentTree hparse { importClient := true }
  exact ⟨n, hparse, hfree, body, htree, hnormal, hnested hfree, hfixed⟩

end BindingProxy
