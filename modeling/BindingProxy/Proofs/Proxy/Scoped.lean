import BindingProxy.Proofs.Grammar.Genuine
import BindingProxy.Proofs.Grammar.WellFormed
import BindingProxy.Proofs.Proxy.Change
import BindingProxy.Proofs.Proxy.Leaves
import BindingProxy.Proofs.Proxy.NormalForm
import BindingProxy.Proofs.Tree.Congruent

/-!
# Scopes and leads in instrumented scripts

The changes put new nodes around pieces of a script and move functions into proxies, but every
function keeps its parameters and its body, so a `yield` or an `await` stays in the scope in which it
was read.  Nor do they change what an expression begins with: a write through a proxy begins with the
name that is written.  And a statement that would take an `else` after it stays one, while no other
becomes one.  `Placed` states this of one node and its scope, as far as the expressions are concerned
whose code comes first in a statement or after a word; every change keeps it.
-/

namespace BindingProxy

namespace Node

/-- A name that was read, the word `new` or a literal that was read. -/
inductive IsLead : Node → Prop where
  | name {w : String} (h : IsName w) : IsLead (identifier w)
  | new : IsLead (identifier "new")
  | literal {kind : LiteralKind} {raw : String} (h : IsSpelling kind raw) : IsLead (literal kind raw)

/-- An expression that is led by something that was read, or by neither a name nor a literal. -/
def WellLed (e : Node) : Prop := ∀ leaf, e.lead? = some leaf → IsLead leaf

/-- What the changes keep of a node and its scope. -/
def Placed (s : Scope) : Node → Prop
  | yielding argument _ => s.inGenerator = true ∧ ∀ e ∈ argument, e.WellLed
  | awaiting argument => s.inAsync = true ∧ argument.WellLed
  | expressionStatement e => e.WellLed
  | arrow params body _ _ => body.WellLed ∧ ∀ w, params = [identifier w] → BeginsName w
  | conditionalStatement test consequent alternate =>
    KeepsElse (conditionalStatement test consequent alternate)
  | _ => True

/-- What is known of operators by their kind. -/
lemma Placed.of_kind {s : Scope} {m : Node} (h : Placed s m) :
    (m.kind = .yielding → s.inGenerator = true) ∧ (m.kind = .awaiting → s.inAsync = true) := by
  cases m with
  | yielding => exact ⟨fun _ => h.1, by rintro ⟨⟩⟩
  | awaiting => exact ⟨by rintro ⟨⟩, fun _ => h.1⟩
  | function role => cases role <;> exact ⟨by rintro ⟨⟩, by rintro ⟨⟩⟩
  | classDefinition role => cases role <;> exact ⟨by rintro ⟨⟩, by rintro ⟨⟩⟩
  | forEach iteration => cases iteration <;> exact ⟨by rintro ⟨⟩, by rintro ⟨⟩⟩
  | jump jump => cases jump <;> exact ⟨by rintro ⟨⟩, by rintro ⟨⟩⟩
  | _ => exact ⟨by rintro ⟨⟩, by rintro ⟨⟩⟩

/-- What leads a genuine expression was read. -/
lemma Headed.wellLed {s : Scope} {e : Node} (h : e.Headed) (he : GenuineIn s e) : e.WellLed := by
  intro leaf hlead
  rcases eq_or_eq_of_lead? hlead with ⟨w, rfl⟩ | ⟨kind, raw, rfl⟩
  · rcases h w hlead with rfl | ⟨hname, _⟩
    · exact .new
    · exact .name hname
  · have hliterals : Everywhere (fun m => ∀ kind raw, m = literal kind raw → IsSpelling kind raw) e := by
      refine (he.mono ?_).everywhere
      rintro s m hm kind raw rfl
      exact hm
    exact .literal (hliterals _ (mem_walk_of_lead? hlead) kind raw rfl)

/-- A genuine tree is well placed. -/
lemma GenuineIn.placed {s : Scope} {n : Node} (h : GenuineIn s n) : EverywhereIn Placed s n := by
  induction n using induction_on_children generalizing s with
  | step n ih =>
    obtain ⟨hroot, hbelow⟩ := everywhereIn_iff.1 h
    refine everywhereIn_iff.2 ⟨?_, fun p hp => ih p.2 (List.of_mem_zip hp).2 (hbelow p hp)⟩
    cases n with
    | expressionStatement e =>
      exact Headed.wellLed hroot (hbelow (s, e) (by simp [scopedChildren, childScopes, children]))
    | arrow params body concise isAsync =>
      refine ⟨Headed.wellLed hroot (hbelow _ (mem_scopedChildren_arrow.2 (.inr rfl))), ?_⟩
      rintro w rfl
      have hparam : GenuineIn s (identifier w) :=
        hbelow (s, identifier w) (mem_scopedChildren_arrow.2 (.inl ⟨rfl, List.mem_singleton_self _⟩))
      exact hparam.root
    | yielding argument delegate =>
      refine ⟨hroot.1, fun e he => (hroot.2 e he).wellLed (s := s) (hbelow (s, e) ?_)⟩
      cases he
      simp [scopedChildren, childScopes, children]
    | awaiting argument =>
      refine ⟨hroot.1, hroot.2.wellLed (s := s) (hbelow (s, argument) ?_)⟩
      simp [scopedChildren, childScopes, children]
    | conditionalStatement => exact hroot
    | _ => trivial

/-- What a change keeps of a tree: what leads it, whether it would take an `else`, and where
everything in it stands. -/
structure KeepsPlaces (n m : Node) : Prop where
  alike : LeadAlike n m
  ends : m.endsOpen = n.endsOpen
  placed (s : Scope) : EverywhereIn Placed s n → EverywhereIn Placed s m

namespace KeepsPlaces

variable {n m : Node}

lemma refl (n : Node) : KeepsPlaces n n := ⟨⟨rfl, rfl⟩, rfl, fun _ h => h⟩

lemma trans {k : Node} (h : KeepsPlaces n m) (h' : KeepsPlaces m k) : KeepsPlaces n k where
  alike := ⟨h'.alike.lead.trans h.alike.lead, h'.alike.name.trans h.alike.name⟩
  ends := h'.ends.trans h.ends
  placed s hn := h'.placed s (h.placed s hn)

lemma wellLed (h : KeepsPlaces n m) (hn : n.WellLed) : m.WellLed := fun leaf hleaf =>
  hn leaf (h.alike.lead.symm.trans hleaf)

/-- Nodes that open no scope and have no rule of their own. -/
lemma of_children (hlead : LeadAlike n m) (hends : m.endsOpen = n.endsOpen)
    (hn : n.opensScope = false) (hm : m.opensScope = false) (hplaced : ∀ s, Placed s m)
    (h : ∀ s, (∀ c ∈ n.children, EverywhereIn Placed s c) → ∀ c ∈ m.children, EverywhereIn Placed s c) :
    KeepsPlaces n m where
  alike := hlead
  ends := hends
  placed s hs := .node hm (hplaced s) (h s ((everywhereIn_iff_of_not_opensScope hn).1 hs).2)

end KeepsPlaces

/-- A node stays placed if its children keep what leads them. -/
lemma Congruent.placed {s : Scope} {n m : Node} (h : Congruent KeepsPlaces n m)
    (hn : Placed s n) : Placed s m := by
  cases h with
  | expressionStatement hexpression => exact hexpression.wellLed hn
  | arrow hparams hbody =>
    refine ⟨hbody.wellLed hn.1, fun w hw => hn.2 w ?_⟩
    subst hw
    obtain ⟨param, rest, hparam, hrest, rfl⟩ := List.forall₂_cons_right_iff.1 hparams
    obtain rfl := List.forall₂_nil_right_iff.1 hrest
    rw [eq_identifier_of_name? hparam.alike.name.symm]
  | yielding hargument =>
    refine ⟨hn.1, fun e he => ?_⟩
    cases hargument with
    | none => cases he
    | some hargument =>
      cases he
      exact hargument.wellLed (hn.2 _ rfl)
  | awaiting hargument => exact ⟨hn.1, hargument.wellLed hn.2⟩
  | conditionalStatement _ hconsequent halternate =>
    cases halternate with
    | none => trivial
    | some => exact hconsequent.ends.trans hn
  | _ => trivial

/-- A node would take an `else` as before if its children would. -/
lemma Congruent.endsOpen {n m : Node} (h : Congruent KeepsPlaces n m) : m.endsOpen = n.endsOpen := by
  cases h with
  | conditionalStatement _ _ halternate =>
    cases halternate with
    | none => rfl
    | some halternate => exact halternate.ends
  | whileLoop _ hbody | forLoop _ _ _ hbody | forEach _ _ hbody | labeled hbody => exact hbody.ends
  | _ => rfl

lemma keepsPlaces_withChildren {n : Node} {cs : List Node}
    (h : List.Forall₂ KeepsPlaces n.children cs) : KeepsPlaces n (n.withChildren cs) where
  alike := leadAlike_withChildren (h.imp fun _ _ hcd => hcd.alike)
  ends := (congruent_withChildren h).endsOpen
  placed _ hn := everywhereIn_withChildren (congruent_withChildren h).placed
    (h.imp fun _ _ hcd s => hcd.placed s) hn

/-! ### Fragments -/

section Fragments

variable {s : Scope}

lemma placedIn_identifier (s : Scope) (name : String) : EverywhereIn Placed s (identifier name) :=
  .node rfl trivial (by simp [children])

lemma placedIn_literal (s : Scope) (kind : LiteralKind) (raw : String) :
    EverywhereIn Placed s (literal kind raw) :=
  .node rfl trivial (by simp [children])

lemma placedIn_dot (s : Scope) (owner key : String) :
    EverywhereIn Placed s (dot (identifier owner) key) :=
  .node rfl trivial (by simp [dot, children, placedIn_identifier])

lemma placedIn_callMethod (name method : String) {arguments : List Node}
    (h : ∀ a ∈ arguments, EverywhereIn Placed s a) :
    EverywhereIn Placed s (callMethod (identifier name) method arguments) :=
  .node rfl trivial (List.forall_mem_cons.2 ⟨placedIn_dot s name method, h⟩)

lemma placedIn_updateProxy (name : String) (operator : BinaryOperator) {value : Node}
    (h : EverywhereIn Placed s value) :
    EverywhereIn Placed s (updateProxy name operator value) := by
  have hread : EverywhereIn Placed s (readProxy name) := placedIn_callMethod name "get" (by simp)
  refine placedIn_callMethod name "set" (List.forall_mem_singleton.2 ?_)
  exact .node rfl trivial (by simp [children, hread, h])

lemma placedIn_wrap (names : ProxyNames) (type : ProxyType) {value : Option Node}
    (h : ∀ n ∈ value, EverywhereIn Placed s n) : EverywhereIn Placed s (names.wrap type value) := by
  refine .node rfl trivial (List.forall_mem_cons.2 ⟨placedIn_dot s _ _, fun n hn => ?_⟩)
  exact h n (Option.mem_toList.1 hn)

/-- What a name is bound to stands in the same scope. -/
lemma placedIn_declarator {id : Node} {init : Option Node} (hid : EverywhereIn Placed s id)
    (hinit : ∀ n ∈ init, EverywhereIn Placed s n) : EverywhereIn Placed s (declarator id init) := by
  refine .node rfl trivial (List.forall_mem_cons.2 ⟨hid, fun n hn => ?_⟩)
  exact hinit n (Option.mem_toList.1 hn)

end Fragments

end Node

namespace ProxyNames

open Node

variable {names : ProxyNames}

/-! ### Wrapping -/

/-- Neither a function nor its proxy begins with a name or a literal. -/
lemma lead?_wrappedFunction (names : ProxyNames) (n : Node) :
    (names.wrappedFunction n).lead? = n.lead? := by
  unfold wrappedFunction
  split
  · next hfunction =>
    cases n with
    | function => rfl
    | arrow => rfl
    | _ => cases hfunction
  · rfl

lemma placedIn_wrappedFunction (names : ProxyNames) {s : Scope} {n : Node}
    (h : EverywhereIn Placed s n) : EverywhereIn Placed s (names.wrappedFunction n) := by
  unfold wrappedFunction
  split
  · exact placedIn_wrap names .function (by simpa using h)
  · exact h

lemma placedIn_wrappedArgument (names : ProxyNames) (read : List String) {s : Scope} {n : Node}
    (h : EverywhereIn Placed s n) : EverywhereIn Placed s (names.wrappedArgument read n) := by
  cases n with
  | identifier name =>
    simp only [wrappedArgument]
    split
    · exact placedIn_callMethod name "get" (by simp)
    · exact h
  | _ => exact placedIn_wrappedFunction names h

lemma keepsPlaces_wrappedNode (names : ProxyNames) (read : List String) (inHead : Bool) (n : Node) :
    KeepsPlaces n (names.wrappedNode read inHead n) := by
  unfold wrappedNode
  split
  · next name init =>
    refine .of_children ⟨rfl, rfl⟩ rfl rfl rfl (fun _ => trivial) fun s hbelow => ?_
    obtain ⟨hid, hinit⟩ := List.forall_mem_cons.1 hbelow
    have hinit : ∀ n ∈ init, EverywhereIn Placed s n := fun n hn => hinit n (Option.mem_toList.2 hn)
    refine List.forall_mem_cons.2 ⟨hid, fun n hn => ?_⟩
    cases inHead with
    | true => exact hinit n (Option.mem_toList.1 hn)
    | false =>
      rw [List.mem_singleton.1 hn]
      exact placedIn_wrap names _ hinit
  · next callee arguments optional =>
    refine .of_children ⟨?_, rfl⟩ rfl rfl rfl (fun _ => trivial) fun s hbelow => ?_
    · exact lead?_wrappedFunction names callee
    · obtain ⟨hcallee, harguments⟩ := List.forall_mem_cons.1 hbelow
      refine List.forall_mem_cons.2 ⟨placedIn_wrappedFunction names hcallee, fun a ha => ?_⟩
      obtain ⟨b, hb, rfl⟩ := List.mem_map.1 ha
      exact placedIn_wrappedArgument names read (harguments b hb)
  · exact .refl _

lemma keepsPlaces_wrapAll (names : ProxyNames) (readArguments : Bool) (n : Node) :
    KeepsPlaces n (names.wrapAll readArguments n).1 := by
  refine names.wrap_induction (P := KeepsPlaces) _ (fun n cs inHead hcs => ?_) n {}
  exact (keepsPlaces_withChildren hcs).trans (keepsPlaces_wrappedNode names _ inHead _)

/-! ### The other changes -/

lemma placedIn_readArgument {s : Scope} {n : Node} (h : EverywhereIn Placed s n) :
    EverywhereIn Placed s (readArgument n) := by
  unfold readArgument readName
  split
  · exact placedIn_callMethod _ "get" (by simp)
  · exact h

/-- A function that is bound to a proxy keeps its scope. -/
lemma keepsPlaces_hoist (names : ProxyNames) (name : String) (params : List Node) (body : Node)
    (isAsync isGenerator : Bool) :
    KeepsPlaces (.function .declaration (some name) params body isAsync isGenerator)
      (names.bind name .function (.function .expression (some name) params body isAsync isGenerator)) where
  alike := ⟨rfl, rfl⟩
  ends := rfl
  placed s h := by
    obtain ⟨_, hbelow⟩ := everywhereIn_function_iff.1 h
    have hvalue : EverywhereIn Placed s
        (.function .expression (some name) params body isAsync isGenerator) :=
      everywhereIn_function_iff.2 ⟨trivial, hbelow⟩
    have hproxy : EverywhereIn Placed s (names.wrap .function
        (some (.function .expression (some name) params body isAsync isGenerator))) :=
      placedIn_wrap names .function (by simpa using hvalue)
    refine .node rfl trivial (List.forall_mem_singleton.2 ?_)
    exact placedIn_declarator (placedIn_identifier s name) (by simpa using hproxy)

/-- Every change keeps what leads a tree, and where everything in it stands. -/
lemma Change.keepsPlaces {parent : Option NodeKind} {n m : Node} (h : names.Change parent n m) :
    KeepsPlaces n m := by
  cases h with
  | same => exact .refl n
  | hoist name params body isAsync isGenerator =>
    exact keepsPlaces_hoist names name params body isAsync isGenerator
  | write name value =>
    refine .of_children ⟨rfl, rfl⟩ rfl rfl rfl (fun _ => trivial) fun s hbelow => ?_
    have hvalue := hbelow value (by simp [children])
    exact List.forall_mem_cons.2 ⟨placedIn_dot s name "set", List.forall_mem_singleton.2 hvalue⟩
  | compute operator arithmetic name kind raw =>
    refine ⟨⟨rfl, rfl⟩, rfl, fun s _ => ?_⟩
    exact placedIn_updateProxy name arithmetic (placedIn_literal s kind raw)
  | step operator leading name =>
    refine ⟨⟨?_, rfl⟩, rfl, fun s _ => ?_⟩
    · cases leading <;> rfl
    · exact placedIn_updateProxy name operator.delta (placedIn_literal s .number "1")
  | read id callee arguments =>
    refine .of_children ⟨rfl, rfl⟩ rfl rfl rfl (fun _ => trivial) fun s hbelow => ?_
    obtain ⟨hid, hproxy⟩ := List.forall_mem_cons.1 hbelow
    have hparts := ((everywhereIn_iff_of_not_opensScope rfl).1 (List.forall_mem_singleton.1 hproxy)).2
    obtain ⟨hcallee, harguments⟩ := List.forall_mem_cons.1 hparts
    refine List.forall_mem_cons.2 ⟨hid, List.forall_mem_singleton.2 (.node rfl trivial ?_)⟩
    refine List.forall_mem_cons.2 ⟨hcallee, fun a ha => ?_⟩
    obtain ⟨b, hb, rfl⟩ := List.mem_map.1 ha
    exact placedIn_readArgument (harguments b hb)

lemma keepsPlaces_rebuild {f : Option NodeKind → Node → Counted Node} (hf : names.Changes f)
    (n : Node) : KeepsPlaces n (rebuildM f none n).value := by
  refine rebuild_induction (P := fun _ => KeepsPlaces) (fun parent n cs hcs => ?_) none n
  exact (keepsPlaces_withChildren hcs).trans (hf parent _).keepsPlaces

lemma keepsPlaces_proxied (o : Options) (n : Node) : KeepsPlaces n (o.proxied n) :=
  (keepsPlaces_wrapAll o.names o.readArguments n).trans
    ((keepsPlaces_rebuild o.names.change_hoistNode _).trans
      ((keepsPlaces_rebuild o.names.change_writeNode _).trans
        ((keepsPlaces_rebuild o.names.change_stepNode _).trans
          (keepsPlaces_rebuild o.names.change_readNode _))))

end ProxyNames

open Node ProxyNames

/-- Instrumenting keeps where everything in a tree stands. -/
lemma placedIn_instrumentTree (o : Options) {s : Scope} {n : Node} (h : EverywhereIn Placed s n) :
    EverywhereIn Placed s (o.instrumentTree n).1 := by
  have hproxied := (keepsPlaces_proxied o n).placed s h
  rw [o.fst_instrumentTree]
  by_cases himport : o.importClient = true
  · rw [if_pos himport]
    unfold importInto?
    split
    · next body hbody =>
      -- The import is one more declaration in front of the statements.
      rw [hbody] at hproxied
      have hbelow := ((everywhereIn_iff_of_not_opensScope rfl).1 hproxied).2
      refine .node rfl trivial (List.forall_mem_cons.2 ⟨?_, hbelow⟩)
      refine .node rfl trivial (List.forall_mem_singleton.2 ?_)
      refine placedIn_declarator (placedIn_identifier s _) fun n hn => ?_
      cases hn
      exact .node rfl trivial (by simp [children, placedIn_identifier, placedIn_literal])
    · exact hproxied
  · rw [if_neg himport]
    exact hproxied

/-- A script and what instrumenting makes of it. -/
def Options.versions (o : Options) (n : Node) : List Node := [n, (o.instrumentTree n).1]

/-- Everything in a script, as it is read and as it is instrumented, stands where it should. -/
lemma placedIn_versions {text : String} {n : Node} (h : parse text = .ok n) (o : Options) :
    ∀ tree ∈ o.versions n, EverywhereIn Placed {} tree := by
  have hn : EverywhereIn Placed {} n := (genuineIn_of_parse h).placed
  exact List.forall_mem_cons.2 ⟨hn, List.forall_mem_singleton.2 (placedIn_instrumentTree o hn)⟩

/-- The words `yield` and `await` are operators only in functions that have them: in every script
that is read, and after it is instrumented, a `yield` stands in the scope of a generator and an
`await` in that of an async function. -/
theorem operators_in_scope {text : String} {n : Node} (h : parse text = .ok n) (o : Options)
    {tree : Node} (htree : tree ∈ o.versions n) {s : Scope} {m : Node} (hm : (s, m) ∈ tree.walkIn {}) :
    (m.kind = .yielding → s.inGenerator = true) ∧ (m.kind = .awaiting → s.inAsync = true) := by
  have hplaced : Placed s m := placedIn_versions h o tree htree (s, m) hm
  exact hplaced.of_kind

/-- A script in which both words are operators here and names there: the arrow function `g` is neither
async nor a generator, but its parameters stand in the scope around it. -/
def operatorScript : String :=
  "async function* f(a = yield) \x7b let g = (b = await a) => yield + b; c = yield g; \x7d await = f;"

theorem operators_in_scope_script :
    ∃ n, parse operatorScript = .ok n ∧ ∃ s m s' m',
      (s, m) ∈ (({} : Options).instrumentTree n).1.walkIn {} ∧ m.kind = .yielding ∧
        s.inGenerator = true ∧
      (s', m') ∈ (({} : Options).instrumentTree n).1.walkIn {} ∧ m'.kind = .awaiting ∧
        s'.inAsync = true := by
  obtain ⟨n, hparse, hcheck⟩ := exists_of_parse_any
    (show (parse operatorScript).toOption.any (fun n => [NodeKind.yielding, .awaiting].all fun k =>
      ((({} : Options).instrumentTree n).1.walkIn {}).any fun p => p.2.kind == k) = true by
        rw [show parse operatorScript = _ from parse_ofList _]
        decide +kernel)
  simp only [List.all_cons, List.all_nil, Bool.and_true, Bool.and_eq_true, List.any_eq_true,
    beq_iff_eq] at hcheck
  obtain ⟨⟨p, hp, hyield⟩, p', hp', hawait⟩ := hcheck
  have htree : (({} : Options).instrumentTree n).1 ∈ ({} : Options).versions n := by
    simp [Options.versions]
  exact ⟨n, hparse, p.1, p.2, p'.1, p'.2, hp, hyield, (operators_in_scope hparse {} htree hp).1 hyield,
    hp', hawait, (operators_in_scope hparse {} htree hp').2 hawait⟩

end BindingProxy
