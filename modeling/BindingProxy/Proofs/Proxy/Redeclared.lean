import BindingProxy.Proofs.Proxy.Gathered
import BindingProxy.Proofs.Proxy.Instrumented
import BindingProxy.Proofs.Tree.Congruent
import Mathlib.Data.List.Nodup

/-!
# Names that are declared twice

A list of statements may declare a name as often as it likes by `var` and by functions, but only once
by `let`, `const` or `class`, and then by nothing else.  Instrumenting turns the functions that are
declared in a list into constants of the same list, so functions have to meet the stricter rule
afterwards.

A `Binding` is a name together with the way in which it is declared, and `scopes` collects the
bindings of every list of statements in a tree.  Up to the one change from function to constant,
`Binding.hoisted`, no pass adds, drops or moves a binding.  It follows which scripts are left with a
conflict that they did not have before: those that declare a function twice in one list, or a
function and a variable of one name.
-/

namespace BindingProxy

/-- The ways to declare a name: lexically by `let`, `const` or `class`, by `var`, or as a
function. -/
inductive BindingForm where
  | lexical | functionScoped | function
deriving Repr, DecidableEq, Inhabited

/-- A declared name and the way in which it is declared. -/
structure Binding where
  form : BindingForm
  name : String
deriving Repr, DecidableEq, Inhabited

/-! ### Conflicts -/

namespace Binding

/-- The names that are declared in one of the ways. -/
def namesOf (form : BindingForm) (bs : List Binding) : List String :=
  (bs.filter (·.form == form)).map name

/-- No name is declared lexically twice, or lexically and in another way. -/
structure ConflictFree (bs : List Binding) : Prop where
  nodup : (namesOf .lexical bs).Nodup
  disjoint_functionScoped : (namesOf .lexical bs).Disjoint (namesOf .functionScoped bs)
  disjoint_function : (namesOf .lexical bs).Disjoint (namesOf .function bs)

lemma conflictFree_iff {bs : List Binding} :
    ConflictFree bs ↔ (namesOf .lexical bs).Nodup ∧
      (namesOf .lexical bs).Disjoint (namesOf .functionScoped bs) ∧
        (namesOf .lexical bs).Disjoint (namesOf .function bs) :=
  ⟨fun h => ⟨h.nodup, h.disjoint_functionScoped, h.disjoint_function⟩, fun h => ⟨h.1, h.2.1, h.2.2⟩⟩

instance : DecidablePred ConflictFree :=
  fun bs => decidable_of_iff ((namesOf .lexical bs).Nodup ∧
    (∀ name ∈ namesOf .lexical bs, name ∉ namesOf .functionScoped bs) ∧
      ∀ name ∈ namesOf .lexical bs, name ∉ namesOf .function bs) conflictFree_iff.symm

/-- A binding after instrumenting: a function is bound to a constant. -/
def hoisted : Binding → Binding
  | ⟨.function, name⟩ => ⟨.lexical, name⟩
  | b => b

lemma hoisted_of_form_ne {b : Binding} (h : b.form ≠ .function) : b.hoisted = b := by
  obtain ⟨form, name⟩ := b
  cases form with
  | function => exact absurd rfl h
  | _ => rfl

/-- The names of functions join those that are declared lexically. -/
lemma namesOf_lexical_hoisted (bs : List Binding) :
    (namesOf .lexical (bs.map hoisted)).Perm (namesOf .lexical bs ++ namesOf .function bs) := by
  induction bs with
  | nil => exact .nil
  | cons b bs ih =>
    obtain ⟨form, name⟩ := b
    cases form with
    | lexical => exact ih.cons name
    | functionScoped => exact ih
    | function => exact (ih.cons name).trans List.perm_middle.symm

lemma namesOf_functionScoped_hoisted (bs : List Binding) :
    namesOf .functionScoped (bs.map hoisted) = namesOf .functionScoped bs := by
  induction bs with
  | nil => rfl
  | cons b bs ih =>
    obtain ⟨form, name⟩ := b
    cases form with
    | functionScoped => exact congrArg (name :: ·) ih
    | _ => exact ih

lemma namesOf_function_hoisted (bs : List Binding) : namesOf .function (bs.map hoisted) = [] := by
  induction bs with
  | nil => rfl
  | cons b bs ih =>
    obtain ⟨form, name⟩ := b
    cases form <;> exact ih

/-- Turning functions into constants makes a conflict exactly where a function is declared twice or
along with a variable of its name. -/
lemma conflictFree_hoisted_iff {bs : List Binding} (h : ConflictFree bs) :
    ConflictFree (bs.map hoisted) ↔
      (namesOf .function bs).Nodup ∧ (namesOf .function bs).Disjoint (namesOf .functionScoped bs) := by
  have hperm := namesOf_lexical_hoisted bs
  have hscoped : (namesOf .lexical (bs.map hoisted)).Disjoint (namesOf .functionScoped bs) ↔
      (namesOf .function bs).Disjoint (namesOf .functionScoped bs) := by
    rw [hperm.disjoint_left, List.disjoint_append_left]
    exact and_iff_right h.disjoint_functionScoped
  have hlexical : (namesOf .lexical (bs.map hoisted)).Nodup ↔ (namesOf .function bs).Nodup := by
    rw [hperm.nodup_iff, List.nodup_append']
    exact ⟨fun hnodup => hnodup.2.1, fun hnodup => ⟨h.nodup, hnodup, h.disjoint_function⟩⟩
  rw [conflictFree_iff, namesOf_functionScoped_hoisted, namesOf_function_hoisted, hlexical, hscoped]
  simp

end Binding

/-- How a declaration of variables declares its names. -/
def VariableKind.form : VariableKind → BindingForm
  | functionScoped => .functionScoped
  | blockScoped | constant => .lexical

namespace Node

/-! ### The scopes of a tree -/

/-- The names that a target binds, from those that its children bind: a plain name binds itself, and
a pattern what its parts bind, keys and default values left out. -/
def targetNames (n : Node) (below : List (List String)) : List String :=
  match n with
  | identifier name => [name]
  | objectPattern _ | arrayPattern _ | rest _ => below.flatten
  | property _ _ _ _ _ _ => (below.drop 1).flatten
  | defaulted _ _ | declarator _ _ => (below.take 1).flatten
  | _ => []

/-- The names that a target binds. -/
def boundNames : Node → List String := fold targetNames

/-- What a statement declares in the list in which it stands. -/
def declares : Node → List Binding
  | declaration kind declarators => (declarators.flatMap boundNames).map (Binding.mk kind.form)
  | classDefinition .declaration (some name) _ _ => [⟨.lexical, name⟩]
  | function .declaration (some name) _ _ _ _ => [⟨.function, name⟩]
  | _ => []

/-- The statements of a node that is a list of statements. -/
def statements? : Node → Option (List Node)
  | program body | block body | switchCase _ body => some body
  | _ => none

/-- The bindings of each list of statements in a tree. -/
def scopes (n : Node) : List (List Binding) :=
  (n.walk.filterMap statements?).map (List.flatMap declares)

/-- The bindings of each list of statements after instrumenting. -/
def hoistedScopes (n : Node) : List (List Binding) :=
  n.scopes.map (List.map Binding.hoisted)

lemma boundNames_eq (n : Node) : n.boundNames = n.targetNames (n.children.map boundNames) :=
  fold_eq targetNames n

lemma boundNames_withChildren {n : Node} {cs : List Node}
    (h : List.Forall₂ (fun c d => d.boundNames = c.boundNames) n.children cs) :
    (n.withChildren cs).boundNames = n.boundNames := by
  have htarget : (n.withChildren cs).targetNames = n.targetNames := by cases n <;> rfl
  rw [boundNames_eq, htarget, children_withChildren n h.length_eq.symm,
    map_of_forall₂ h, ← boundNames_eq]

lemma hoistedScopes_eq (n : Node) :
    n.hoistedScopes =
      n.statements?.toList.map (List.flatMap fun m => m.declares.map Binding.hoisted) ++
        n.children.flatMap hoistedScopes := by
  have hmap : List.map Binding.hoisted ∘ List.flatMap declares =
      List.flatMap fun m => m.declares.map Binding.hoisted :=
    funext fun _ => List.map_flatMap
  have hscopes : hoistedScopes = fun m => (m.walk.filterMap statements?).map
      (List.flatMap fun m => m.declares.map Binding.hoisted) := by
    funext m
    rw [hoistedScopes, scopes, List.map_map, hmap]
  simp only [hscopes]
  rw [walk_eq, List.filterMap_cons, List.filterMap_flatMap]
  cases n.statements? <;> simp [List.map_flatMap]

/-- The nodes in the fragments of the changes are no lists of statements. -/
lemma gathered_hoistedScopes : Gathered hoistedScopes := by
  intro n hn
  rw [hoistedScopes_eq]
  cases n <;> cases hn <;> rfl

/-! ### Nodes with the same bindings -/

/-- Two nodes that bind, declare and hold the same, up to the change from functions to constants. -/
structure SameBindings (n m : Node) : Prop where
  names : m.boundNames = n.boundNames
  declares : m.declares.map Binding.hoisted = n.declares.map Binding.hoisted
  scopes : m.hoistedScopes = n.hoistedScopes

lemma SameBindings.trans {n m k : Node} (h : SameBindings n m) (h' : SameBindings m k) :
    SameBindings n k :=
  ⟨h'.names.trans h.names, h'.declares.trans h.declares, h'.scopes.trans h.scopes⟩

/-- Statements that declare the same make up the same scope. -/
lemma scope_of_forall₂ {body body' : List Node} (h : List.Forall₂ SameBindings body body') :
    (body'.flatMap fun m => m.declares.map Binding.hoisted) =
      body.flatMap fun m => m.declares.map Binding.hoisted :=
  flatMap_of_forall₂ (h.imp fun _ _ hcd => hcd.declares)

/-- A node whose children bind the same binds the same. -/
lemma sameBindings_withChildren {n : Node} {cs : List Node}
    (h : List.Forall₂ SameBindings n.children cs) : SameBindings n (n.withChildren cs) where
  names := boundNames_withChildren (h.imp fun _ _ hcd => hcd.names)
  declares := by
    have hcongruent := congruent_withChildren h
    generalize n.withChildren cs = m at hcongruent
    cases hcongruent with
    | declaration hdeclarators =>
      rw [Node.declares, Node.declares,
        flatMap_of_forall₂ (hdeclarators.imp fun _ _ hcd => hcd.names)]
    | @function role id => cases role <;> cases id <;> rfl
    | @classDefinition role id => cases role <;> cases id <;> rfl
    | _ => rfl
  scopes := by
    have hbelow : cs.flatMap hoistedScopes = n.children.flatMap hoistedScopes :=
      flatMap_of_forall₂ (h.imp fun _ _ hcd => hcd.scopes)
    have hown : (n.withChildren cs).statements?.toList.map
        (List.flatMap fun m => m.declares.map Binding.hoisted) =
          n.statements?.toList.map (List.flatMap fun m => m.declares.map Binding.hoisted) := by
      have hcongruent := congruent_withChildren h
      generalize n.withChildren cs = m at hcongruent
      cases hcongruent with
      | program hbody => exact congrArg ([·]) (scope_of_forall₂ hbody)
      | block hbody => exact congrArg ([·]) (scope_of_forall₂ hbody)
      | switchCase htest hbody => exact congrArg ([·]) (scope_of_forall₂ hbody)
      | _ => rfl
    rw [hoistedScopes_eq, hown, children_withChildren n h.length_eq.symm, hbelow,
      ← hoistedScopes_eq]

end Node

namespace ProxyNames

open Node

variable {names : ProxyNames} {read : List String}

/-- A change keeps the bindings, up to the one from functions to constants. -/
lemma Change.sameBindings {parent : Option NodeKind} {n m : Node} (h : names.Change parent n m) :
    SameBindings n m where
  names := by cases h <;> rfl
  declares := by cases h <;> rfl
  scopes := gathered_hoistedScopes.of_change (fun _ _ _ => rfl) h

/-- A pass keeps the bindings of every tree. -/
lemma sameBindings_rebuild {f : Option NodeKind → Node → Counted Node} (hf : names.Changes f)
    (parent : Option NodeKind) (n : Node) : SameBindings n (rebuildM f parent n).value :=
  rebuild_induction (P := fun _ => SameBindings)
    (fun parent _ _ hcs => (sameBindings_withChildren hcs).trans (hf parent _).sameBindings) parent n

/-- Wrapping a node keeps its bindings. -/
lemma sameBindings_wrappedNode (inHead : Bool) (n : Node) :
    SameBindings n (names.wrappedNode read inHead n) where
  names := by
    unfold wrappedNode
    split <;> rfl
  declares := by
    unfold wrappedNode
    split <;> rfl
  scopes := gathered_hoistedScopes.wrappedNode read inHead n

/-- Wrapping keeps the bindings of every tree. -/
lemma sameBindings_wrapAll (readArguments : Bool) (n : Node) :
    SameBindings n (names.wrapAll readArguments n).1 :=
  names.wrap_induction (P := SameBindings) _
    (fun _ _ inHead hcs => (sameBindings_withChildren hcs).trans (sameBindings_wrappedNode inHead _))
    n _

/-- All passes together keep the bindings of every tree. -/
lemma sameBindings_proxied (o : Options) (n : Node) : SameBindings n (o.proxied n) :=
  (sameBindings_wrapAll o.readArguments n).trans <|
    (sameBindings_rebuild o.names.change_hoistNode none _).trans <|
      (sameBindings_rebuild o.names.change_writeNode none _).trans <|
        (sameBindings_rebuild o.names.change_stepNode none _).trans <|
          sameBindings_rebuild o.names.change_readNode none _

end ProxyNames

namespace Node

/-- Only function declarations declare functions. -/
lemma kind_of_declares_function {n : Node} {b : Binding} (hb : b ∈ n.declares)
    (hform : b.form = .function) : n.kind = .functionDeclaration := by
  cases n with
  | declaration kind declarators =>
    obtain ⟨name, _, rfl⟩ := List.mem_map.1 hb
    cases kind <;> cases hform
  | classDefinition role id superClass body =>
    cases role with
    | declaration =>
      cases id with
      | none => cases hb
      | some name =>
        cases List.mem_singleton.1 hb
        cases hform
    | expression => cases hb
  | function role id params body isAsync isGenerator =>
    cases role with
    | declaration => rfl
    | expression => cases hb
  | _ => cases hb

/-- The statements of a list are children of the node that holds it. -/
lemma of_statements?_eq_some {n : Node} {body : List Node} (h : n.statements? = some body) :
    n.kind ∈ [NodeKind.program, .block, .switchCase] ∧ body ⊆ n.children := by
  cases n with
  | program statements =>
    cases h
    exact ⟨by simp [Node.kind], List.Subset.refl _⟩
  | block statements =>
    cases h
    exact ⟨by simp [Node.kind], List.Subset.refl _⟩
  | switchCase test statements =>
    cases h
    exact ⟨by simp [Node.kind], List.subset_append_right _ _⟩
  | _ => cases h

/-- In a tree in which no list of statements declares a function, there is nothing to turn into a
constant. -/
lemma hoistedScopes_of_declaresNoFunction {n : Node} (h : n.Everywhere DeclaresNoFunction) :
    n.hoistedScopes = n.scopes := by
  have hkeep : ∀ bs ∈ n.scopes, bs.map Binding.hoisted = bs := by
    intro bs hbs
    obtain ⟨body, hbody, rfl⟩ := List.mem_map.1 hbs
    obtain ⟨m, hm, hstatements⟩ := List.mem_filterMap.1 hbody
    obtain ⟨hkind, hchildren⟩ := of_statements?_eq_some hstatements
    refine (List.map_congr_left fun b hb => ?_).trans (List.map_id _)
    obtain ⟨c, hc, hdeclares⟩ := List.mem_flatMap.1 hb
    refine Binding.hoisted_of_form_ne fun hform => ?_
    exact h m hm hkind c (hchildren hc) (kind_of_declares_function hdeclares hform)
  rw [hoistedScopes, List.map_congr_left hkeep, List.map_id']

end Node

/-- The lists of statements of an instrumented script declare what those of the script declare, with
constants for functions.  If the script has no conflict in any list, then neither has the
instrumented one, as long as no list of the script declares a function twice or along with a variable
of its name, and only then. -/
theorem conflictFree_instrumentTree_iff {text : String} {n : Node} (h : parse text = .ok n)
    (o : Options) (himport : o.importClient = false)
    (hfree : ∀ bs ∈ n.scopes, Binding.ConflictFree bs) :
    (o.instrumentTree n).1.scopes = n.scopes.map (List.map Binding.hoisted) ∧
      ((∀ bs ∈ (o.instrumentTree n).1.scopes, Binding.ConflictFree bs) ↔
        ∀ bs ∈ n.scopes, (Binding.namesOf .function bs).Nodup ∧
          (Binding.namesOf .function bs).Disjoint (Binding.namesOf .functionScoped bs)) := by
  obtain ⟨_, htidy⟩ := tidy_of_parse h
  have htree : (o.instrumentTree n).1 = o.proxied n := by
    rw [o.fst_instrumentTree, himport]
    rfl
  have hscopes : (o.proxied n).scopes = n.scopes.map (List.map Binding.hoisted) := by
    rw [← Node.hoistedScopes_of_declaresNoFunction (ProxyNames.isNormal_proxied htidy).functions,
      (ProxyNames.sameBindings_proxied o n).scopes]
    rfl
  rw [htree, hscopes]
  refine ⟨rfl, List.forall_mem_map.trans (forall₂_congr fun bs hbs => ?_)⟩
  exact Binding.conflictFree_hoisted_iff (hfree bs hbs)

/-- A script with a class, patterns and functions, in which the name of the function `g` is also that
of a variable of another list. -/
def scopedScript : String :=
  "class A \x7b\x7d function f() \x7b var g, [b, ...c] = d; \x7d" ++
    "if (a) \x7b let \x7b b, e: h = 1 \x7d = a; function g() \x7b\x7d \x7d"

theorem conflictFree_instrumentTree_iff_scopedScript :
    ∃ n, parse scopedScript = .ok n ∧ (∀ bs ∈ n.scopes, Binding.ConflictFree bs) ∧
      ∀ bs ∈ (({} : Options).instrumentTree n).1.scopes, Binding.ConflictFree bs := by
  obtain ⟨n, hparse, hcheck⟩ := exists_of_parse_any
    (show (parse scopedScript).toOption.any
      (fun n => decide ((∀ bs ∈ n.scopes, Binding.ConflictFree bs) ∧
        ∀ bs ∈ n.scopes, (Binding.namesOf .function bs).Nodup ∧
          ∀ name ∈ Binding.namesOf .function bs, name ∉ Binding.namesOf .functionScoped bs)) = true by
      rw [show parse scopedScript = _ from parse_ofList_append _ _]
      decide +kernel)
  obtain ⟨hfree, hfunctions⟩ := of_decide_eq_true hcheck
  exact ⟨n, hparse, hfree, (conflictFree_instrumentTree_iff hparse {} rfl hfree).2.2 hfunctions⟩

/-- The function `f` may share its name with a variable, but the constant that it becomes may not. -/
theorem not_conflictFree_of_function_and_variable :
    ∃ n, parse "var f; function f() \x7b\x7d" = .ok n ∧
      (∀ bs ∈ n.scopes, Binding.ConflictFree bs) ∧
        ¬ ∀ bs ∈ (({} : Options).instrumentTree n).1.scopes, Binding.ConflictFree bs := by
  obtain ⟨n, hparse, hcheck⟩ := exists_of_parse_any
    (show (parse "var f; function f() \x7b\x7d").toOption.any (fun n =>
      decide ((∀ bs ∈ n.scopes, Binding.ConflictFree bs) ∧
        ¬ ∀ bs ∈ (({} : Options).instrumentTree n).1.scopes, Binding.ConflictFree bs)) = true by
      rw [parse_ofList]
      decide +kernel)
  exact ⟨n, hparse, of_decide_eq_true hcheck⟩

end BindingProxy
