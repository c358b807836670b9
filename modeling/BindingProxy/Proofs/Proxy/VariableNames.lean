import BindingProxy.Proofs.Proxy.Instrumented

/-!
# The names of variables

Arguments of calls that are names of variables are read through their proxies.  Which names these
are is found out before anything is wrapped: `variableNames` looks for the declarators that will be
bound to a proxy of a plain value, and does not look into the left sides of loops over values.

Wrapping does look there.  What `variableNames` finds are therefore exactly the names that wrapping
binds outside the left sides, in the same order.  A declarator inside a left side, in a function that
is a default value or part of a target, is wrapped too, and its name is found only if the name is
bound outside as well.
-/

namespace BindingProxy

namespace Node

/-! ### Outside the left sides of loops -/

/-- The children of a node without the left side of a loop over a value. -/
def outerChildren : Node → List Node
  | forEach _ _ right body => [right, body]
  | n => n.children

/-- The nodes of a tree that are in no left side of a loop over a value, each before its
children. -/
def outside : Node → List Node :=
  fold fun n below =>
    match n with
    | forEach _ _ _ _ => n :: (below.drop 1).flatten
    | _ => n :: below.flatten

/-- The left sides of the loops over values in a tree. -/
def leftSides (n : Node) : List Node := n.walk.filterMap leftSide?

/-- Only loops over values have children that are not outer ones. -/
lemma outerChildren_eq {n : Node}
    (h : ∀ iteration left right body, n = forEach iteration left right body → False) :
    n.outerChildren = n.children := by
  unfold outerChildren
  split
  · exact absurd rfl (h _ _ _ _)
  · rfl

lemma outside_eq (n : Node) : n.outside = n :: n.outerChildren.flatMap outside := by
  rw [outside, fold_eq]
  split
  · simp only [children, outerChildren, List.flatMap_def]
    rfl
  · next h => rw [outerChildren_eq h, List.flatMap_def]

/-- The children of a node are its outer children and its left side. -/
lemma mem_children_iff {n c : Node} :
    c ∈ n.children ↔ c ∈ n.outerChildren ∨ n.leftSide? = some c := by
  cases n with
  | forEach iteration left right body =>
    simp only [children, outerChildren, leftSide?, List.mem_cons, Option.some.injEq]
    exact or_comm.trans (or_congr_right eq_comm)
  | _ => simp [outerChildren, leftSide?]

/-- A child's left sides are left sides of the parent. -/
lemma leftSides_subset {n c : Node} (hc : c ∈ n.children) : c.leftSides ⊆ n.leftSides := by
  intro left hleft
  obtain ⟨loop, hloop, hside⟩ := List.mem_filterMap.1 hleft
  refine List.mem_filterMap.2 ⟨loop, ?_, hside⟩
  rw [walk_eq]
  exact List.mem_cons_of_mem n (List.mem_flatMap.2 ⟨c, hc, hloop⟩)

lemma outside_subset_walk (n : Node) : n.outside ⊆ n.walk := by
  induction n using induction_on_children with
  | step n ih =>
    intro m hm
    rw [outside_eq] at hm
    rw [walk_eq]
    rcases List.mem_cons.1 hm with rfl | hbelow
    · exact List.mem_cons_self
    · obtain ⟨c, hc, hmc⟩ := List.mem_flatMap.1 hbelow
      have hchild : c ∈ n.children := mem_children_iff.2 (.inl hc)
      exact List.mem_cons_of_mem n (List.mem_flatMap.2 ⟨c, hchild, ih c hchild hmc⟩)

lemma walk_subset_of_mem {n m : Node} (h : m ∈ n.walk) : m.walk ⊆ n.walk := by
  induction n using induction_on_children with
  | step n ih =>
    rw [walk_eq] at h
    rcases List.mem_cons.1 h with rfl | hbelow
    · exact List.Subset.refl _
    · obtain ⟨c, hc, hmc⟩ := List.mem_flatMap.1 hbelow
      rw [walk_eq n]
      intro x hx
      exact List.mem_cons_of_mem n (List.mem_flatMap.2 ⟨c, hc, ih c hc hmc hx⟩)

/-- A node of a tree is outside the left sides or in one of them. -/
lemma mem_walk_iff {n m : Node} :
    m ∈ n.walk ↔ m ∈ n.outside ∨ ∃ left ∈ n.leftSides, m ∈ left.walk := by
  constructor
  · intro hm
    induction n using induction_on_children with
    | step n ih =>
      rw [walk_eq] at hm
      rw [outside_eq]
      rcases List.mem_cons.1 hm with rfl | hbelow
      · exact .inl List.mem_cons_self
      · obtain ⟨c, hc, hmc⟩ := List.mem_flatMap.1 hbelow
        rcases mem_children_iff.1 hc with houter | hleft
        · rcases ih c hc hmc with hin | ⟨left, hin, hml⟩
          · exact .inl (List.mem_cons_of_mem n (List.mem_flatMap.2 ⟨c, houter, hin⟩))
          · exact .inr ⟨left, leftSides_subset hc hin, hml⟩
        · have hself : n ∈ n.walk := by
            rw [walk_eq]
            exact List.mem_cons_self
          exact .inr ⟨c, List.mem_filterMap.2 ⟨n, hself, hleft⟩, hmc⟩
  · rintro (hin | ⟨left, hleft, hm⟩)
    · exact outside_subset_walk n hin
    · obtain ⟨loop, hloop, hside⟩ := List.mem_filterMap.1 hleft
      have hchild : left ∈ loop.children := mem_children_iff.2 (.inr hside)
      refine walk_subset_of_mem hloop ?_
      rw [walk_eq]
      exact List.mem_cons_of_mem loop (List.mem_flatMap.2 ⟨left, hchild, hm⟩)

/-! ### Names before wrapping -/

/-- The name of a declarator whose value is no function. -/
def variableName? : Node → Option String
  | declarator id init =>
    match ProxyType.ofValue init with
    | .value => id.name?
    | .function => none
  | _ => none

/-- The names of variables are found at the root and in the outer children. -/
lemma variableNames_cons (n : Node) :
    n.variableNames = n.variableName?.toList ++ n.outerChildren.flatMap variableNames := by
  rw [variableNames, fold_eq]
  split
  · simp only [children, outerChildren, List.flatMap_def]
    rfl
  · next name init =>
    cases htype : ProxyType.ofValue init <;>
      simp [variableName?, htype, outerChildren, children, List.flatMap_def, name?]
  · next hloop hname =>
    have hnone : n.variableName? = none := by
      unfold variableName?
      split
      · next id init =>
        split
        · cases hid : id.name? with
          | none => rfl
          | some name =>
            rw [eq_identifier_of_name? hid] at hname
            exact absurd rfl (hname name init)
        · rfl
      · rfl
    rw [hnone, outerChildren_eq hloop, List.flatMap_def]
    rfl

/-- The name of a variable depends on the children only through their names and on whether they are
functions. -/
lemma variableName?_withChildren {n : Node} {cs : List Node}
    (h : List.Forall₂ (fun c d => d.name? = c.name? ∧ d.isFunctionValue = c.isFunctionValue)
      n.children cs) : (n.withChildren cs).variableName? = n.variableName? := by
  cases n with
  | declarator id init =>
    obtain ⟨id', rest, hid, hrest, rfl⟩ := List.forall₂_cons_left_iff.1 h
    cases init with
    | none => exact hid.1
    | some value =>
      obtain ⟨value', rest, hvalue, hrest, rfl⟩ := List.forall₂_cons_left_iff.1 hrest
      have htype : ProxyType.ofValue (some value') = ProxyType.ofValue (some value) := by
        simp only [ProxyType.ofValue, hvalue.2]
      have hfilled : (declarator id (some value)).withChildren (id' :: value' :: rest) =
          declarator id' (some value') := rfl
      rw [hfilled, variableName?, variableName?, htype, hid.1]
  | _ => rfl

end Node

namespace ProxyNames

open Node

variable (names : ProxyNames)

/-! ### Names after wrapping -/

/-- Whether a node is a new proxy of the given type. -/
def makes (type : ProxyType) : Node → Bool
  | .construction (.member (.identifier owner) (.identifier key) false false) _ =>
    owner == names.namespaceName && key == type.name
  | _ => false

/-- The name that a declarator binds to a new proxy of the given type. -/
def boundName? (type : ProxyType) : Node → Option String
  | .declarator id (some value) => if names.makes type value then id.name? else none
  | _ => none

/-- The names that are bound to new proxies of plain values outside the left sides of loops. -/
def outerNames (n : Node) : List String := n.outside.filterMap (names.boundName? .value)

variable {names}

lemma makes_wrap (type type' : ProxyType) (value : Option Node) :
    names.makes type (names.wrap type' value) = decide (type' = type) := by
  cases type <;> cases type' <;> simp [makes, wrap, construct, dot, ProxyType.name]

lemma outerNames_eq (n : Node) :
    names.outerNames n =
      (names.boundName? .value n).toList ++ n.outerChildren.flatMap names.outerNames := by
  rw [outerNames, outside_eq, List.filterMap_cons, List.filterMap_flatMap]
  cases names.boundName? .value n <;> rfl

/-- A new proxy adds no names to those of its value. -/
lemma outerNames_wrap (type : ProxyType) (value : Option Node) :
    names.outerNames (names.wrap type value) = value.toList.flatMap names.outerNames := by
  have hcallee : names.outerNames (dot (.identifier names.namespaceName) type.name) = [] := by
    simp [dot, outerNames_eq, boundName?, outerChildren, children]
  rw [outerNames_eq]
  simp [wrap, construct, outerChildren, children, boundName?, hcallee]

lemma outerNames_wrappedFunction (n : Node) :
    names.outerNames (names.wrappedFunction n) = names.outerNames n := by
  unfold wrappedFunction
  split
  · simp [outerNames_wrap]
  · rfl

lemma outerNames_wrappedArgument (read : List String) (n : Node) :
    names.outerNames (names.wrappedArgument read n) = names.outerNames n := by
  unfold wrappedArgument
  split
  · next name =>
    by_cases hread : read.contains name = true
    · rw [if_pos hread]
      simp [readProxy, callMethod, dot, outerNames_eq, boundName?, outerChildren, children]
    · rw [if_neg hread]
  · exact outerNames_wrappedFunction _

/-- Wrapping a node binds the name that is expected of it, and no other. -/
lemma outerNames_wrappedNode (read : List String) (n : Node) :
    names.outerNames (names.wrappedNode read false n) =
      n.variableName?.toList ++ n.outerChildren.flatMap names.outerNames := by
  cases n with
  | declarator id init =>
    cases id with
    | identifier name =>
      rw [outerNames_eq]
      cases htype : ProxyType.ofValue init <;>
        simp [wrappedNode, boundName?, outerChildren, children, variableName?, htype, makes_wrap,
          outerNames_wrap]
    | _ =>
      rw [outerNames_eq]
      cases init with
      | none => rfl
      | some value =>
        cases htype : ProxyType.ofValue (some value) <;>
          simp [wrappedNode, boundName?, variableName?, htype, name?]
  | call callee arguments optional =>
    rw [outerNames_eq]
    simp [wrappedNode, boundName?, outerChildren, children, variableName?, List.flatMap_map,
      outerNames_wrappedFunction, outerNames_wrappedArgument]
  | _ => exact outerNames_eq _

/-- The outer children of a wrapped tree stand in no loop head. -/
lemma outerChildren_wrapped (read : List String) (n : Node) :
    (n.withChildren (n.children.mapIdx fun place c =>
      names.wrapped read c (n.headSlot false place))).outerChildren =
        n.outerChildren.map (names.wrapped read · false) := by
  have hchildren : (n.withChildren (n.children.mapIdx fun place c =>
      names.wrapped read c (n.headSlot false place))).children = _ :=
    children_withChildren n List.length_mapIdx
  have hplain : (∀ place, n.headSlot false place = false) →
      (n.children.mapIdx fun place c => names.wrapped read c (n.headSlot false place)) =
        n.children.map (names.wrapped read · false) := by
    intro hslot
    apply List.ext_getElem (by simp)
    intro place _ _
    simp only [List.getElem_mapIdx, List.getElem_map, hslot]
  cases n with
  | forEach iteration left right body =>
    have hright : (forEach iteration left right body).headSlot false 1 = false := by
      simp [headSlot]
    have hbody : (forEach iteration left right body).headSlot false 2 = false := by
      simp [headSlot]
    change [names.wrapped read right ((forEach iteration left right body).headSlot false 1),
      names.wrapped read body ((forEach iteration left right body).headSlot false 2)] = _
    rw [hright, hbody]
    rfl
  | _ => exact hchildren.trans (hplain fun _ => rfl)

lemma name?_wrapped (read : List String) (n : Node) (inHead : Bool) :
    (names.wrapped read n inHead).name? = n.name? := by
  rw [wrapped_eq, name?_wrappedNode, name?_withChildren]

/-- Functions stay functions when they are wrapped inside. -/
lemma isFunctionValue_wrappedNode (read : List String) (n : Node) (cs : List Node)
    (inHead : Bool) :
    (names.wrappedNode read inHead (n.withChildren cs)).isFunctionValue = n.isFunctionValue := by
  cases n with
  | declarator id init => unfold wrappedNode; split <;> rfl
  | function role => cases role <;> rfl
  | _ => rfl

lemma isFunctionValue_wrapped (read : List String) (n : Node) (inHead : Bool) :
    (names.wrapped read n inHead).isFunctionValue = n.isFunctionValue := by
  rw [wrapped_eq, isFunctionValue_wrappedNode]

/-- Wrapping by place binds the names of variables outside the left sides. -/
theorem outerNames_wrapped (read : List String) (n : Node) :
    names.outerNames (names.wrapped read n false) = n.variableNames := by
  induction n using induction_on_children with
  | step n ih =>
    have hname : (n.withChildren (n.children.mapIdx fun place c =>
        names.wrapped read c (n.headSlot false place))).variableName? = n.variableName? := by
      refine variableName?_withChildren (forall₂_mapIdx false fun c _ inHead => ?_)
      exact ⟨name?_wrapped read c inHead, isFunctionValue_wrapped read c inHead⟩
    have houter : n.outerChildren.flatMap (fun c => names.outerNames (names.wrapped read c false)) =
        n.outerChildren.flatMap variableNames :=
      List.flatMap_congr fun c hc => ih c (mem_children_iff.2 (.inl hc))
    rw [wrapped_eq, outerNames_wrappedNode, hname, outerChildren_wrapped, List.flatMap_map, houter,
      variableNames_cons]

end ProxyNames

/-- The names of variables that are looked up in a script are exactly those that wrapping binds to
proxies of plain values outside the left sides of loops over values.  They are all that wrapping
binds if and only if no left side binds a name that is not bound outside. -/
theorem variableNames_eq_outerNames {text : String} {n : Node} (h : parse text = .ok n)
    (names : ProxyNames) (readArguments : Bool) :
    n.variableNames = names.outerNames (names.wrapAll readArguments n).1 ∧
      ((∀ name, name ∈ n.variableNames ↔
          ∃ d ∈ (names.wrapAll readArguments n).1.walk, names.boundName? .value d = some name) ↔
        ∀ left ∈ (names.wrapAll readArguments n).1.leftSides, ∀ d ∈ left.walk,
          ∀ name, names.boundName? .value d = some name → name ∈ n.variableNames) := by
  obtain ⟨_, htidy⟩ := tidy_of_parse h
  have hsingle : n.Everywhere Node.SingleHead := htidy.mono fun _ => Node.singleHead_of_fits
  have hnames : n.variableNames = names.outerNames (names.wrapAll readArguments n).1 := by
    rw [ProxyNames.wrapAll_eq_wrapped hsingle, ProxyNames.outerNames_wrapped]
  refine ⟨hnames, fun hall left hleft d hd name hbound => ?_, fun hsides name => ?_⟩
  · exact (hall name).2 ⟨d, Node.mem_walk_iff.2 (.inr ⟨left, hleft, hd⟩), hbound⟩
  · constructor
    · intro hname
      rw [hnames] at hname
      obtain ⟨d, hd, hbound⟩ := List.mem_filterMap.1 hname
      exact ⟨d, Node.outside_subset_walk _ hd, hbound⟩
    · rintro ⟨d, hd, hbound⟩
      rcases Node.mem_walk_iff.1 hd with houter | ⟨left, hleft, hin⟩
      · rw [hnames]
        exact List.mem_filterMap.2 ⟨d, houter, hbound⟩
      · exact hsides left hleft d hin name hbound

/-- The variable `z` of a default value is also bound in the body of the loop, and so it is found. -/
theorem variableNames_eq_outerNames_twice :
    ∃ n, parse "for (var [a = function () { var z; }] of y) { let z = 1; f(z); }" = .ok n ∧
      ∀ name, name ∈ n.variableNames ↔
        ∃ d ∈ (({} : ProxyNames).wrapAll true n).1.walk,
          ({} : ProxyNames).boundName? .value d = some name := by
  obtain ⟨n, hparse, hcheck⟩ := exists_of_parse_any
    (show (parse "for (var [a = function () { var z; }] of y) { let z = 1; f(z); }")
      |>.toOption.any (fun n => (({} : ProxyNames).wrapAll true n).1.leftSides.all fun left =>
        left.walk.all fun d => (({} : ProxyNames).boundName? .value d).all fun name =>
          n.variableNames.contains name)
      by rw [parse_ofList]; decide +kernel)
  refine ⟨n, hparse, (variableNames_eq_outerNames hparse {} true).2.2 ?_⟩
  intro left hleft d hd name hbound
  have hname := List.all_eq_true.1 (List.all_eq_true.1 hcheck left hleft) d hd
  rw [hbound] at hname
  exact List.contains_iff_mem.1 hname

/-- The variable `z` of a function in the target of a loop is wrapped, but it is not found among the
names of variables. -/
theorem variableNames_misses_left_side :
    ∃ n, parse "for (x[function () { var z; f(z); }] of y) ;" = .ok n ∧
      (∃ d ∈ (({} : ProxyNames).wrapAll true n).1.walk,
        ({} : ProxyNames).boundName? .value d = some "z") ∧ "z" ∉ n.variableNames := by
  obtain ⟨n, hparse, hcheck⟩ := exists_of_parse_any
    (show (parse "for (x[function () { var z; f(z); }] of y) ;").toOption.any
      (fun n => ((({} : ProxyNames).wrapAll true n).1.walk.any fun d =>
        ({} : ProxyNames).boundName? .value d == some "z") && !n.variableNames.contains "z") = true by
      rw [parse_ofList]
      decide +kernel)
  rw [Bool.and_eq_true, List.any_eq_true] at hcheck
  obtain ⟨⟨d, hd, hbound⟩, hmissed⟩ := hcheck
  refine ⟨n, hparse, ⟨d, hd, beq_iff_eq.1 hbound⟩, ?_⟩
  simpa using hmissed

end BindingProxy
