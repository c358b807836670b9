import BindingProxy.Proofs.Proxy.VariableNames

/-!
# Wrapping as a map of trees

`Classifies` says what a map of trees does that wraps declared values and calls, without a count of
declarators and without looking at anything that has been wrapped already: every decision is made on
the tree as it was read.  There is exactly one such map, and wrapping comes to the same on every tree
that was read.  This rests on two facts.  The count finds the declarators of loop heads by their
places, since a loop head has only one.  And a wrapped child looks to its parent as before: a function
stays one, and so does a name.
-/

namespace BindingProxy

open Node

namespace Node

lemma withChildren_declaration {kind : VariableKind} {declarators cs : List Node}
    (h : cs.length = declarators.length) :
    (declaration kind declarators).withChildren cs = declaration kind cs := by
  have hchildren : (fillList declarators cs).1 = cs :=
    children_withChildren (declaration kind declarators) h
  change declaration kind (fillList declarators cs).1 = _
  rw [hchildren]

lemma withChildren_call {callee c : Node} {arguments cs : List Node} {optional : Bool}
    (h : cs.length = arguments.length) :
    (call callee arguments optional).withChildren (c :: cs) = call c cs optional := by
  have hlength : (c :: cs).length = (call callee arguments optional).children.length :=
    congrArg (· + 1) h
  have hchildren : c :: (fillList arguments cs).1 = c :: cs := children_withChildren _ hlength
  change call c (fillList arguments cs).1 optional = _
  rw [(List.cons.inj hchildren).2]

end Node

namespace ProxyNames

variable (names : ProxyNames) (read : List String)

/-- A function in its proxy, given as it was and as the map has it. -/
def classifiedFunction (original new : Node) : Node :=
  if original.isFunctionValue then names.wrap .function (some new) else new

/-- An argument that was a function in its proxy, and one that was one of the names read. -/
def classifiedArgument (original new : Node) : Node :=
  match original with
  | .identifier name => if read.contains name then .readProxy name else new
  | _ => names.classifiedFunction original new

/-- The nodes that the map does something to, or whose children it tells apart. -/
def hasRule (inHead : Bool) : Node → Bool
  | .declarator id _ => !inHead && id.name?.isSome
  | .forEach _ _ _ _ | .declaration _ _ | .call _ _ _ => true
  | _ => false

/-- The rules of a map `C inHead` of trees, where `inHead` is set on the way from a loop over a value
through the declaration on its left side to the declarators there. -/
structure Classifies (C : Bool → Node → Node) : Prop where
  absent (name : String) : C false (.declarator (.identifier name) none) =
    .declarator (.identifier name) (some (names.wrap .value none))
  value (name : String) (init : Node) : C false (.declarator (.identifier name) (some init)) =
    .declarator (.identifier name) (some
      (names.wrap (if init.isFunctionValue then .function else .value) (some (C false init))))
  loop (inHead : Bool) (iteration : Iteration) (left right body : Node) :
    C inHead (.forEach iteration left right body) =
      .forEach iteration (C left.isDeclaration left) (C false right) (C false body)
  declaration (inHead : Bool) (kind : VariableKind) (declarators : List Node) :
    C inHead (.declaration kind declarators) = .declaration kind (declarators.map (C inHead))
  call (inHead : Bool) (callee : Node) (arguments : List Node) (optional : Bool) :
    C inHead (.call callee arguments optional) =
      .call (names.classifiedFunction callee (C false callee))
        (arguments.map fun a => names.classifiedArgument read a (C false a)) optional
  other {inHead : Bool} {n : Node} (h : hasRule inHead n = false) :
    C inHead n = n.withChildren (n.children.map (C false))

variable {names read}

/-! ### There is only one such map -/

lemma Classifies.unique {C D : Bool → Node → Node} (hC : names.Classifies read C)
    (hD : names.Classifies read D) (inHead : Bool) (n : Node) : C inHead n = D inHead n := by
  induction n using induction_on_children generalizing inHead with
  | step n ih =>
    by_cases hrule : hasRule inHead n = true
    swap
    · rw [Bool.not_eq_true] at hrule
      rw [hC.other hrule, hD.other hrule]
      exact congrArg _ (List.map_congr_left fun c hc => ih c hc false)
    cases n with
    | declarator id init =>
      cases inHead with
      | true => cases hrule
      | false =>
        cases id with
        | identifier name =>
          cases init with
          | none => rw [hC.absent, hD.absent]
          | some init => rw [hC.value, hD.value, ih init (by simp [children])]
        | _ => cases hrule
    | forEach iteration left right body =>
      rw [hC.loop, hD.loop, ih left (by simp [children]), ih right (by simp [children]),
        ih body (by simp [children])]
    | declaration kind declarators =>
      rw [hC.declaration, hD.declaration]
      exact congrArg _ (List.map_congr_left fun c hc => ih c hc inHead)
    | call callee arguments optional =>
      have harguments : ∀ a ∈ arguments, C false a = D false a :=
        fun a ha => ih a (List.mem_cons_of_mem _ ha) false
      rw [hC.call, hD.call, ih callee List.mem_cons_self]
      exact congrArg (fun arguments => Node.call _ arguments optional)
        (List.map_congr_left fun a ha => by rw [harguments a ha])
    | _ => cases hrule

/-! ### Wrapping by place follows the rules -/

lemma wrapped_identifier (name : String) (inHead : Bool) :
    names.wrapped read (.identifier name) inHead = .identifier name :=
  names.wrapped_eq read _ inHead

/-- Where no child stands in a loop head. -/
lemma wrapped_of_no_slot {n : Node} {inHead : Bool} (h : ∀ place, n.headSlot inHead place = false) :
    names.wrapped read n inHead =
      names.wrappedNode read inHead (n.withChildren (n.children.map (names.wrapped read · false))) := by
  rw [wrapped_eq, ← mapIdx_eq_map]
  simp only [h]

lemma wrappedFunction_wrapped (n : Node) (inHead : Bool) :
    names.wrappedFunction (names.wrapped read n inHead) =
      names.classifiedFunction n (names.wrapped read n inHead) := by
  rw [wrappedFunction, classifiedFunction, isFunctionValue_wrapped]

lemma wrappedArgument_of_name?_none {n : Node} (h : n.name? = none) :
    names.wrappedArgument read n = names.wrappedFunction n := by
  cases n with
  | identifier name => cases h
  | _ => rfl

lemma classifiedArgument_of_name?_none {n m : Node} (h : n.name? = none) :
    names.classifiedArgument read n m = names.classifiedFunction n m := by
  cases n with
  | identifier name => cases h
  | _ => rfl

lemma wrappedArgument_wrapped (n : Node) (inHead : Bool) :
    names.wrappedArgument read (names.wrapped read n inHead) =
      names.classifiedArgument read n (names.wrapped read n inHead) := by
  cases hname : n.name? with
  | some name =>
    obtain rfl := eq_identifier_of_name? hname
    rw [wrapped_identifier]
    rfl
  | none =>
    rw [wrappedArgument_of_name?_none (by rw [name?_wrapped, hname]), wrappedFunction_wrapped,
      classifiedArgument_of_name?_none hname]

/-- A declarator of something other than a name is left alone. -/
lemma wrappedNode_of_pattern {id : Node} (hid : id.name? = none) (init : Option Node) (inHead : Bool) :
    names.wrappedNode read inHead (.declarator id init) = .declarator id init := by
  cases id with
  | identifier name => cases hid
  | _ => rfl

lemma wrapped_of_not_hasRule {inHead : Bool} {n : Node} (h : hasRule inHead n = false) :
    names.wrapped read n inHead = n.withChildren (n.children.map (names.wrapped read · false)) := by
  have hslot : ∀ place, n.headSlot inHead place = false := by
    intro place
    cases n with
    | forEach => cases h
    | declaration => cases h
    | _ => rfl
  rw [wrapped_of_no_slot hslot]
  cases n with
  | declarator id init =>
    have hwrapped : (declarator id init).withChildren
        ((declarator id init).children.map (names.wrapped read · false)) =
          .declarator (names.wrapped read id false) (init.map (names.wrapped read · false)) := by
      cases init <;> rfl
    rw [hwrapped]
    cases hname : id.name? with
    | some name =>
      obtain rfl := eq_identifier_of_name? hname
      cases inHead with
      | false => cases h
      | true =>
        rw [wrapped_identifier]
        rfl
    | none => exact wrappedNode_of_pattern (by rw [name?_wrapped, hname]) _ _
  | call => cases h
  | _ => rfl

lemma classifies_wrapped (names : ProxyNames) (read : List String) :
    names.Classifies read fun inHead n => names.wrapped read n inHead where
  absent name := by
    rw [wrapped_of_no_slot fun _ => rfl]
    change names.wrappedNode read false
      (.declarator (names.wrapped read (.identifier name) false) none) = _
    rw [wrapped_identifier]
    rfl
  value name init := by
    rw [wrapped_of_no_slot fun _ => rfl]
    change names.wrappedNode read false (.declarator (names.wrapped read (.identifier name) false)
      (some (names.wrapped read init false))) = _
    rw [wrapped_identifier, wrappedNode, ProxyType.ofValue, isFunctionValue_wrapped]
    rfl
  loop inHead iteration left right body := by
    have hleft : (forEach iteration left right body).headSlot inHead 0 = left.isDeclaration :=
      Bool.and_true _
    have hright : (forEach iteration left right body).headSlot inHead 1 = false := Bool.and_false _
    have hbody : (forEach iteration left right body).headSlot inHead 2 = false := Bool.and_false _
    rw [wrapped_eq]
    change forEach iteration (names.wrapped read left ((forEach iteration left right body).headSlot inHead 0))
      (names.wrapped read right ((forEach iteration left right body).headSlot inHead 1))
      (names.wrapped read body ((forEach iteration left right body).headSlot inHead 2)) = _
    rw [hleft, hright, hbody]
  declaration inHead kind declarators := by
    have hslot : ∀ place, (Node.declaration kind declarators).headSlot inHead place = inHead :=
      fun _ => rfl
    rw [wrapped_eq]
    simp only [hslot]
    have hchildren : (Node.declaration kind declarators).children = declarators := rfl
    rw [mapIdx_eq_map, hchildren, withChildren_declaration (List.length_map _)]
    rfl
  call inHead callee arguments optional := by
    have hchildren : (Node.call callee arguments optional).children.map (names.wrapped read · false) =
        names.wrapped read callee false :: arguments.map (names.wrapped read · false) := rfl
    rw [wrapped_of_no_slot fun _ => rfl, hchildren, withChildren_call (List.length_map _), wrappedNode,
      wrappedFunction_wrapped, List.map_map]
    exact congrArg (fun arguments => Node.call _ arguments optional)
      (List.map_congr_left fun a _ => wrappedArgument_wrapped a false)
  other := wrapped_of_not_hasRule

end ProxyNames

/-- There is one map that follows the rules, and it is what wrapping does to every tree that was
read. -/
theorem wrapAll_eq_classified {text : String} {n : Node} (h : parse text = .ok n)
    (names : ProxyNames) (readArguments : Bool) :
    (∃ C, names.Classifies (if readArguments then n.variableNames else []) C) ∧
      ∀ C, names.Classifies (if readArguments then n.variableNames else []) C →
        (names.wrapAll readArguments n).1 = C false n := by
  obtain ⟨_, htidy⟩ := tidy_of_parse h
  have hsingle : n.Everywhere SingleHead := htidy.mono fun _ => singleHead_of_fits
  have hrules := names.classifies_wrapped (if readArguments then n.variableNames else [])
  refine ⟨⟨_, hrules⟩, fun C hC => ?_⟩
  rw [ProxyNames.wrapAll_eq_wrapped hsingle]
  exact hrules.unique hC false n

/-- A loop in a loop, with a function in the outer head and one in the value that is looped over. -/
def loopingScript : String :=
  "for (var [a = function () \x7b var z; \x7d] of g(x => x)) \x7b" ++
    "let z = f(() => z, z); for (const k in z) h(k, z, a); \x7d"

/-- The script with its declared values and calls wrapped. -/
def loopingCode : String :=
  "for (var [a = function () \x7b\n  var z = new Proxy.Variable();\n\x7d] of " ++
    "g(new Proxy.Function(x => x))) \x7b\n" ++
    "  let z = new Proxy.Variable(f(new Proxy.Function(() => z), z.get()));\n" ++
    "  for (const k in z) h(k, z.get(), a);\n\x7d\n"

/-- Of the declarators in the heads only the one inside the function is wrapped. -/
theorem wrapAll_eq_classified_loops :
    ∃ n C, parse loopingScript = .ok n ∧ ({} : ProxyNames).Classifies n.variableNames C ∧
      (({} : ProxyNames).wrapAll true n).1 = C false n ∧ (C false n).code {} = loopingCode := by
  obtain ⟨n, hparse, hcheck⟩ := exists_of_parse_any
    (show (parse loopingScript).toOption.any
      (fun n => (({} : ProxyNames).wrapAll true n).1.code {} == loopingCode) = true by
        rw [show parse loopingScript = _ from parse_ofList_append _ _]
        decide +kernel)
  obtain ⟨⟨C, hC⟩, hall⟩ := wrapAll_eq_classified hparse {} true
  refine ⟨n, C, hparse, hC, hall C hC, ?_⟩
  rw [← hall C hC]
  exact beq_iff_eq.1 hcheck

end BindingProxy
