import BindingProxy.Proofs.Tree.Rebuild

/-!
# Scopes

A function has a scope of its own, which says whether it is async and whether it is a generator.
The scope of a node is found from the root downwards: the parameters and the body of a function
stand in its scope, the body of an arrow function in one that is no generator, and all other nodes
where their parents stand, the parameters of arrow functions among them.

`walkIn` meets the nodes of a tree in their order, each with its scope.  `EverywhereIn` speaks of all
of them at once; it is taken apart along the children, with one rule for functions, one for arrow
functions and one for all other nodes.
-/

namespace BindingProxy

/-- What the innermost function around a node is. -/
structure Scope where
  inAsync : Bool := false
  inGenerator : Bool := false
deriving Repr, DecidableEq, Inhabited

namespace Node

/-- The scopes of the children of a node that stands in a scope itself. -/
def childScopes (s : Scope) : Node → List Scope
  | function _ _ params _ isAsync isGenerator =>
    List.replicate (params.length + 1) ⟨isAsync, isGenerator⟩
  | arrow params _ _ isAsync => List.replicate params.length s ++ [⟨isAsync, false⟩]
  | n => List.replicate n.children.length s

/-- The children of a node with their scopes. -/
def scopedChildren (s : Scope) (n : Node) : List (Scope × Node) := (n.childScopes s).zip n.children

/-- The nodes of a tree that stands in a scope, each with its own scope and before its children. -/
def walkIn : Node → Scope → List (Scope × Node) :=
  fold fun n below s => (s, n) :: (List.zipWith (fun s walk => walk s) (n.childScopes s) below).flatten

/-- Whether a node gives some of its children another scope than its own. -/
def opensScope : Node → Bool
  | function _ _ _ _ _ _ | arrow _ _ _ _ => true
  | _ => false

/-! ### Scopes of children -/

@[simp]
lemma length_childScopes (s : Scope) (n : Node) : (n.childScopes s).length = n.children.length := by
  cases n <;> simp [childScopes, children]

lemma childScopes_of_not_opensScope {n : Node} (h : n.opensScope = false) (s : Scope) :
    n.childScopes s = List.replicate n.children.length s := by
  cases n with
  | function => cases h
  | arrow => cases h
  | _ => rfl

/-- Other children, as many as before, stand in the same scopes. -/
lemma childScopes_withChildren {n : Node} {cs : List Node} (h : cs.length = n.children.length)
    (s : Scope) : (n.withChildren cs).childScopes s = n.childScopes s := by
  cases n with
  | function role id params body isAsync isGenerator =>
    have hparams := length_fillList params cs
    exact congrArg (fun k => List.replicate (k + 1) (⟨isAsync, isGenerator⟩ : Scope)) hparams
  | arrow params body concise isAsync =>
    have hparams := length_fillList params cs
    exact congrArg (fun k => List.replicate k s ++ [(⟨isAsync, false⟩ : Scope)]) hparams
  | _ =>
    rw [childScopes_of_not_opensScope rfl, childScopes_of_not_opensScope rfl,
      children_withChildren _ h, h]

/-- A list paired with copies of one value. -/
lemma mem_zip_replicate {α β : Type} {a : α} {bs : List β} {p : α × β} :
    p ∈ (List.replicate bs.length a).zip bs ↔ p.1 = a ∧ p.2 ∈ bs := by
  induction bs with
  | nil => simp
  | cons b bs ih =>
    simp only [List.length_cons, List.replicate_succ, List.zip_cons_cons, List.mem_cons, ih,
      Prod.ext_iff]
    tauto

lemma mem_scopedChildren {n : Node} (h : n.opensScope = false) {s : Scope} {p : Scope × Node} :
    p ∈ n.scopedChildren s ↔ p.1 = s ∧ p.2 ∈ n.children := by
  rw [scopedChildren, childScopes_of_not_opensScope h, mem_zip_replicate]

lemma mem_scopedChildren_function {role : Role} {id : Option String} {params : List Node}
    {body : Node} {isAsync isGenerator : Bool} {s : Scope} {p : Scope × Node} :
    p ∈ (function role id params body isAsync isGenerator).scopedChildren s ↔
      p.1 = ⟨isAsync, isGenerator⟩ ∧ p.2 ∈ params ++ [body] := by
  have hlength : params.length + 1 = (params ++ [body]).length := by simp
  rw [scopedChildren, childScopes, children, hlength, mem_zip_replicate]

lemma mem_scopedChildren_arrow {params : List Node} {body : Node} {concise isAsync : Bool}
    {s : Scope} {p : Scope × Node} :
    p ∈ (arrow params body concise isAsync).scopedChildren s ↔
      (p.1 = s ∧ p.2 ∈ params) ∨ p = (⟨isAsync, false⟩, body) := by
  rw [scopedChildren, childScopes, children, List.zip_append (by simp), List.mem_append,
    mem_zip_replicate]
  simp

/-! ### Walking with scopes -/

/-- A tree is walked by meeting its root and walking its children in their scopes. -/
lemma walkIn_eq (n : Node) (s : Scope) :
    n.walkIn s = (s, n) :: (n.scopedChildren s).flatMap fun p => p.2.walkIn p.1 := by
  rw [walkIn, fold_eq, List.zipWith_map_right, List.flatMap_def, scopedChildren,
    ← List.map_uncurry_zip_eq_zipWith]
  rfl

/-- The nodes that are met are those of the tree, in their order. -/
lemma map_snd_walkIn (n : Node) (s : Scope) : (n.walkIn s).map Prod.snd = n.walk := by
  induction n using induction_on_children generalizing s with
  | step n ih =>
    have hbelow : (n.scopedChildren s).map (fun p => (p.2.walkIn p.1).map Prod.snd) =
        (n.scopedChildren s).map fun p => p.2.walk := by
      refine List.map_congr_left fun p hp => ih p.2 ?_ p.1
      exact (List.of_mem_zip hp).2
    have hsnd : (n.scopedChildren s).map Prod.snd = n.children :=
      List.map_snd_zip (by simp)
    rw [walkIn_eq, walk_eq, List.map_cons, List.map_flatMap, List.flatMap_def, hbelow,
      List.flatMap_def, ← hsnd, List.map_map]
    rfl

/-- A property of every node of a tree together with its scope. -/
def EverywhereIn (P : Scope → Node → Prop) (s : Scope) (n : Node) : Prop :=
  ∀ p ∈ n.walkIn s, P p.1 p.2

section EverywhereIn

variable {P Q : Scope → Node → Prop} {s : Scope} {n : Node}

lemma everywhereIn_iff :
    EverywhereIn P s n ↔ P s n ∧ ∀ p ∈ n.scopedChildren s, EverywhereIn P p.1 p.2 := by
  rw [EverywhereIn, walkIn_eq]
  simp only [List.mem_cons, List.mem_flatMap, forall_eq_or_imp, EverywhereIn]
  constructor
  · rintro ⟨hroot, hbelow⟩
    exact ⟨hroot, fun q hq p hp => hbelow p ⟨q, hq, hp⟩⟩
  · rintro ⟨hroot, hbelow⟩
    exact ⟨hroot, fun p ⟨q, hq, hp⟩ => hbelow q hq p hp⟩

lemma EverywhereIn.root (h : EverywhereIn P s n) : P s n := (everywhereIn_iff.1 h).1

lemma EverywhereIn.mono (h : EverywhereIn P s n) (hPQ : ∀ s m, P s m → Q s m) :
    EverywhereIn Q s n :=
  fun p hp => hPQ p.1 p.2 (h p hp)

/-- What holds everywhere whatever the scope holds everywhere. -/
lemma EverywhereIn.everywhere {R : Node → Prop} (h : EverywhereIn (fun _ => R) s n) :
    Everywhere R n := by
  intro m hm
  rw [← map_snd_walkIn n s] at hm
  obtain ⟨p, hp, rfl⟩ := List.mem_map.1 hm
  exact h p hp

/-- Nodes that open no scope. -/
lemma everywhereIn_iff_of_not_opensScope (h : n.opensScope = false) :
    EverywhereIn P s n ↔ P s n ∧ ∀ c ∈ n.children, EverywhereIn P s c := by
  rw [everywhereIn_iff]
  refine and_congr_right fun _ => ⟨fun hbelow c hc => ?_, fun hbelow p hp => ?_⟩
  · exact hbelow (s, c) ((mem_scopedChildren h).2 ⟨rfl, hc⟩)
  · obtain ⟨hs, hc⟩ := (mem_scopedChildren h).1 hp
    rw [hs]
    exact hbelow p.2 hc

lemma EverywhereIn.node (hopens : n.opensScope = false) (hroot : P s n)
    (h : ∀ c ∈ n.children, EverywhereIn P s c) : EverywhereIn P s n :=
  (everywhereIn_iff_of_not_opensScope hopens).2 ⟨hroot, h⟩

lemma everywhereIn_function_iff {role : Role} {id : Option String} {params : List Node}
    {body : Node} {isAsync isGenerator : Bool} :
    EverywhereIn P s (function role id params body isAsync isGenerator) ↔
      P s (function role id params body isAsync isGenerator) ∧
        ∀ c ∈ params ++ [body], EverywhereIn P ⟨isAsync, isGenerator⟩ c := by
  rw [everywhereIn_iff]
  refine and_congr_right fun _ => ⟨fun hbelow c hc => ?_, fun hbelow p hp => ?_⟩
  · exact hbelow (⟨isAsync, isGenerator⟩, c) (mem_scopedChildren_function.2 ⟨rfl, hc⟩)
  · obtain ⟨hs, hc⟩ := mem_scopedChildren_function.1 hp
    rw [hs]
    exact hbelow p.2 hc

lemma everywhereIn_arrow_iff {params : List Node} {body : Node} {concise isAsync : Bool} :
    EverywhereIn P s (arrow params body concise isAsync) ↔
      P s (arrow params body concise isAsync) ∧ (∀ c ∈ params, EverywhereIn P s c) ∧
        EverywhereIn P ⟨isAsync, false⟩ body := by
  rw [everywhereIn_iff]
  refine and_congr_right fun _ => ⟨fun hbelow => ⟨fun c hc => ?_, ?_⟩, fun hbelow p hp => ?_⟩
  · exact hbelow (s, c) (mem_scopedChildren_arrow.2 (.inl ⟨rfl, hc⟩))
  · exact hbelow (⟨isAsync, false⟩, body) (mem_scopedChildren_arrow.2 (.inr rfl))
  · rcases mem_scopedChildren_arrow.1 hp with ⟨hs, hc⟩ | rfl
    · rw [hs]
      exact hbelow.1 p.2 hc
    · exact hbelow.2

/-- A node keeps a property everywhere if its children keep it in whatever scope they stand. -/
lemma everywhereIn_withChildren {cs : List Node}
    (hroot : P s n → P s (n.withChildren cs))
    (h : List.Forall₂ (fun c d => ∀ s, EverywhereIn P s c → EverywhereIn P s d) n.children cs)
    (hn : EverywhereIn P s n) : EverywhereIn P s (n.withChildren cs) := by
  have hlength := h.length_eq.symm
  obtain ⟨hP, hbelow⟩ := everywhereIn_iff.1 hn
  refine everywhereIn_iff.2 ⟨hroot hP, ?_⟩
  rw [scopedChildren, childScopes_withChildren hlength, children_withChildren n hlength]
  rw [scopedChildren] at hbelow
  -- The scopes stay where they are while the children beside them change.
  have hzip : ∀ (scopes : List Scope) {as bs : List Node},
      List.Forall₂ (fun c d => ∀ s, EverywhereIn P s c → EverywhereIn P s d) as bs →
      (∀ p ∈ scopes.zip as, EverywhereIn P p.1 p.2) →
        ∀ p ∈ scopes.zip bs, EverywhereIn P p.1 p.2 := by
    intro scopes as bs hab has
    induction hab generalizing scopes with
    | nil => simp
    | cons hcd _ ih =>
      cases scopes with
      | nil => simp
      | cons t scopes =>
        rw [List.zip_cons_cons, List.forall_mem_cons] at has ⊢
        exact ⟨hcd t has.1, ih scopes has.2⟩
  exact hzip _ h hbelow

end EverywhereIn

end Node

end BindingProxy
