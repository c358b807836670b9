import BindingProxy.Proxy.Counted
import BindingProxy.Tree.Walk
import Mathlib.Data.List.Forall2

/-!
# Rebuilt trees

A pass rebuilds a tree from its leaves upwards: every node is given its rebuilt children and is then
handed to a rule.  This file says what that means for the result.

`children_withChildren` is the law of `withChildren` that everything else rests on: a node that is
given as many children as it has holds exactly these.  `rebuild_induction` passes a relation between
a tree and its rebuilt form from the children to their parent, and `rebuildM_eq_pure` says when a
pass changes nothing.  `Everywhere` speaks of all nodes of a tree at once and is taken apart along
the children.
-/

namespace BindingProxy

namespace Node

/-! ### Filling the places of a node

The places of a node are filled one after another.  `TakesAfter view before p k` describes a rest of
this work: it takes `k` nodes from the front of a supply, and in the view of what is built they
follow the nodes `before`, which fill the earlier places. -/

/-- A way of filling places takes `k` nodes from the front of a supply, and they follow `before` in
the view of what it builds. -/
def TakesAfter {α : Type} (view : α → List Node) (before : List Node) (p : Supply α) (k : Nat) :
    Prop :=
  ∀ supply, k ≤ supply.length →
    view (p supply).1 = before ++ supply.take k ∧ (p supply).2 = supply.drop k

namespace TakesAfter

variable {α β : Type} {view : β → List Node} {before : List Node} {k l : Nat}

/-- Places that are filled first come first in the view. -/
lemma bind {part : α → List Node} {p : Supply α} {f : α → Supply β} (hp : TakesAfter part [] p k)
    (hf : ∀ a, TakesAfter view (before ++ part a) (f a) l) :
    TakesAfter view before (p >>= f) (k + l) := by
  intro supply h
  obtain ⟨hvalue, hrest⟩ := hp supply (by omega)
  have hlength : l ≤ (p supply).2.length := by rw [hrest, List.length_drop]; omega
  obtain ⟨hvalue', hrest'⟩ := hf (p supply).1 (p supply).2 hlength
  rw [supply_bind]
  constructor
  · rw [hvalue', hvalue, hrest, List.nil_append, List.append_assoc, ← List.take_add]
  · rw [hrest', hrest, List.drop_drop]

/-- What takes nothing has all its places filled. -/
lemma pure {b : β} (h : view b = before) : TakesAfter view before (Pure.pure b) 0 := by
  intro supply _
  simp [supply_pure, h]

/-- One place takes one node. -/
lemma single (old : Node) : TakesAfter (fun n => [n]) [] (fill old) 1 := by
  intro supply h
  cases supply with
  | nil => simp at h
  | cons n supply => exact ⟨rfl, rfl⟩

/-- A place that may be missing takes one node if it is there. -/
lemma option (o : Option Node) :
    TakesAfter Option.toList [] (Node.fillOption o) o.toList.length := by
  intro supply h
  cases o with
  | none => exact ⟨rfl, rfl⟩
  | some old =>
    cases supply with
    | nil => simp at h
    | cons n supply => exact ⟨rfl, rfl⟩

/-- A list of places takes one node for each. -/
lemma list (ns : List Node) : TakesAfter id [] (Node.fillList ns) ns.length := by
  induction ns with
  | nil => exact pure rfl
  | cons old ns ih =>
    have h : (old :: ns).length = 1 + (ns.length + 0) := by simp [Nat.add_comm]
    rw [h]
    exact (single old).bind fun n => ih.bind fun ns => pure rfl

/-- A list of places with holes takes one node for each place that is no hole. -/
lemma holes (es : List (Option Node)) :
    TakesAfter (List.filterMap id) [] (Node.fillHoles es) (es.filterMap id).length := by
  induction es with
  | nil => exact pure rfl
  | cons o es ih =>
    have h : ((o :: es).filterMap id).length = o.toList.length + ((es.filterMap id).length + 0) := by
      cases o <;> simp [Nat.add_comm]
    rw [h]
    refine (option o).bind fun o => ih.bind fun es => pure ?_
    cases o <;> simp

/-! Fillings at the head of a longer one. -/

lemma fill {old : Node} {f : Node → Supply β}
    (hf : ∀ n, TakesAfter view (before ++ [n]) (f n) l) :
    TakesAfter view before (Node.fill old >>= f) (1 + l) :=
  (single old).bind hf

lemma fillOption {o : Option Node} {f : Option Node → Supply β}
    (hf : ∀ o, TakesAfter view (before ++ o.toList) (f o) l) :
    TakesAfter view before (Node.fillOption o >>= f) (o.toList.length + l) :=
  (option o).bind hf

lemma fillList {ns : List Node} {f : List Node → Supply β}
    (hf : ∀ ns, TakesAfter view (before ++ ns) (f ns) l) :
    TakesAfter view before (Node.fillList ns >>= f) (ns.length + l) :=
  (list ns).bind hf

lemma fillHoles {es : List (Option Node)} {f : List (Option Node) → Supply β}
    (hf : ∀ es, TakesAfter view (before ++ es.filterMap id) (f es) l) :
    TakesAfter view before (Node.fillHoles es >>= f) ((es.filterMap id).length + l) :=
  (holes es).bind hf

end TakesAfter

/-- A node takes as many nodes as it has children, and these are then its children. -/
lemma refill_takes (n : Node) : TakesAfter children [] n.refill n.children.length := by
  have cast : ∀ k, k = n.children.length → TakesAfter children [] n.refill k →
      TakesAfter children [] n.refill n.children.length := fun k h => h ▸ id
  -- The places are filled in the order in which `children` lists them, whatever the kind of node.
  cases n
  all_goals
    apply cast
    rotate_left
    · simp only [refill]
      repeat' first
        | (apply TakesAfter.fill; intro _)
        | (apply TakesAfter.fillOption; intro _)
        | (apply TakesAfter.fillList; intro _)
        | (apply TakesAfter.fillHoles; intro _)
        | exact TakesAfter.pure
            (by simp only [children, List.nil_append, List.append_assoc, List.cons_append])
    · simp only [children, List.length_append, List.length_cons, List.length_nil,
        Nat.add_zero] <;> omega

/-- A node that is given as many children as it has holds exactly these. -/
theorem children_withChildren (n : Node) {cs : List Node} (h : cs.length = n.children.length) :
    (n.withChildren cs).children = cs := by
  have hview := (refill_takes n cs (Nat.le_of_eq h.symm)).1
  rw [← h, List.nil_append, List.take_length] at hview
  exact hview

/-! ### Filling the places a second time

What stood in the places before does not matter as long as there is a node for each of them, so
filling them twice is filling them with the second nodes. -/

/-- Two ways of filling places that take `k` nodes from the front of a supply and build the same. -/
def FillsAlike {α : Type} (p q : Supply α) (k : Nat) : Prop :=
  ∀ supply, k ≤ supply.length → p supply = q supply ∧ (q supply).2 = supply.drop k

namespace FillsAlike

variable {α β : Type} {k l : Nat}

lemma bind {p q : Supply α} {f g : α → Supply β} (hp : FillsAlike p q k)
    (hf : ∀ a, FillsAlike (f a) (g a) l) : FillsAlike (p >>= f) (q >>= g) (k + l) := by
  intro supply h
  obtain ⟨hvalue, hrest⟩ := hp supply (by omega)
  have hlength : l ≤ (q supply).2.length := by rw [hrest, List.length_drop]; omega
  obtain ⟨hvalue', hrest'⟩ := hf (q supply).1 (q supply).2 hlength
  rw [supply_bind, supply_bind, hvalue]
  exact ⟨hvalue', by rw [hrest', hrest, List.drop_drop]⟩

lemma pure (b : β) : FillsAlike (Pure.pure b) (Pure.pure b) 0 :=
  fun _ _ => ⟨rfl, rfl⟩

lemma single (old old' : Node) : FillsAlike (Node.fill old) (Node.fill old') 1 := by
  intro supply h
  cases supply with
  | nil => simp at h
  | cons n supply => exact ⟨rfl, rfl⟩

lemma option {o o' : Option Node} (h : o.isSome = o'.isSome) :
    FillsAlike (Node.fillOption o) (Node.fillOption o') o'.toList.length := by
  intro supply hlength
  cases o' with
  | none =>
    cases o with
    | none => exact ⟨rfl, rfl⟩
    | some old => cases h
  | some old' =>
    cases o with
    | none => cases h
    | some old =>
      cases supply with
      | nil => simp at hlength
      | cons n supply => exact ⟨rfl, rfl⟩

lemma list {ns ns' : List Node} (h : ns.length = ns'.length) :
    FillsAlike (Node.fillList ns) (Node.fillList ns') ns'.length := by
  induction ns' generalizing ns with
  | nil =>
    cases ns with
    | nil => exact pure []
    | cons n ns => cases h
  | cons old' ns' ih =>
    cases ns with
    | nil => cases h
    | cons old ns =>
      have hcount : (old' :: ns').length = 1 + (ns'.length + 0) := by simp [Nat.add_comm]
      rw [hcount]
      exact (single old old').bind fun n => (ih (Nat.succ.inj h)).bind fun ns => pure _

lemma holes {es es' : List (Option Node)} (h : es.map Option.isSome = es'.map Option.isSome) :
    FillsAlike (Node.fillHoles es) (Node.fillHoles es') (es'.filterMap id).length := by
  induction es' generalizing es with
  | nil =>
    cases es with
    | nil => exact pure []
    | cons o es => cases h
  | cons o' es' ih =>
    cases es with
    | nil => cases h
    | cons o es =>
      obtain ⟨ho, hes⟩ := List.cons.inj h
      have hcount : ((o' :: es').filterMap id).length =
          o'.toList.length + ((es'.filterMap id).length + 0) := by
        cases o' <;> simp [Nat.add_comm]
      rw [hcount]
      exact (option ho).bind fun o => (ih hes).bind fun es => pure _

end FillsAlike

@[simp]
lemma isSome_fillOption (o : Option Node) (supply : List Node) :
    (fillOption o supply).1.isSome = o.isSome := by
  cases o <;> rfl

@[simp]
lemma length_fillList (ns supply : List Node) : (fillList ns supply).1.length = ns.length := by
  induction ns generalizing supply with
  | nil => rfl
  | cons n ns ih => exact congrArg (· + 1) (ih _)

@[simp]
lemma isSome_fillHoles (es : List (Option Node)) (supply : List Node) :
    (fillHoles es supply).1.map Option.isSome = es.map Option.isSome := by
  induction es generalizing supply with
  | nil => rfl
  | cons o es ih => exact congrArg₂ List.cons (isSome_fillOption o supply) (ih _)

/-- The places of a node are the same whatever they are filled with. -/
lemma refill_withChildren (n : Node) (cs : List Node) :
    FillsAlike (n.withChildren cs).refill n.refill n.children.length := by
  have cast : ∀ k, k = n.children.length → FillsAlike (n.withChildren cs).refill n.refill k →
      FillsAlike (n.withChildren cs).refill n.refill n.children.length := fun k h => h ▸ id
  cases n
  all_goals
    apply cast
    rotate_left
    · simp only [refill, withChildren, StateT.run, supply_bind, supply_pure]
      repeat' first
        | (apply (FillsAlike.single _ _).bind; intro _)
        | (apply (FillsAlike.option (isSome_fillOption _ _)).bind; intro _)
        | (apply (FillsAlike.list (length_fillList _ _)).bind; intro _)
        | (apply (FillsAlike.holes (isSome_fillHoles _ _)).bind; intro _)
        | exact FillsAlike.pure _
    · simp only [children, List.length_append, List.length_cons, List.length_nil,
        Nat.add_zero] <;> omega

/-- Only the last children that a node is given count. -/
theorem withChildren_withChildren (n : Node) (cs : List Node) {ds : List Node}
    (h : ds.length = n.children.length) :
    (n.withChildren cs).withChildren ds = n.withChildren ds :=
  congrArg Prod.fst (refill_withChildren n cs ds (Nat.le_of_eq h.symm)).1

/-- A construction with another callee and as many arguments. -/
lemma withChildren_construction {callee callee' : Node} {arguments arguments' : List Node}
    (h : arguments'.length = arguments.length) :
    (construction callee arguments).withChildren (callee' :: arguments') =
      construction callee' arguments' := by
  obtain ⟨x, xs, hx⟩ : ∃ x xs, (construction callee arguments).withChildren
      (callee' :: arguments') = construction x xs := ⟨_, _, rfl⟩
  have hlength : (callee' :: arguments').length = (construction callee arguments).children.length := by
    simp [children, h]
  have hchildren := children_withChildren _ hlength
  rw [hx] at hchildren
  cases hchildren
  exact hx

/-- A function with another body and as many parameters. -/
lemma withChildren_function {role : Role} {id : Option String} {params params' : List Node}
    {body body' : Node} {isAsync isGenerator : Bool} (h : params'.length = params.length) :
    (function role id params body isAsync isGenerator).withChildren (params' ++ [body']) =
      function role id params' body' isAsync isGenerator := by
  obtain ⟨xs, x, hx⟩ : ∃ xs x, (function role id params body isAsync isGenerator).withChildren
      (params' ++ [body']) = function role id xs x isAsync isGenerator := ⟨_, _, rfl⟩
  have hlength : (params' ++ [body']).length =
      (function role id params body isAsync isGenerator).children.length := by
    simp [children, h]
  have hchildren := children_withChildren _ hlength
  rw [hx] at hchildren
  obtain ⟨rfl, hbody⟩ := List.append_inj' hchildren rfl
  cases hbody
  exact hx

/-- Other children do not change a plain name. -/
lemma name?_withChildren (n : Node) (cs : List Node) : (n.withChildren cs).name? = n.name? := by
  cases n <;> rfl

/-! ### All nodes of a tree -/

/-- A property of every node of a tree. -/
def Everywhere (P : Node → Prop) (n : Node) : Prop := ∀ m ∈ n.walk, P m

section Everywhere

variable {P Q : Node → Prop} {n : Node}

/-- A property holds everywhere in a tree if it holds at its root and everywhere in the children. -/
lemma everywhere_iff : Everywhere P n ↔ P n ∧ ∀ c ∈ n.children, Everywhere P c := by
  rw [Everywhere, walk_eq]
  simp only [List.mem_cons, List.mem_flatMap, forall_eq_or_imp, Everywhere]
  constructor
  · rintro ⟨hroot, hbelow⟩
    exact ⟨hroot, fun c hc m hm => hbelow m ⟨c, hc, hm⟩⟩
  · rintro ⟨hroot, hbelow⟩
    exact ⟨hroot, fun m ⟨c, hc, hm⟩ => hbelow c hc m hm⟩

lemma Everywhere.root (h : Everywhere P n) : P n := (everywhere_iff.1 h).1

lemma Everywhere.child {c : Node} (h : Everywhere P n) (hc : c ∈ n.children) : Everywhere P c :=
  (everywhere_iff.1 h).2 c hc

/-- A property that holds everywhere holds everywhere below every node. -/
lemma Everywhere.below (h : Everywhere P n) : Everywhere (Everywhere P) n := by
  induction n using induction_on_children with
  | step n ih => exact everywhere_iff.2 ⟨h, fun c hc => ih c hc (h.child hc)⟩

/-- A property that holds everywhere holds of the children of every node. -/
lemma Everywhere.children (h : Everywhere P n) :
    Everywhere (fun m => ∀ c ∈ m.children, P c) n :=
  fun m hm _ hc => ((h.below m hm).child hc).root

lemma Everywhere.mono (h : Everywhere P n) (hPQ : ∀ m, P m → Q m) : Everywhere Q n :=
  fun m hm => hPQ m (h m hm)

end Everywhere

end Node

/-! ### Counted passes -/

namespace Counted

variable {α β : Type}

/-- Counted steps over a list give the values of the single steps. -/
lemma value_mapM (f : α → Counted β) (as : List α) :
    (as.mapM f).value = as.map fun a => (f a).value := by
  induction as with
  | nil => rfl
  | cons a as ih => rw [List.mapM_cons, value_bind, value_bind, value_pure, ih, List.map_cons]

/-- Steps that change nothing change nothing together. -/
lemma mapM_eq_pure {f : α → Counted α} {as : List α} (h : ∀ a ∈ as, f a = pure a) :
    as.mapM f = pure as := by
  induction as with
  | nil => rfl
  | cons a as ih =>
    rw [List.mapM_cons, h a List.mem_cons_self, ih fun b hb => h b (List.mem_cons_of_mem a hb)]
    simp

end Counted

/-- A rebuilt child comes from a child. -/
lemma exists_of_mem_right {α β : Type} {R : α → β → Prop} {as : List α} {bs : List β}
    (h : List.Forall₂ R as bs) {b : β} (hb : b ∈ bs) : ∃ a ∈ as, R a b := by
  induction h with
  | nil => cases hb
  | cons hab _ ih =>
    rcases List.mem_cons.1 hb with rfl | hb
    · exact ⟨_, List.mem_cons_self, hab⟩
    · obtain ⟨a, ha, hR⟩ := ih hb
      exact ⟨a, List.mem_cons_of_mem _ ha, hR⟩

/-- Lists of items with the same values. -/
lemma map_of_forall₂ {α β : Type} {f : α → β} {as bs : List α}
    (h : List.Forall₂ (fun a b => f b = f a) as bs) : bs.map f = as.map f := by
  induction h with
  | nil => rfl
  | cons hab _ ih => rw [List.map_cons, List.map_cons, hab, ih]

/-- Lists that come from items with the same values. -/
lemma flatMap_of_forall₂ {α β : Type} {f : α → List β} {as bs : List α}
    (h : List.Forall₂ (fun a b => f b = f a) as bs) : bs.flatMap f = as.flatMap f := by
  rw [List.flatMap_def, List.flatMap_def, map_of_forall₂ h]

namespace Node

variable {f : Option NodeKind → Node → Counted Node}

/-- The tree that a counted pass leaves. -/
lemma value_rebuildM (parent : Option NodeKind) (n : Node) :
    (rebuildM f parent n).value =
      (f parent (n.withChildren
        (n.children.map fun c => (rebuildM f (some n.kind) c).value))).value := by
  rw [rebuildM_eq, Counted.value_bind, Counted.value_mapM]

/-- What a rule hands on from the rebuilt children to their parent holds of the whole rebuilt
tree. -/
lemma rebuild_induction {P : Option NodeKind → Node → Node → Prop}
    (step : ∀ parent n cs, List.Forall₂ (P (some n.kind)) n.children cs →
      P parent n (f parent (n.withChildren cs)).value)
    (parent : Option NodeKind) (n : Node) : P parent n (rebuildM f parent n).value := by
  induction n using induction_on_children generalizing parent with
  | step n ih =>
    rw [value_rebuildM]
    refine step parent n _ ?_
    rw [List.forall₂_map_right_iff, List.forall₂_same]
    exact fun c hc => ih c hc _

/-- A pass whose rule leaves every node of a tree alone leaves the tree alone. -/
lemma rebuildM_eq_pure {parent : Option NodeKind} {n : Node} (hroot : f parent n = pure n)
    (hbelow : Everywhere (fun m => ∀ c ∈ m.children, f (some m.kind) c = pure c) n) :
    rebuildM f parent n = pure n := by
  induction n using induction_on_children generalizing parent with
  | step n ih =>
    have hchildren : n.children.mapM (rebuildM f (some n.kind)) = pure n.children := by
      refine Counted.mapM_eq_pure fun c hc => ?_
      exact ih c hc (hbelow.root c hc) (hbelow.child hc)
    rw [rebuildM_eq, hchildren, pure_bind, withChildren_children, hroot]

end Node

end BindingProxy
