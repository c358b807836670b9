import BindingProxy.Tree.Replace
import BindingProxy.Proofs.Tree.Depth
import BindingProxy.Proofs.Tree.Rebuild

/-!
# Walking and replacing

A tree is walked through for reading and for rewriting, and both come past the same nodes.  `Enters`
describes a rewriting traversal without regard to the depth at which it is cut off: each node is
entered, gives way to the visitor's answer, and then the children of the answer have their turn.

A visitor that answers with ever larger nodes is never done.  One that spends some potential on every
growth of the tree is: on no way downwards there are more nodes than the height of the tree and the
potential allow.
-/

namespace BindingProxy

namespace Node

/-- A node stands in one of the fields of another. -/
def StoredIn (c : Node) : Node → Prop
  | empty | debugger | jump _ _ | identifier _ | literal _ _ | thisValue | superValue => False
  | program ns | block ns | declaration _ ns | template _ ns | object ns | objectPattern ns
  | sequence ns => c ∈ ns
  | array elements | arrayPattern elements => some c ∈ elements
  | returning argument | yielding argument _ => argument = some c
  | expressionStatement n | throwing n | labeled _ n | unary _ n | update _ _ n | spread n
  | awaiting n | rest n => c = n
  | whileLoop m n | doWhileLoop m n | taggedTemplate m n | property m n _ _ _ _ | method m n _ _ _
  | binary _ m n | logical _ m n | assignment _ m n | member m n _ _ | defaulted m n => c = m ∨ c = n
  | forEach _ left right body => c = left ∨ c = right ∨ c = body
  | conditional test consequent alternate => c = test ∨ c = consequent ∨ c = alternate
  | conditionalStatement test consequent alternate =>
    c = test ∨ c = consequent ∨ alternate = some c
  | forLoop init test step body => init = some c ∨ test = some c ∨ step = some c ∨ c = body
  | guarded body recovery finalizer => c = body ∨ recovery = some c ∨ finalizer = some c
  | handler param body => param = some c ∨ c = body
  | declarator id init => c = id ∨ init = some c
  | switchCase test consequent => test = some c ∨ c ∈ consequent
  | classDefinition _ _ superClass body => superClass = some c ∨ c ∈ body
  | function _ _ params body _ _ | arrow params body _ _ => c ∈ params ∨ c = body
  | switch n ns | call n ns _ | construction n ns => c = n ∨ c ∈ ns

/-- The children of a node are what stands in its fields. -/
lemma mem_children_iff_storedIn {c n : Node} : c ∈ n.children ↔ c.StoredIn n := by
  cases n <;> simp [children, StoredIn]

/-! ### Nodes with their parents -/

/-- The nodes of a tree, each with the kind of its parent and before its children. -/
def entries (parent : Option NodeKind) (n : Node) : List (Option NodeKind × Node) :=
  n.fold (fun n below parent => (parent, n) :: below.flatMap (· (some n.kind))) parent

lemma entries_eq (parent : Option NodeKind) (n : Node) :
    n.entries parent = (parent, n) :: n.children.flatMap (entries (some n.kind)) := by
  rw [entries, fold_eq, List.flatMap_map]
  rfl

lemma map_snd_entries (parent : Option NodeKind) (n : Node) :
    (n.entries parent).map Prod.snd = n.walk := by
  induction n using induction_on_children generalizing parent with
  | step n ih =>
    rw [entries_eq, walk_eq, List.map_cons, List.map_flatMap]
    congr 1
    exact List.flatMap_congr fun c hc => ih c hc _

/-- Apart from the root, the nodes are entered with the kind of a node that holds them. -/
lemma mem_entries_iff {n c : Node} {parent kind : Option NodeKind} :
    (kind, c) ∈ n.entries parent ↔
      (kind = parent ∧ c = n) ∨ ∃ m ∈ n.walk, c ∈ m.children ∧ kind = some m.kind := by
  induction n using induction_on_children generalizing parent with
  | step n ih =>
    rw [entries_eq, walk_eq, List.mem_cons, List.mem_flatMap, Prod.mk.injEq]
    refine or_congr_right ⟨?_, ?_⟩
    · rintro ⟨k, hk, hmem⟩
      rcases (ih k hk).1 hmem with ⟨rfl, rfl⟩ | ⟨m, hm, hc, rfl⟩
      · exact ⟨n, List.mem_cons_self, hk, rfl⟩
      · exact ⟨m, List.mem_cons_of_mem _ (List.mem_flatMap.2 ⟨k, hk, hm⟩), hc, rfl⟩
    · rintro ⟨m, hm, hc, rfl⟩
      rcases List.mem_cons.1 hm with rfl | hm
      · exact ⟨c, hc, (ih c hc).2 (.inl ⟨rfl, rfl⟩)⟩
      · obtain ⟨k, hk, hm⟩ := List.mem_flatMap.1 hm
        exact ⟨k, hk, (ih k hk).2 (.inr ⟨m, hm, hc, rfl⟩)⟩

end Node

/-! ### Traversals -/

variable {σ : Type}

/-- Keeps a record of the nodes that a visitor is shown, each with the kind of its parent. -/
def Visitor.recording (visit : Visitor σ) : Visitor (σ × List (Option NodeKind × Node)) :=
  fun parent n (s, entered) =>
    let (m, s) := visit parent n s
    (m, s, entered ++ [(parent, n)])

/-- The nodes of a list are entered one after the other, each before the children of what takes its
place, and there are at most `depth` of them on any way downwards. -/
inductive Enters (visit : Visitor σ) : Nat → Option NodeKind → List Node → σ →
    List (Option NodeKind × Node) → List Node → σ → Prop where
  | nil {depth parent s} : Enters visit depth parent [] s [] [] s
  | cons {depth parent n s m s₁ below cs s₂ ns after ns' s₃} (hvisit : visit parent n s = (m, s₁))
    (hbelow : Enters visit depth (some m.kind) m.children s₁ below cs s₂)
    (hafter : Enters visit (depth + 1) parent ns s₂ after ns' s₃) :
    Enters visit (depth + 1) parent (n :: ns) s ((parent, n) :: below ++ after)
      (m.withChildren cs :: ns') s₃

namespace Enters

variable {visit : Visitor σ} {depth : Nat} {parent : Option NodeKind} {n n' : Node}
  {ns ns' : List Node} {s s' : σ} {entered : List (Option NodeKind × Node)}

/-- The record of a traversal. -/
lemma recording (h : Enters visit depth parent ns s entered ns' s')
    (before : List (Option NodeKind × Node)) :
    Enters visit.recording depth parent ns (s, before) entered ns' (s', before ++ entered) := by
  induction h generalizing before with
  | nil =>
    rw [List.append_nil]
    exact .nil
  | @cons depth parent n s m s₁ below cs s₂ ns after ns' s₃ hvisit _ _ ihbelow ihafter =>
    have hroot : visit.recording parent n (s, before) = (m, s₁, before ++ [(parent, n)]) := by
      rw [Visitor.recording, hvisit]
    have hafter := ihafter (before ++ [(parent, n)] ++ below)
    have hrecord : before ++ [(parent, n)] ++ below ++ after =
        before ++ ((parent, n) :: below ++ after) := by simp
    rw [hrecord] at hafter
    exact .cons hroot (ihbelow _) hafter

lemma state_bind {α β : Type} (p : StateM σ α) (f : α → StateM σ β) (s : σ) :
    (p >>= f) s = f (p s).1 (p s).2 := rfl

/-- A traversal with enough depth is not cut off. -/
lemma mapM_replaceWithin (h : Enters visit depth parent ns s entered ns' s') {d : Nat}
    (hd : depth ≤ d) : ns.mapM (Node.replaceWithin visit d parent) s = (ns', s') := by
  induction h generalizing d with
  | nil => rfl
  | @cons depth parent n s m s₁ _ cs s₂ ns _ ns' s₃ hvisit _ _ ihbelow ihafter =>
    obtain ⟨d, rfl⟩ : ∃ k, d = k + 1 := ⟨d - 1, by omega⟩
    have hroot : n.replaceWithin visit (d + 1) parent s = (m.withChildren cs, s₂) := by
      rw [Node.replaceWithin, state_bind, hvisit, state_bind, ihbelow (Nat.le_of_succ_le_succ hd)]
      rfl
    rw [List.mapM_cons, state_bind, hroot, state_bind, ihafter hd]
    rfl

lemma replaceWithin (h : Enters visit depth parent [n] s entered [n'] s') {d : Nat}
    (hd : depth ≤ d) : n.replaceWithin visit d parent s = (n', s') := by
  have hrun := h.mapM_replaceWithin hd
  rw [List.mapM_cons, state_bind, state_bind] at hrun
  obtain ⟨hnode, hstate⟩ := Prod.mk.inj hrun
  exact Prod.ext (List.cons.inj hnode).1 hstate

/-- One node takes the place of one. -/
lemma exists_single (h : Enters visit depth parent [n] s entered ns' s') : ∃ n', ns' = [n'] := by
  cases h with
  | cons _ _ hafter =>
    cases hafter
    exact ⟨_, rfl⟩

/-- A visitor that changes no node enters all of them. -/
lemma unchanged (hvisit : ∀ parent m s, (visit parent m s).1 = m)
    (h : Enters visit depth parent ns s entered ns' s') :
    ns' = ns ∧ entered = ns.flatMap (Node.entries parent) := by
  induction h with
  | nil => exact ⟨rfl, rfl⟩
  | @cons _ parent n s m _ _ _ _ _ _ _ _ hroot _ _ ihbelow ihafter =>
    obtain rfl : n = m := by rw [← hvisit parent n s, hroot]
    obtain ⟨rfl, rfl⟩ := ihbelow
    obtain ⟨rfl, rfl⟩ := ihafter
    rw [Node.withChildren_children, List.flatMap_cons, Node.entries_eq]
    exact ⟨rfl, rfl⟩

/-- A visitor that pays for each growth of the tree with a potential is done at a depth that the
height of the tree and the potential allow. -/
lemma exists_of_potential (potential : σ → Nat)
    (hvisit : ∀ parent n s, (visit parent n s).1.height + potential (visit parent n s).2 ≤
      n.height + potential s ∧ potential (visit parent n s).2 ≤ potential s)
    (parent : Option NodeKind) (hdepth : ∀ n ∈ ns, n.height + potential s ≤ depth) :
    ∃ entered ns' s', Enters visit depth parent ns s entered ns' s' ∧ potential s' ≤ potential s := by
  induction depth generalizing parent ns s with
  | zero =>
    cases ns with
    | nil => exact ⟨[], [], s, .nil, Nat.le_refl _⟩
    | cons n ns =>
      have hn := hdepth n List.mem_cons_self
      rw [n.height_eq] at hn
      omega
  | succ depth ih =>
    induction ns generalizing s with
    | nil => exact ⟨[], [], s, .nil, Nat.le_refl _⟩
    | cons n ns ihns =>
      have hn := hdepth n List.mem_cons_self
      have hspent := hvisit parent n s
      rcases hroot : visit parent n s with ⟨m, s₁⟩
      simp only [hroot] at hspent
      have hchildren : ∀ c ∈ m.children, c.height + potential s₁ ≤ depth := by
        intro c hc
        have hlt := Node.height_lt_of_mem_children hc
        omega
      obtain ⟨below, cs, s₂, hbelow, hspent₂⟩ := ih (some m.kind) hchildren
      have hothers : ∀ k ∈ ns, k.height + potential s₂ ≤ depth + 1 := by
        intro k hk
        have hk := hdepth k (List.mem_cons_of_mem _ hk)
        omega
      obtain ⟨after, ns', s₃, hafter, hspent₃⟩ := ihns hothers
      exact ⟨_, _, s₃, .cons hroot hbelow hafter, by omega⟩

end Enters

namespace SubstitutionRule

/-- Each replacement that is still allowed may add the height of the highest one. -/
def potential (rules : List SubstitutionRule) (limit : Nat) (log : SubstitutionLog) : Nat :=
  (limit - log.replaced) * (rules.map (·.replacement.height)).foldr max 0

lemma height_visitor (rules : List SubstitutionRule) (limit : Nat) (parent : Option NodeKind)
    (n : Node) (log : SubstitutionLog) :
    (visitor rules limit parent n log).1.height +
          potential rules limit (visitor rules limit parent n log).2 ≤
        n.height + potential rules limit log ∧
      potential rules limit (visitor rules limit parent n log).2 ≤ potential rules limit log := by
  rw [visitor]
  split
  · exact ⟨Nat.le_refl _, Nat.le_refl _⟩
  next hlimit =>
  split
  · exact ⟨Nat.le_refl _, Nat.le_refl _⟩
  · next r hr =>
    have hheight : r.replacement.height ≤ (rules.map (·.replacement.height)).foldr max 0 := by
      refine Node.foldr_max_le_iff.1 (Nat.le_refl _) _ (List.mem_map.2 ⟨r, ?_, rfl⟩)
      exact List.mem_of_find?_eq_some hr
    have hleft : limit - log.replaced = limit - (log.replaced + 1) + 1 := by
      simp only at hlimit
      omega
    have hspent : potential rules limit log =
        (limit - (log.replaced + 1)) * (rules.map (·.replacement.height)).foldr max 0 +
          (rules.map (·.replacement.height)).foldr max 0 := by
      rw [potential, hleft, Nat.succ_mul]
    simp only [potential] at hspent ⊢
    omega

/-- A substitution is not cut off. -/
lemma enters_substitute (rules : List SubstitutionRule) (limit : Nat) (n : Node) :
    ∃ entered, Enters (visitor rules limit) (depthBound rules limit n) none [n] {} entered
      [(substitute rules limit n).1] (substitute rules limit n).2 := by
  have hdepth : ∀ m ∈ [n], m.height + potential rules limit {} ≤ depthBound rules limit n :=
    List.forall_mem_singleton.2 (Nat.le_refl _)
  obtain ⟨entered, ns', log, henters, -⟩ :=
    Enters.exists_of_potential (potential rules limit) (height_visitor rules limit) none hdepth
  obtain ⟨n', rfl⟩ := henters.exists_single
  have hrun : substitute rules limit n = (n', log) := henters.replaceWithin (Nat.le_refl _)
  rw [hrun]
  exact ⟨entered, henters⟩

end SubstitutionRule

/-- Reading and rewriting traversals see the same tree.  A visitor that changes no node leaves the
tree as it is, and it is shown the nodes of the walk in their order, each once.  Below the root, these
are all that stands in a field of a node, with the kind of the node that holds it.  Any other visitor
is shown the nodes that are met when each node is entered, gives way to the answer, and the children
of the answer are gone through next.  A substitution is a traversal of this kind. -/
theorem traversals_agree (n : Node) :
    (∀ {σ : Type} (visit : Visitor σ) (s : σ), (∀ parent m s, (visit parent m s).1 = m) →
      ∀ depth ≥ n.height, ∃ s', n.replaceWithin visit depth none s = (n, s') ∧
        n.replaceWithin visit.recording depth none (s, []) = (n, s', n.entries none)) ∧
    (n.entries none).map Prod.snd = n.walk ∧
    (∀ kind c, (kind, c) ∈ n.entries none ↔
      (kind = none ∧ c = n) ∨ ∃ m ∈ n.walk, c.StoredIn m ∧ kind = some m.kind) ∧
    (∀ {σ : Type} (visit : Visitor σ) (s s' : σ) (depth : Nat) (n' : Node)
      (entered : List (Option NodeKind × Node)), Enters visit depth none [n] s entered [n'] s' →
      ∀ d ≥ depth, n.replaceWithin visit d none s = (n', s') ∧
        n.replaceWithin visit.recording d none (s, []) = (n', s', entered)) ∧
    ∀ rules limit, ∃ entered, Enters (SubstitutionRule.visitor rules limit)
      (SubstitutionRule.depthBound rules limit n) none [n] {} entered
      [(SubstitutionRule.substitute rules limit n).1] (SubstitutionRule.substitute rules limit n).2 := by
  refine ⟨fun visit s hvisit depth hdepth => ?_, n.map_snd_entries none, ?_, ?_, ?_⟩
  · have hgrowth : ∀ parent m t, (visit parent m t).1.height + 0 ≤ m.height + 0 ∧ 0 ≤ 0 := by
      intro parent m t
      rw [hvisit]
      exact ⟨Nat.le_refl _, Nat.le_refl _⟩
    obtain ⟨entered, ns', s', henters, -⟩ := Enters.exists_of_potential (fun _ => 0) hgrowth none
      (List.forall_mem_singleton.2 hdepth)
    obtain ⟨rfl, rfl⟩ := henters.unchanged hvisit
    rw [List.flatMap_singleton] at henters
    exact ⟨s', henters.replaceWithin (Nat.le_refl _),
      (henters.recording []).replaceWithin (Nat.le_refl _)⟩
  · intro kind c
    simp only [← Node.mem_children_iff_storedIn]
    exact Node.mem_entries_iff
  · intro σ visit s s' depth n' entered henters d hd
    exact ⟨henters.replaceWithin hd, (henters.recording []).replaceWithin hd⟩
  · exact fun rules limit => SubstitutionRule.enters_substitute rules limit n

end BindingProxy
