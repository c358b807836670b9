import BindingProxy.Grammar.Target
import BindingProxy.Proofs.Tree.Shape

/-!
# Targets that come from expressions

The left side of an assignment is read as an expression and then converted.  A tidy expression
becomes a tidy target: array and object literals become patterns whose elements are targets, with or
without a default, and whose last one may be a rest element.
-/

namespace BindingProxy

namespace Node

/-! ### Expressions as targets

What the three conversions yield, as relations between what is converted and the outcome.  A target
with a default, which only a cover brings in, stands for itself. -/

/-- A tidy tree becomes a target, or stays a target with a default. -/
def ToTargetSound (n : Node) (outcome : Except SyntaxCause Node) : Prop :=
  n.Tidy → ∀ m, outcome = .ok m → Sound (fun m => m.isTarget || (n.isDefaulted && m.isDefaulted)) m

/-- The members of a literal become members of a pattern. -/
def MemberTargetsSound (ms : List Node) (outcome : Except SyntaxCause (List Node)) : Prop :=
  (∀ m ∈ ms, Sound (isMember true) m) → ∀ ts, outcome = .ok ts → Sound isPattern (objectPattern ts)

/-- The elements of a literal become elements of a pattern. -/
def ElementTargetsSound (es : List (Option Node)) (outcome : Except SyntaxCause (List (Option Node))) :
    Prop :=
  (∀ e, some e ∈ es → Sound isArgument e) →
    ∀ ts, outcome = .ok ts → Sound isPattern (arrayPattern ts)

/-- A target with a default comes from an assignment. -/
lemma Sound.defaulted {left right : Node} (h : (assignment .assign left right).Tidy) :
    Sound isElement (.defaulted left right) := by
  obtain ⟨hfits, hbelow⟩ := tidy_iff.1 h
  exact .mk rfl hfits hbelow

/-- What stands in the place of an element. -/
lemma ToTargetSound.element {n m : Node} {outcome : Except SyntaxCause Node}
    (h : ToTargetSound n outcome) (hn : n.Tidy) (hm : outcome = .ok m) : Sound isElement m := by
  obtain ⟨hcategory, htidy⟩ := h hn m hm
  refine ⟨?_, htidy⟩
  unfold isElement
  grind

/-- What an expression stands for is a target. -/
lemma ToTargetSound.target {n m : Node} {outcome : Except SyntaxCause Node}
    (h : ToTargetSound n outcome) (hn : Sound isExpression n) (hm : outcome = .ok m) :
    Sound isTarget m := by
  obtain ⟨hcategory, htidy⟩ := h hn.2 m hm
  have hdefaulted : n.isDefaulted = false := by
    cases hd : n.isDefaulted with
    | false => rfl
    | true => exact absurd hn.1 (by simp [isExpression_of_isDefaulted hd])
  refine ⟨?_, htidy⟩
  simpa [hdefaulted] using hcategory

/-- A rest element comes from a spread one. -/
lemma sound_rest {argument target : Node} {category : Node → Bool}
    {outcome : Except SyntaxCause Node} (h : ToTargetSound argument outcome)
    (hargument : Sound category (spread argument)) (htarget : outcome = .ok target) :
    Sound isRest (rest target) := by
  obtain ⟨hfits, hbelow⟩ := tidy_iff.1 hargument.2
  obtain ⟨hcategory, htidy⟩ := h.target ⟨hfits, hbelow _ (by simp [children])⟩ htarget
  exact .mk rfl hcategory (by simpa [children] using htidy)

/-- A property of a pattern is one of a literal with a target in the place of its value. -/
lemma sound_patternProperty {key value target : Node} {computed shorthand : Bool}
    (h : (property key value .init computed shorthand false).Tidy) (htarget : Sound isElement target) :
    Sound isPatternMember (property key target .init computed shorthand false) := by
  obtain ⟨hfits, hbelow⟩ := tidy_iff.1 h
  simp only [children, List.mem_cons, forall_eq_or_imp] at hbelow
  simp only [fits, Bool.and_eq_true] at hfits
  refine .mk (by simp [isPatternMember, htarget.1]) ?_ ?_
  · simp [fits, hfits.1, htarget.1]
  · simp [children, hbelow.1, htarget.2]

/-- The value that a conversion was applied to. -/
lemma exists_of_map_eq_ok {α β : Type} {f : α → β} {outcome : Except SyntaxCause α} {b : β}
    (h : outcome.map f = .ok b) : ∃ a, outcome = .ok a ∧ f a = b := by
  cases outcome with
  | ok a => exact ⟨a, rfl, Except.ok.inj h⟩
  | error cause => cases h

/-- The value that the second of two conversions went on with. -/
lemma exists_of_bind_eq_ok {α β : Type} {f : α → Except SyntaxCause β}
    {outcome : Except SyntaxCause α} {b : β} (h : outcome >>= f = .ok b) :
    ∃ a, outcome = .ok a ∧ f a = .ok b := by
  cases outcome with
  | ok a => exact ⟨a, rfl, h⟩
  | error cause => cases h

lemma exists_of_bind_bind_eq_ok {α β γ : Type} {f : α → β → γ} {first : Except SyntaxCause α}
    {second : Except SyntaxCause β} {c : γ}
    (h : (do let a ← first; let b ← second; return f a b) = .ok c) :
    ∃ a b, first = .ok a ∧ second = .ok b ∧ c = f a b := by
  obtain ⟨a, hfirst, h⟩ := exists_of_bind_eq_ok h
  obtain ⟨b, hsecond, h⟩ := exists_of_bind_eq_ok h
  cases h
  exact ⟨a, b, hfirst, hsecond, rfl⟩

/-- All three conversions yield what they should. -/
lemma targets_sound :
    (∀ n : Node, ToTargetSound n n.toTarget) ∧
      (∀ ms, MemberTargetsSound ms (memberTargets ms)) ∧
        ∀ es, ElementTargetsSound es (elementTargets es) := by
  apply Node.toTarget.mutual_induct_unfolding ToTargetSound MemberTargetsSound ElementTargetsSound
  -- Names, properties and targets with a default stay; literals become patterns.
  case case1 | case2 | case3 =>
    intros
    intro hn m hm
    cases hm
    exact ⟨rfl, hn⟩
  case case4 =>
    intro elements ih hn m hm
    obtain ⟨hfits, hbelow⟩ := tidy_iff.1 hn
    obtain ⟨ts, hts, rfl⟩ := exists_of_map_eq_ok hm
    refine (ih ?_ ts hts).imp (fun h => by simp [isTarget, h]) id
    intro e he
    have hargument : (some e).all isArgument = true := List.all_eq_true.1 hfits _ he
    exact ⟨hargument, hbelow e (List.mem_filterMap.2 ⟨some e, he, rfl⟩)⟩
  case case5 =>
    intro members ih hn m hm
    obtain ⟨hfits, hbelow⟩ := tidy_iff.1 hn
    obtain ⟨ts, hts, rfl⟩ := exists_of_map_eq_ok hm
    refine (ih ?_ ts hts).imp (fun h => by simp [isTarget, h]) id
    exact fun m hm => ⟨List.all_eq_true.1 hfits m hm, hbelow m hm⟩
  case case6 =>
    intro n _ _ _ _ _ hn m hm
    cases hm
  -- Members of an object literal.
  case case7 =>
    intro _ ts hts
    cases hts
    exact sound_objectPattern.2 ⟨rfl, by simp⟩
  case case8 =>
    intro argument ih hms ts hts
    obtain ⟨target, htarget, hts⟩ := exists_of_bind_eq_ok hts
    cases hts
    obtain ⟨hcategory, htidy⟩ := sound_rest ih (hms _ List.mem_cons_self) htarget
    exact sound_objectPattern.2 ⟨by simp [lastMay, hcategory], by simpa using htidy⟩
  case case9 =>
    intro key left right computed shorthand members ih hms ts hts
    obtain ⟨rest, hrest, rfl⟩ := exists_of_map_eq_ok hts
    obtain ⟨hm, hms⟩ := List.forall_mem_cons.1 hms
    have hvalue := (tidy_iff.1 hm.2).2 (assignment .assign left right) (by simp [children])
    exact sound_objectPattern_cons (sound_patternProperty hm.2 (.defaulted hvalue)) (ih hms rest hrest)
  case case10 =>
    intro key value computed shorthand members _ ihvalue ih hms ts hts
    obtain ⟨target, rest, htarget, hrest, rfl⟩ := exists_of_bind_bind_eq_ok hts
    obtain ⟨hm, hms⟩ := List.forall_mem_cons.1 hms
    have hvalue := (tidy_iff.1 hm.2).2 value (by simp [children])
    exact sound_objectPattern_cons (sound_patternProperty hm.2 (ihvalue.element hvalue htarget))
      (ih hms rest hrest)
  case case11 =>
    intro _ _ _ _ _ _ ts hts
    cases hts
  -- Elements of an array literal.
  case case12 =>
    intro _ ts hts
    cases hts
    exact sound_arrayPattern.2 ⟨rfl, by simp⟩
  case case13 =>
    intro elements ih hes ts hts
    obtain ⟨rest, hrest, rfl⟩ := exists_of_map_eq_ok hts
    exact sound_arrayPattern_cons (by simp)
      (ih (fun e he => hes e (List.mem_cons_of_mem _ he)) rest hrest)
  case case14 =>
    intro argument elements _ hempty ih hes ts hts
    obtain ⟨target, htarget, hts⟩ := exists_of_bind_eq_ok hts
    cases hts
    obtain ⟨hcategory, htidy⟩ := sound_rest ih (hes _ List.mem_cons_self) htarget
    exact sound_arrayPattern.2 ⟨by simp [lastMay, hcategory], by simpa using htidy⟩
  case case15 =>
    intro argument elements _ hempty ih hes ts hts
    cases hts
  case case16 =>
    intro left right elements ih hes ts hts
    obtain ⟨rest, hrest, rfl⟩ := exists_of_map_eq_ok hts
    have helement := Sound.defaulted (hes _ List.mem_cons_self).2
    exact sound_arrayPattern_cons (by simpa using helement)
      (ih (fun e he => hes e (List.mem_cons_of_mem _ he)) rest hrest)
  case case17 =>
    intro element elements _ _ ihelement ih hes ts hts
    obtain ⟨target, rest, htarget, hrest, rfl⟩ := exists_of_bind_bind_eq_ok hts
    have htarget := ihelement.element (hes _ List.mem_cons_self).2 htarget
    exact sound_arrayPattern_cons (by simpa using htarget)
      (ih (fun e he => hes e (List.mem_cons_of_mem _ he)) rest hrest)

/-! ### Trees and the targets they become

What a target takes over from the expression it comes from, node by node. -/

/-- The nodes of an expression and of a target that take each other's place. -/
inductive Reshaped : Node → Node → Prop
  | array (elements targets : List (Option Node)) : Reshaped (array elements) (arrayPattern targets)
  | object (members targets : List Node) : Reshaped (object members) (objectPattern targets)
  | rest (argument target : Node) : Reshaped (spread argument) (rest target)
  | defaulted (left right : Node) : Reshaped (assignment .assign left right) (defaulted left right)
  | property (key value target : Node) (computed shorthand : Bool) :
    Reshaped (property key value .init computed shorthand false)
      (property key target .init computed shorthand false)

section CarriedOver

variable {R : Node → Node → Prop}

/-- Every tree of the second list has one of the first to which it is related. -/
def Drawn (R : Node → Node → Prop) (ms ts : List Node) : Prop := ∀ t ∈ ts, ∃ m ∈ ms, R m t

lemma Drawn.nil (ms : List Node) : Drawn R ms [] := by simp [Drawn]

lemma Drawn.cons {m t : Node} {ms ts : List Node} (h : R m t) (hrest : Drawn R ms ts) :
    Drawn R (m :: ms) (t :: ts) := by
  refine List.forall_mem_cons.2 ⟨⟨m, List.mem_cons_self, h⟩, fun t ht => ?_⟩
  obtain ⟨m, hm, hmt⟩ := hrest t ht
  exact ⟨m, List.mem_cons_of_mem _ hm, hmt⟩

/-- A relation that reshaping a node carries over from the children relates a tree to the target
that it becomes. -/
lemma targets_related (hrefl : ∀ n, R n n)
    (hnode : ∀ n m, Reshaped n m → Drawn R n.children m.children → R n m) :
    (∀ n m : Node, n.toTarget = .ok m → R n m) ∧
      (∀ ms ts, memberTargets ms = .ok ts → Drawn R ms ts) ∧
        ∀ es ts, elementTargets es = .ok ts → Drawn R (es.filterMap id) (ts.filterMap id) := by
  have hrest {argument target : Node} (h : R argument target) : R (spread argument) (rest target) :=
    hnode _ _ (.rest argument target) (.cons h (.nil []))
  have hdefaulted (left right : Node) : R (assignment .assign left right) (defaulted left right) :=
    hnode _ _ (.defaulted left right) fun t ht => ⟨t, ht, hrefl t⟩
  have hproperty {value target : Node} (key : Node) (computed shorthand : Bool)
      (h : R value target) : R (property key value .init computed shorthand false)
        (property key target .init computed shorthand false) :=
    hnode _ _ (.property key value target computed shorthand) (.cons (hrefl key) (.cons h (.nil [])))
  apply Node.toTarget.mutual_induct_unfolding (fun n outcome => ∀ m, outcome = .ok m → R n m)
    (fun ms outcome => ∀ ts, outcome = .ok ts → Drawn R ms ts)
    (fun es outcome => ∀ ts, outcome = .ok ts → Drawn R (es.filterMap id) (ts.filterMap id))
  -- Names, properties and targets with a default stay; literals become patterns.
  case case1 | case2 | case3 =>
    intros
    rename_i hm
    cases hm
    exact hrefl _
  case case4 =>
    intro elements ih m hm
    obtain ⟨ts, hts, rfl⟩ := exists_of_map_eq_ok hm
    exact hnode _ _ (.array elements ts) (ih ts hts)
  case case5 =>
    intro members ih m hm
    obtain ⟨ts, hts, rfl⟩ := exists_of_map_eq_ok hm
    exact hnode _ _ (.object members ts) (ih ts hts)
  case case6 =>
    intro n _ _ _ _ _ m hm
    cases hm
  -- Members of an object literal.
  case case7 | case12 =>
    intro ts hts
    cases hts
    exact .nil []
  case case8 =>
    intro argument ih ts hts
    obtain ⟨target, htarget, hts⟩ := exists_of_bind_eq_ok hts
    cases hts
    exact .cons (hrest (ih target htarget)) (.nil [])
  case case9 =>
    intro key left right computed shorthand members ih ts hts
    obtain ⟨rest, hrest, rfl⟩ := exists_of_map_eq_ok hts
    exact .cons (hproperty key computed shorthand (hdefaulted left right)) (ih rest hrest)
  case case10 =>
    intro key value computed shorthand members _ ihvalue ih ts hts
    obtain ⟨target, rest, htarget, hrest, rfl⟩ := exists_of_bind_bind_eq_ok hts
    exact .cons (hproperty key computed shorthand (ihvalue target htarget)) (ih rest hrest)
  case case11 =>
    intro _ _ _ _ _ ts hts
    cases hts
  -- Elements of an array literal.
  case case13 =>
    intro elements ih ts hts
    obtain ⟨rest, hrest, rfl⟩ := exists_of_map_eq_ok hts
    exact ih rest hrest
  case case14 =>
    intro argument elements _ _ ih ts hts
    obtain ⟨target, htarget, hts⟩ := exists_of_bind_eq_ok hts
    cases hts
    exact .cons (hrest (ih target htarget)) (.nil _)
  case case15 =>
    intro argument elements _ _ ih ts hts
    cases hts
  case case16 =>
    intro left right elements ih ts hts
    obtain ⟨rest, hrest, rfl⟩ := exists_of_map_eq_ok hts
    exact .cons (hdefaulted left right) (ih rest hrest)
  case case17 =>
    intro element elements _ _ ihelement ih ts hts
    obtain ⟨target, rest, htarget, hrest, rfl⟩ := exists_of_bind_bind_eq_ok hts
    exact .cons (ihelement target htarget) (ih rest hrest)

end CarriedOver

end Node

end BindingProxy
