import BindingProxy.Proofs.Grammar.Assembly

/-!
# What a tree takes over from its text

The grammar takes over from the text `yield` and `await` only in the functions that have them, names,
the spellings of literals and the parts of templates.  It also knows of the names that lead expression statements, the bodies
of arrow functions and the operands of the two words that they are whole, or all there is of the
expression, and that an `else` belongs to the nearest `if` that can take it.  `Genuine` states this of
one node and its scope, and every tree that a rule can come to is genuine.
-/

namespace BindingProxy

namespace Node

/-- A node as the grammar reads it in a scope. -/
def Genuine (s : Scope) : Node → Prop
  | yielding argument _ => s.inGenerator = true ∧ ∀ e ∈ argument, e.Headed
  | awaiting argument => s.inAsync = true ∧ argument.Headed
  | identifier name => BeginsName name
  | literal kind raw => IsSpelling kind raw
  | template quasis _ => ∀ quasi ∈ quasis, IsChunk quasi
  | expressionStatement e => e.Headed
  | arrow _ body _ _ => body.Headed
  | conditionalStatement test consequent alternate =>
    KeepsElse (conditionalStatement test consequent alternate)
  | _ => True

/-- A tree as the grammar reads it in a scope. -/
def GenuineIn (s : Scope) (n : Node) : Prop := EverywhereIn Genuine s n

variable {s : Scope} {n : Node}

lemma genuineIn_iff (h : n.opensScope = false) :
    GenuineIn s n ↔ Genuine s n ∧ ∀ c ∈ n.children, GenuineIn s c :=
  everywhereIn_iff_of_not_opensScope h

lemma GenuineIn.node (hopens : n.opensScope = false) (hroot : Genuine s n)
    (h : ∀ c ∈ n.children, GenuineIn s c) : GenuineIn s n :=
  EverywhereIn.node hopens hroot h

lemma genuineIn_identifier (s : Scope) {name : String} (h : BeginsName name) :
    GenuineIn s (identifier name) :=
  .node rfl h (by simp [children])

lemma genuineIn_function {role : Role} {id : Option String} {params : List Node} {body : Node}
    {isAsync isGenerator : Bool} (hparams : ∀ n ∈ params, GenuineIn ⟨isAsync, isGenerator⟩ n)
    (hbody : GenuineIn ⟨isAsync, isGenerator⟩ body) (s : Scope) :
    GenuineIn s (function role id params body isAsync isGenerator) := by
  refine everywhereIn_function_iff.2 ⟨trivial, fun c hc => ?_⟩
  rcases List.mem_append.1 hc with hc | hc
  · exact hparams c hc
  · rw [List.mem_singleton.1 hc]
    exact hbody

/-! ### Targets -/

lemma genuineIn_defaulted {left right : Node} :
    GenuineIn s (defaulted left right) ↔ GenuineIn s left ∧ GenuineIn s right := by
  rw [genuineIn_iff rfl]
  simp [children, Genuine]

lemma genuineIn_rest {argument : Node} : GenuineIn s (rest argument) ↔ GenuineIn s argument := by
  rw [genuineIn_iff rfl]
  simp [children, Genuine]

/-- A node that takes another's place holds nothing of its own that could be wrong. -/
lemma Reshaped.genuineIn {m : Node} (h : Reshaped n m)
    (hbelow : Drawn (fun c t => GenuineIn s c → GenuineIn s t) n.children m.children)
    (hn : GenuineIn s n) : GenuineIn s m := by
  have hopens : n.opensScope = false ∧ m.opensScope = false ∧ Genuine s m := by
    cases h <;> exact ⟨rfl, rfl, trivial⟩
  refine .node hopens.2.1 hopens.2.2 fun t ht => ?_
  obtain ⟨c, hc, hct⟩ := hbelow t ht
  exact hct (((genuineIn_iff hopens.1).1 hn).2 c hc)

/-- A tree that becomes a target stays genuine. -/
lemma GenuineIn.toTarget {m : Node} (hn : GenuineIn s n) (h : n.toTarget = .ok m) :
    GenuineIn s m :=
  (targets_related (R := fun n m => GenuineIn s n → GenuineIn s m) (fun _ hn => hn)
    fun _ _ => Reshaped.genuineIn).1 n m h hn

lemma GenuineIn.of_target {m : Node} (hn : GenuineIn s n) (h : m = n ∨ n.toTarget = .ok m) :
    GenuineIn s m := by
  rcases h with rfl | h
  · exact hn
  · exact hn.toTarget h

end Node

namespace Grammar

open Node

variable {s : Scope}

/-- The parameters of a function, with the rest element. -/
lemma genuineIn_parameters {params : List Node} {rest : Option Node}
    (hparams : ∀ n ∈ params, GenuineIn s n) (hrest : ∀ n ∈ rest, GenuineIn s n) :
    ∀ n ∈ params ++ rest.toList.map .rest, GenuineIn s n := by
  intro n hn
  rcases List.mem_append.1 hn with hn | hn
  · exact hparams n hn
  · obtain ⟨m, hm, rfl⟩ := List.mem_map.1 hn
    exact genuineIn_rest.2 (hrest m (Option.mem_toList.1 hm))

lemma genuineIn_arrow {params : List Node} {body : Node} {concise isAsync : Bool}
    (hheaded : body.Headed) (hparams : ∀ n ∈ params, GenuineIn s n)
    (hbody : GenuineIn ⟨isAsync, false⟩ body) : GenuineIn s (.arrow params body concise isAsync) :=
  everywhereIn_arrow_iff.2 ⟨hheaded, hparams, hbody⟩

/-- What a rule comes to is genuine.  The scope changes only below functions. -/
lemma Built.genuineIn {k : Nat} {rule : Rule} {n : Node} (h : Built k rule s n) :
    GenuineIn s n := by
  induction h with
  | nameKey _ ih | computedKey _ ih | nameElement _ ih | targetElement _ ih | nameTarget _ ih
  | single _ ih | argument _ ih | nameOperand _ ih | templateOperand _ ih | parenthesized _ ih
  | functionOperand _ ih | classOperand _ ih | constructed _ ih | linkedUnary _ ih | first _ ih
  | operand _ ih | unconditional _ ih | unassigned _ ih | declarationStart _ ih
  | expressionStart _ ih | blockStatement _ ih | variableStatement _ ih | functionStatement _ ih
  | classStatement _ ih => exact ih
  | name h => exact genuineIn_identifier _ h
  | literalKey _ h | literal h => exact .node rfl h (by simp [children])
  | newTarget =>
    refine .node rfl trivial ?_
    simpa [children] using ⟨genuineIn_identifier _ ⟨'n', ['e', 'w'], rfl, by decide⟩,
      genuineIn_identifier _ ⟨'t', "arget".toList, rfl, by decide⟩⟩
  | function _ _ _ _ hparams hrest hbody =>
    exact genuineIn_function (genuineIn_parameters hparams hrest) hbody _
  | arrowBlock _ _ hbuilt hparams hrest hbody =>
    refine genuineIn_arrow ?_ (genuineIn_parameters hparams hrest) hbody
    cases hbuilt
    intro w hw
    cases hw
  | arrowValue _ _ hheaded _ hparams hrest hbody =>
    exact genuineIn_arrow hheaded (genuineIn_parameters hparams hrest) hbody
  | assignment _ htarget _ hleft hright =>
    have htarget := hleft.of_target (eq_or_toTarget_of_assignmentTarget htarget)
    exact .node rfl trivial (by simp [children, htarget, hright])
  | forEach _ htarget _ _ hleft hright hbody =>
    have htarget := hleft.of_target (eq_or_toTarget_of_loopTarget htarget)
    exact .node rfl trivial (by simp [children, htarget, hright, hbody])
  | @joined _ _ _ _ operator _ _ hleft hright =>
    cases operator <;> exact .node rfl trivial (by simp [joinOperands, children, hleft, hright])
  | yielding hs => exact .node rfl ⟨hs, by simp⟩ (by simp [children])
  | yieldingValue hs hheaded _ ih =>
    exact .node rfl ⟨hs, by simpa using hheaded⟩ (by simpa [children] using ih)
  | awaiting hs hheaded _ ih => exact .node rfl ⟨hs, hheaded⟩ (by simpa [children] using ih)
  | conditionalStatement _ _ _ hkeeps htest hconsequent halternate =>
    exact .node rfl hkeeps (by simp_all [children])
  | expressionStatement hheaded _ ih => exact .node rfl hheaded (by simpa [children] using ih)
  | template _ hquasis _ ih => exact .node rfl hquasis ih
  | array _ ih => exact .node rfl trivial (forall_mem_filterMap.2 ih)
  | arrayPattern _ _ helements hrest =>
    refine .node rfl trivial (forall_mem_filterMap.2 fun o ho => ?_)
    rcases List.mem_append.1 ho with ho | ho
    · exact helements o ho
    · obtain ⟨m, hm, rfl⟩ := List.mem_map.1 ho
      simpa using genuineIn_rest.2 (hrest m (Option.mem_toList.1 hm))
  -- The remaining nodes take nothing over from the text themselves.
  | _ =>
    refine .node rfl trivial ?_
    simp_all [children, or_imp, genuineIn_defaulted, genuineIn_rest]

end Grammar

/-- Every node of the tree of a script is genuine. -/
lemma genuineIn_of_parse {text : String} {n : Node} (h : parse text = .ok n) : n.GenuineIn {} := by
  obtain ⟨body, rfl, hbody⟩ := built_of_parse h
  exact .node rfl trivial fun n hn => (hbody n hn).genuineIn

end BindingProxy
