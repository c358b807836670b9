import BindingProxy.Proofs.Grammar.Assembly
import BindingProxy.Proofs.Grammar.Targets

/-!
# Scripts are read as well-formed trees

Every rule of the grammar yields a tree of its category in which every node fits.  Object literals may
keep covers; this is the only way in which a tree that was read fails to be well formed, and the main
result says so.
-/

namespace BindingProxy

namespace Grammar

open Node

/-- The category of the trees that a rule comes to. -/
def Rule.category : Rule → Node → Bool
  | .statement | .function .declaration _ | .classDefinition .declaration => isStatement
  | .target => isBinding
  | .assignment | .operand | .unary | .construction | .expression | .linked | .binary | .conditional
  | .function .expression (some _) | .classDefinition .expression => isExpression
  | .function .expression none => isMethodFunction
  | .name => fun n => n.name?.isSome
  | .key computed => isKey computed
  | .element => isParameter
  | .patternMember => isPatternMember
  | .block => isBlock
  | .method => isMethod
  | .argument => isArgument
  | .template => isTemplate
  | .member => isMember true
  | .declarator => isDeclarator
  | .declaration => Node.isDeclaration
  | .loopStart => isLoopStart
  | .handler => isHandler
  | .switchCase => isSwitchCase

/-! ### Lists with a rest element -/

/-- Items, and a rest element around a target after them. -/
lemma soundList_rest {category : Node → Bool} {ns : List Node} {rest : Option Node}
    (hns : ∀ n ∈ ns, Node.Sound category n) (hrest : ∀ n ∈ rest, Node.Sound isBinding n) :
    SoundList category isRest (ns ++ rest.toList.map .rest) := by
  refine ⟨lastMay_append (fun n hn => (hns n hn).1) ?_, fun n hn => ?_⟩
  · cases rest <;> simp [lastMay, isRest]
  · rcases List.mem_append.1 hn with hn | hn
    · exact (hns n hn).2
    · obtain ⟨m, hm, rfl⟩ := List.mem_map.1 hn
      exact (sound_rest_of_binding (hrest m (Option.mem_toList.1 hm))).2

lemma sound_arrayPattern_rest {elements : List (Option Node)} {rest : Option Node}
    (helements : ∀ o ∈ elements, ∀ n ∈ o, Node.Sound isParameter n)
    (hrest : ∀ n ∈ rest, Node.Sound isBinding n) :
    Node.Sound isPattern
      (.arrayPattern (elements ++ rest.toList.map fun n => some (.rest n))) := by
  refine sound_arrayPattern.2 ⟨lastMay_append (fun o ho => ?_) ?_, fun n hn => ?_⟩
  · cases o with
    | none => rfl
    | some n => exact isElement_of_isParameter (helements _ ho n rfl).1
  · cases rest <;> rfl
  · rcases List.mem_append.1 hn with hn | hn
    · exact (helements _ hn n rfl).2
    · obtain ⟨m, hm, hn⟩ := List.mem_map.1 hn
      cases hn
      exact (sound_rest_of_binding (hrest m (Option.mem_toList.1 hm))).2

/-! ### Properties -/

lemma sound_defaulted {left right : Node} (hleft : Node.Sound isBinding left)
    (hright : Node.Sound isExpression right) : Node.Sound isParameter (.defaulted left right) := by
  refine .mk hleft.1 ?_ ?_
  · simp [fits, isTarget_of_isBinding hleft.1, hright.1]
  · simp [children, hleft.2, hright.2]

/-- A property of an object pattern. -/
lemma sound_patternMember {key value : Node} {computed shorthand : Bool}
    (hkey : Node.Sound (isKey computed) key) (hvalue : Node.Sound isParameter value) :
    Node.Sound isPatternMember (.property key value .init computed shorthand false) := by
  have helement := isElement_of_isParameter hvalue.1
  refine .mk (by simp [isPatternMember, helement]) ?_ ?_
  · simp [fits, hkey.1, helement]
  · simp [children, hkey.2, hvalue.2]

/-- A property that has a value of its own. -/
lemma sound_initMember {key value : Node} {computed shorthand : Bool}
    (hkey : Node.Sound (isKey computed) key) (hvalue : value.Tidy)
    (hcategory : (value.isExpression || value.isDefaulted) = true) :
    Node.Sound (isMember true) (.property key value .init computed shorthand false) := by
  refine .mk ?_ ?_ ?_
  · simpa [isMember] using hcategory
  · rw [Bool.or_eq_true] at hcategory
    rcases hcategory with h | h <;> simp [fits, hkey.1, isElement, h]
  · simp [children, hkey.2, hvalue]

/-- An accessor or a method. -/
lemma sound_functionMember {key value : Node} {kind : PropertyKind} {computed shorthand isMethod : Bool}
    (hkey : Node.Sound (isKey computed) key) (hvalue : Node.Sound isMethodFunction value)
    (hkind : (kind != .init || isMethod) = true) :
    Node.Sound (isMember true) (.property key value kind computed shorthand isMethod) := by
  refine .mk (by simp [isMember, hkind]) ?_ ?_
  · have hinit : (kind == .init && !isMethod) = false := by
      cases kind with
      | init => simpa using hkind
      | _ => rfl
    simp [fits, hkey.1, hinit, hvalue.1]
  · simp [children, hkey.2, hvalue.2]

/-! ### Functions -/

/-- The parameters and the body of a function. -/
lemma tidy_parts {params : List Node} {body : Node} (hparams : SoundList isParameter isRest params)
    (hbody : body.Tidy) : ∀ n ∈ params ++ [body], n.Tidy := by
  intro c hc
  rcases List.mem_append.1 hc with hc | hc
  · exact hparams.2 c hc
  · rw [List.mem_singleton.1 hc]
    exact hbody

lemma sound_function {role : Role} {id : Option String} {params : List Node} {body : Node}
    {isAsync isGenerator : Bool} (hid : (role == .expression || id.isSome) = true)
    (hparams : SoundList isParameter isRest params) (hbody : Node.Sound isBlock body) :
    Node.Sound (Rule.function role id).category
      (.function role id params body isAsync isGenerator) := by
  refine .mk ?_ (by simp [fits, hid, hparams.1, hbody.1]) (tidy_parts hparams hbody.2)
  cases role <;> cases id <;> rfl

lemma sound_arrow {params : List Node} {body : Node} {concise isAsync : Bool}
    (hparams : SoundList isParameter isRest params) (hbody : body.Tidy)
    (hcategory : (if concise then body.isExpression else body.isBlock) = true) :
    Node.Sound isExpression (.arrow params body concise isAsync) :=
  .mk rfl (by rw [fits, hparams.1, hcategory]; rfl) (tidy_parts hparams hbody)

/-! ### Targets -/

/-- The left side of an assignment is what its operator can store into. -/
lemma sound_assignmentTarget {operator : AssignmentOperator} {left target : Node}
    (hleft : Node.Sound isExpression left) (h : assignmentTarget operator left = .ok target) :
    Node.Sound (fun n => if operator == .assign then n.isTarget else n.isPlace) target := by
  unfold assignmentTarget at h
  by_cases hassign : operator = .assign
  · rw [if_pos hassign] at h
    simpa only [hassign, beq_self_eq_true, if_true] using (targets_sound.1 left).target hleft h
  · rw [if_neg hassign] at h
    by_cases hplace : left.isPlace = true
    · rw [if_pos hplace] at h
      cases h
      exact ⟨by simpa [hassign] using hplace, hleft.2⟩
    · rw [if_neg hplace] at h
      cases h

lemma isLoopTarget_of_isTarget {n : Node} (h : n.isTarget = true) : n.isLoopTarget = true := by
  unfold isLoopTarget
  split
  · rfl
  · exact h

/-- The left side of a loop over a value. -/
lemma sound_loopTarget {left target : Node} (hleft : Node.Sound isLoopStart left)
    (h : loopTarget left = .ok target) : Node.Sound isLoopTarget target := by
  cases left with
  | declaration kind declarators =>
    unfold loopTarget at h
    split at h
    · next heq =>
      cases heq
      cases h
      exact ⟨rfl, hleft.2⟩
    · cases h
    · next hother => exact (hother _ _ rfl).elim
  | _ =>
    have hexpression : Node.Sound isExpression _ := hleft.mono fun h => h
    exact ((targets_sound.1 _).target hexpression h).mono isLoopTarget_of_isTarget

/-! ### Rules -/

/-- What a rule comes to is of the category of the rule, and every node in it fits. -/
lemma Built.sound {k : Nat} {rule : Rule} {s : Scope} {n : Node} (h : Built k rule s n) :
    Node.Sound rule.category n := by
  induction h with
  | single _ ih | parenthesized _ ih | classOperand _ ih | constructed _ ih | linkedUnary _ ih
  | first _ ih | operand _ ih | unconditional _ ih | unassigned _ ih | functionStatement _ ih
  | classStatement _ ih => exact ih
  | nameKey h ih | nameElement h ih | nameTarget h ih | nameOperand h ih =>
    cases h
    exact ⟨rfl, ih.2⟩
  | computedKey _ ih => exact ih.mono isKey_of_isExpression
  | targetElement _ ih => exact ih.mono isParameter_of_isBinding
  | argument _ ih => exact ih.mono fun h => Bool.or_eq_true_iff.2 (.inl h)
  | templateOperand h ih | blockStatement h ih | variableStatement h ih =>
    cases h
    exact ⟨rfl, ih.2⟩
  | functionOperand h ih =>
    cases h
    exact ⟨rfl, ih.2⟩
  | declarationStart _ ih => exact ih.mono fun h => Bool.or_eq_true_iff.2 (.inl h)
  | expressionStart _ ih => exact ih.mono fun h => Bool.or_eq_true_iff.2 (.inr h)
  | name _ => exact ⟨rfl, tidy_identifier _⟩
  | literal _ => exact ⟨rfl, tidy_literal _ _⟩
  | literalKey hkind _ => rcases hkind with rfl | rfl <;> exact ⟨rfl, tidy_literal _ _⟩
  | newTarget => exact .mk rfl rfl (by simp [children, tidy_identifier])
  | defaulted _ _ hleft hright => exact sound_defaulted hleft hright
  | patternPair _ _ hkey hvalue => exact sound_patternMember hkey hvalue
  | patternName h ih =>
    cases h
    exact sound_patternMember ⟨rfl, ih.2⟩ ⟨rfl, ih.2⟩
  | patternDefault h _ ih hright =>
    cases h
    exact sound_patternMember ⟨rfl, ih.2⟩ (sound_defaulted ⟨rfl, ih.2⟩ hright)
  | functionMember hkind _ _ hkey hvalue => exact sound_functionMember hkey hvalue hkind
  | pair _ _ hkey hvalue =>
    exact sound_initMember hkey hvalue.2 (by simpa using .inl hvalue.1)
  | nameMember h ih =>
    cases h
    exact sound_initMember ⟨rfl, ih.2⟩ ih.2 rfl
  | cover h _ ih hright =>
    cases h
    exact sound_initMember ⟨rfl, ih.2⟩ (sound_defaulted ⟨rfl, ih.2⟩ hright).2 rfl
  | arrayPattern _ _ helements hrest =>
    exact (sound_arrayPattern_rest helements hrest).mono fun _ => rfl
  | @objectPattern _ _ _ rest _ _ hmembers ih =>
    have hrest : ∀ n ∈ rest, Node.Sound isBinding n := fun n hn =>
      (ih n hn).mono fun h => Bool.or_eq_true_iff.2 (.inl h)
    exact (sound_objectPattern.2 (soundList_rest hmembers hrest)).mono fun _ => rfl
  | function hid _ _ _ hparams hrest hbody =>
    exact sound_function hid (soundList_rest hparams hrest) hbody
  | arrowBlock _ _ _ hparams hrest hbody =>
    exact sound_arrow (soundList_rest hparams hrest) hbody.2 hbody.1
  | arrowValue _ _ _ _ hparams hrest hbody =>
    exact sound_arrow (soundList_rest hparams hrest) hbody.2 hbody.1
  | @classDefinition _ _ role _ _ _ hid _ _ hsuper hbody =>
    refine .mk (by cases role <;> rfl) ?_ ?_
    · simp_all [fits, Rule.category, Node.Sound, Option.all_eq_true]
    · simp_all [children, Node.Sound, or_imp]
  | @joined _ _ _ _ operator _ _ hleft hright =>
    have hleft : Node.Sound isExpression _ := hleft
    have hright : Node.Sound isExpression _ := hright
    cases operator <;>
      exact .mk rfl (by simp [joinOperands, fits, hleft.1, hright.1])
        (by simp [joinOperands, children, hleft.2, hright.2])
  | assignment _ htarget _ hleft hright =>
    obtain ⟨hfits, htarget⟩ := sound_assignmentTarget hleft htarget
    exact .mk rfl (Bool.and_eq_true_iff.2 ⟨hfits, hright.1⟩) (by simp [children, htarget, hright.2])
  | forEach _ htarget _ _ hleft hright hbody =>
    obtain ⟨hfits, htarget⟩ := sound_loopTarget hleft htarget
    refine .mk rfl ?_ (by simp [children, htarget, hright.2, hbody.2])
    simp_all [fits, Rule.category, Node.Sound]
  | array _ ih =>
    refine .mk rfl ?_ (forall_mem_filterMap.2 fun o ho n hn => (ih o ho n hn).2)
    exact List.all_eq_true.2 fun o ho => (Option.all_eq_true _ _).2 fun n hn => (ih o ho n hn).1
  -- The remaining nodes have their parts in the places that the rules have for them.
  | _ =>
    refine .mk rfl ?_ ?_
    · simp_all [fits, Rule.category, Node.Sound, Option.all_eq_true]
    · simp_all [children, Node.Sound, or_imp]

end Grammar

/-- A script is read as a program in which every node fits, covers of object literals allowed. -/
lemma tidy_of_parse {text : String} {n : Node} (h : parse text = .ok n) :
    (∃ body, n = .program body) ∧ n.Tidy := by
  obtain ⟨body, rfl, hbody⟩ := built_of_parse h
  refine ⟨⟨body, rfl⟩, Node.tidy_iff.2 ⟨?_, fun n hn => (hbody n hn).sound.2⟩⟩
  exact List.all_eq_true.2 fun n hn => (hbody n hn).sound.1

/-- The tree of a script is well formed exactly if no object literal in it has a member `a = b`. -/
theorem wellFormed_iff_of_parse {text : String} {n : Node} (h : parse text = .ok n) :
    n.WellFormed ↔ n.Everywhere fun m => m.hasCover = false := by
  obtain ⟨⟨body, hbody⟩, htidy⟩ := tidy_of_parse h
  constructor
  · intro hwell m hm
    exact ((Node.fits_false_iff m).1 (hwell.fits m hm)).2
  · intro hcover
    refine ⟨by rw [hbody]; rfl, fun m hm => ?_, fun m hm => ?_⟩
    · exact Node.kind_ne_program_of_fits (htidy m hm)
    · exact (Node.fits_false_iff m).2 ⟨htidy m hm, hcover m hm⟩

/-- In `({a = 1, ...d} = f(...b))` the literal with a cover has become a pattern. -/
theorem wellFormed_iff_of_parse_converted :
    ∃ n, parse "for (const [a, ...b] of c) (\x7ba = 1, ...d\x7d = f(...b));" = .ok n ∧ n.WellFormed := by
  obtain ⟨n, hn, hcheck⟩ := exists_of_parse_any
    (show (parse "for (const [a, ...b] of c) (\x7ba = 1, ...d\x7d = f(...b));").toOption.any
      (fun n => n.walk.all fun m => !m.hasCover) = true by rw [parse_ofList]; decide +kernel)
  refine ⟨n, hn, (wellFormed_iff_of_parse hn).2 fun m hm => ?_⟩
  simpa using List.all_eq_true.1 hcheck m hm

/-- In `({a = 1})` the cover is left: a target with a default stands where a value should. -/
theorem not_wellFormed_of_cover : ∃ n, parse "(\x7ba = 1\x7d);" = .ok n ∧ ¬ n.WellFormed := by
  obtain ⟨n, hn, hcheck⟩ := exists_of_parse_any
    (show (parse "(\x7ba = 1\x7d);").toOption.any (fun n => n.walk.any Node.hasCover) = true by
      decide +kernel)
  obtain ⟨m, hm, hcover⟩ := List.any_eq_true.1 hcheck
  refine ⟨n, hn, fun hwell => ?_⟩
  have hnone := ((Node.fits_false_iff m).1 (hwell.fits m hm)).2
  rw [hcover] at hnone
  cases hnone

end BindingProxy
