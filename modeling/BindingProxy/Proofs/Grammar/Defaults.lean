import BindingProxy.Proofs.Grammar.WellFormed

/-!
# Where defaults stand

A default `a = b` gives a value to a parameter, to an element of an array pattern or to a member of
an object pattern.  While an object literal is read, a member `a = b` is accepted as well, because
the literal may still become a pattern; if it does not, the member is left in the literal.

For every node the children with a default are compared with those that stand in the places for one.
Both are lists, so that no place is passed over and none is counted twice.
-/

namespace BindingProxy

namespace Node

/-- What stands in the places of a node that are for targets with a default: the parameters of a
function, the elements of an array pattern and the value of a member. -/
def defaultPlaces : Node → List Node
  | function _ _ params _ _ _ | arrow params _ _ _ => params
  | arrayPattern elements => elements.filterMap id
  | property _ value kind _ _ isMethod => if kind == .init && !isMethod then [value] else []
  | _ => []

/-- The members of an object pattern. -/
def patternMembers : Node → List Node
  | objectPattern members => members
  | _ => []

/-- The members of an object literal. -/
def literalMembers : Node → List Node
  | object members => members
  | _ => []

/-- The defaults below a node stand in places for them, and members with a default are members of an
object pattern. -/
structure DefaultsInPlace (n : Node) : Prop where
  places : n.children.filter isDefaulted = n.defaultPlaces.filter isDefaulted
  members : n.children.filter isCover = n.patternMembers.filter isCover

/-! ### What is no default -/

/-- A default stands in a place for one. -/
lemma mem_defaultPlaces_of_fits {n c : Node} (h : n.fits true = true) (hc : c ∈ n.children)
    (hdefault : c.isDefaulted = true) : c ∈ n.defaultPlaces := by
  obtain ⟨left, right, rfl⟩ : ∃ left right, c = defaulted left right := by
    cases c with
    | defaulted left right => exact ⟨left, right, rfl⟩
    | _ => cases hdefault
  have hno := no_category_of_isPart (m := defaulted left right) rfl
  have hmember : (defaulted left right).isPatternMember = false ∧
      ∀ cover, (defaulted left right).isMember cover = false := ⟨rfl, fun _ => rfl⟩
  cases n <;>
    simp only [children, List.mem_cons, List.mem_append, Option.mem_toList, List.not_mem_nil,
      or_false, List.mem_filterMap] at hc <;>
    simp only [fits] at h <;>
    simp only [defaultPlaces] <;>
    grind [lastMay_mem]

lemma isDefaulted_eq_false {n : Node} (h : n.isExpression = true ∨ n.isBlock = true) :
    n.isDefaulted = false := by
  cases n with
  | defaulted left right => exact absurd h (by simp [isExpression, isBlock])
  | _ => rfl

/-- The children with a default are those in the places for one. -/
lemma filter_isDefaulted_children {n : Node} (h : n.fits true = true) :
    n.children.filter isDefaulted = n.defaultPlaces.filter isDefaulted := by
  cases n with
  | function role id params body isAsync isGenerator =>
    simp only [fits, Bool.and_eq_true] at h
    simp [children, defaultPlaces, isDefaulted_eq_false (.inr h.2)]
  | arrow params body concise isAsync =>
    have hbody : body.isDefaulted = false := by
      rw [fits, Bool.and_eq_true] at h
      cases concise
      · exact isDefaulted_eq_false (.inr h.2)
      · exact isDefaulted_eq_false (.inl h.2)
    simp [children, defaultPlaces, hbody]
  | arrayPattern elements => rfl
  | property key value kind computed shorthand isMethod =>
    have hvalue := mem_defaultPlaces_of_fits (c := value) h (by simp [children])
    have hkey : key.isDefaulted = false := by
      cases key with
      | defaulted left right => simp [fits, no_category_of_isPart (m := defaulted left right) rfl] at h
      | _ => rfl
    rw [defaultPlaces] at hvalue ⊢
    rw [children, List.filter_cons, hkey, if_neg Bool.false_ne_true]
    split
    · rfl
    · next hplace =>
      rw [if_neg hplace] at hvalue
      exact List.filter_eq_nil_iff.2 (by simpa using hvalue)
  | _ =>
    refine List.filter_eq_nil_iff.2 fun c hc hdefault => ?_
    exact absurd (mem_defaultPlaces_of_fits h hc hdefault) List.not_mem_nil

/-! ### Members with a default -/

/-- A member with a default stands only among members. -/
lemma mem_members_of_fits {n c : Node} (h : n.fits true = true) (hc : c ∈ n.children)
    (hcover : c.isCover = true) : c ∈ n.patternMembers ++ n.literalMembers := by
  obtain ⟨key, value, kind, computed, shorthand, isMethod, rfl⟩ :
      ∃ key value kind computed shorthand isMethod,
        c = property key value kind computed shorthand isMethod := by
    cases c with
    | property key value kind computed shorthand isMethod => exact ⟨_, _, _, _, _, _, rfl⟩
    | _ => cases hcover
  have hno := no_category_of_isPart (m := property key value kind computed shorthand isMethod) rfl
  have hpart : (property key value kind computed shorthand isMethod).isParameter = false ∧
      (property key value kind computed shorthand isMethod).isElement = false := ⟨rfl, rfl⟩
  cases n <;>
    simp only [children, List.mem_cons, List.mem_append, Option.mem_toList, List.not_mem_nil,
      or_false, List.mem_filterMap] at hc <;>
    simp only [fits] at h <;>
    simp only [patternMembers, literalMembers, List.append_nil, List.nil_append] <;>
    grind [lastMay_mem]

/-- The children that are members with a default are members of a pattern or of a literal. -/
lemma filter_isCover_children {n : Node} (h : n.fits true = true) :
    n.children.filter isCover = (n.patternMembers ++ n.literalMembers).filter isCover := by
  cases n with
  | objectPattern members => exact congrArg (List.filter isCover) (List.append_nil members).symm
  | object members => rfl
  | _ =>
    refine List.filter_eq_nil_iff.2 fun c hc hcover => ?_
    exact absurd (mem_members_of_fits h hc hcover) List.not_mem_nil

/-- No default is out of place exactly if no literal has a member with one. -/
lemma defaultsInPlace_iff {n : Node} (h : n.fits true = true) :
    n.DefaultsInPlace ↔ n.hasCover = false := by
  have hliteral : n.hasCover = false ↔ n.literalMembers.filter isCover = [] := by
    cases n with
    | object members => simp [hasCover, literalMembers]
    | _ => simp [hasCover, literalMembers]
  have hmembers := filter_isCover_children h
  rw [List.filter_append] at hmembers
  rw [hliteral]
  constructor
  · intro hplace
    rw [hplace.members] at hmembers
    exact List.append_right_eq_self.1 hmembers.symm
  · intro hnone
    refine ⟨filter_isDefaulted_children h, ?_⟩
    rw [hmembers, hnone, List.append_nil]

end Node

/-- In the tree of a script every default is the default of a parameter, of an element of an array
pattern or of a member, and these members belong to object patterns and object literals.  All
defaults stand in patterns and parameters exactly if no object literal has a member with one. -/
theorem defaults_of_parse {text : String} {n : Node} (h : parse text = .ok n) :
    (n.Everywhere fun m =>
        m.children.filter Node.isDefaulted = m.defaultPlaces.filter Node.isDefaulted) ∧
      (n.Everywhere fun m => m.children.filter Node.isCover =
        (m.patternMembers ++ m.literalMembers).filter Node.isCover) ∧
      (n.Everywhere Node.DefaultsInPlace ↔ n.Everywhere fun m => m.hasCover = false) := by
  obtain ⟨_, htidy⟩ := tidy_of_parse h
  refine ⟨fun m hm => ?_, fun m hm => ?_, ?_⟩
  · exact Node.filter_isDefaulted_children (htidy m hm)
  · exact Node.filter_isCover_children (htidy m hm)
  · exact forall₂_congr fun m hm => Node.defaultsInPlace_iff (htidy m hm)

/-- Defaults of all kinds, and literals with members `c = 3` and `d = 4` that became patterns. -/
theorem defaults_of_parse_converted :
    ∃ n, parse "(a = 1, [b = 2]) => [\x7bc = 3\x7d, \x7bx: \x7bd = 4\x7d = e\x7d] = f;" = .ok n ∧
      n.Everywhere Node.DefaultsInPlace := by
  obtain ⟨n, hn, hcheck⟩ := exists_of_parse_any
    (show (parse
        "(a = 1, [b = 2]) => [\x7bc = 3\x7d, \x7bx: \x7bd = 4\x7d = e\x7d] = f;").toOption.any
      (fun n => n.walk.all fun m => !m.hasCover) = true by rw [parse_ofList]; decide +kernel)
  refine ⟨n, hn, (defaults_of_parse hn).2.2.2 fun m hm => ?_⟩
  simpa using List.all_eq_true.1 hcheck m hm

/-- In `f({a = 1})` a default is left in a literal. -/
theorem default_left_in_literal :
    ∃ n, parse "f(\x7ba = 1\x7d);" = .ok n ∧ (∃ m ∈ n.walk, m.hasCover = true) ∧
      ¬ n.Everywhere Node.DefaultsInPlace := by
  obtain ⟨n, hn, hcheck⟩ := exists_of_parse_any
    (show (parse "f(\x7ba = 1\x7d);").toOption.any (fun n => n.walk.any Node.hasCover) = true by
      decide +kernel)
  obtain ⟨m, hm, hcover⟩ := List.any_eq_true.1 hcheck
  refine ⟨n, hn, ⟨m, hm, hcover⟩, fun hplace => ?_⟩
  have hnone := (Node.defaultsInPlace_iff ((tidy_of_parse hn).2 m hm)).1 (hplace m hm)
  rw [hcover] at hnone
  cases hnone

end BindingProxy
