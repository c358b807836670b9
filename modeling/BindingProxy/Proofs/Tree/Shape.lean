import BindingProxy.Proofs.Tree.Rebuild

/-!
# Well-formed trees

One type holds all nodes, so a tree may be put together in ways that no script has.  The rules below
say which nodes may stand in which places: a category is a property of the root of a tree, and
`fits` compares the places of a node with the categories of what stands there.  A tree is well formed
if its root is the program and every node fits.

There is one shape that is told apart by a parameter.  The reader of an object literal accepts
`a = b` as a member, because the literal may turn out to be a pattern.  Such a member is called a
cover here, and `fits true` allows it in a literal while `fits false` does not.
-/

namespace BindingProxy

/-- All items but the last satisfy `ok`, and the last one satisfies `ok` or `last`. -/
def lastMay {α : Type} (ok last : α → Bool) : List α → Bool
  | [] => true
  | [a] => ok a || last a
  | a :: as => ok a && lastMay ok last as

section LastMay

variable {α : Type} {ok last : α → Bool}

/-- Every item of such a list satisfies one of the two. -/
lemma lastMay_mem {as : List α} (h : lastMay ok last as = true) {a : α}
    (ha : a ∈ as) : ok a = true ∨ last a = true := by
  induction as with
  | nil => simp at ha
  | cons b as ih =>
    cases as with
    | nil =>
      have hb : a = b := by simpa using ha
      rw [lastMay, Bool.or_eq_true] at h
      rw [hb]
      exact h
    | cons b' as =>
      rw [lastMay, Bool.and_eq_true] at h
      · rcases List.mem_cons.1 ha with rfl | ha
        · exact .inl h.1
        · exact ih h.2 ha
      · simp

lemma lastMay_cons {a : α} {as : List α} (ha : ok a = true) (h : lastMay ok last as = true) :
    lastMay ok last (a :: as) = true := by
  cases as with
  | nil => simp [lastMay, ha]
  | cons b as => simp [lastMay, ha, h]

lemma lastMay_append {as bs : List α} (ha : ∀ a ∈ as, ok a = true)
    (h : lastMay ok last bs = true) : lastMay ok last (as ++ bs) = true := by
  induction as with
  | nil => exact h
  | cons a as ih =>
    exact lastMay_cons (ha a List.mem_cons_self) (ih fun b hb => ha b (List.mem_cons_of_mem a hb))

end LastMay

namespace Node

/-! ### Categories -/

/-- Nodes that stand in lists of statements and as bodies of loops and branches. -/
def isStatement : Node → Bool
  | expressionStatement _ | block _ | empty | debugger | returning _ | conditionalStatement _ _ _
  | whileLoop _ _ | doWhileLoop _ _ | forLoop _ _ _ _ | forEach _ _ _ _ | jump _ _ | throwing _
  | guarded _ _ _ | switch _ _ | labeled _ _ | declaration _ _ | function .declaration _ _ _ _ _
  | classDefinition .declaration _ _ _ => true
  | _ => false

/-- Nodes that have a value. -/
def isExpression : Node → Bool
  | identifier _ | literal _ _ | template _ _ | taggedTemplate _ _ | thisValue | superValue
  | array _ | object _ | function .expression _ _ _ _ _ | classDefinition .expression _ _ _
  | arrow _ _ _ _ | unary _ _ | update _ _ _ | binary _ _ _ | logical _ _ _ | assignment _ _ _
  | conditional _ _ _ | call _ _ _ | construction _ _ | member _ _ _ _ | sequence _
  | yielding _ _ | awaiting _ => true
  | _ => false

def isBlock : Node → Bool
  | block _ => true
  | _ => false

def isDeclaration : Node → Bool
  | declaration _ _ => true
  | _ => false

def isDeclarator : Node → Bool
  | declarator _ _ => true
  | _ => false

def isHandler : Node → Bool
  | handler _ _ => true
  | _ => false

def isSwitchCase : Node → Bool
  | switchCase _ _ => true
  | _ => false

def isMethod : Node → Bool
  | method _ _ _ _ _ => true
  | _ => false

def isTemplate : Node → Bool
  | template _ _ => true
  | _ => false

def isSpread : Node → Bool
  | spread _ => true
  | _ => false

def isRest : Node → Bool
  | rest _ => true
  | _ => false

def isDefaulted : Node → Bool
  | defaulted _ _ => true
  | _ => false

def isPattern : Node → Bool
  | arrayPattern _ | objectPattern _ => true
  | _ => false

/-- What a declaration, a parameter or a handler binds: a name or a pattern. -/
def isBinding (n : Node) : Bool := n.name?.isSome || n.isPattern

/-- What a plain assignment stores into: a name, a property or a pattern. -/
def isTarget (n : Node) : Bool := n.isPlace || n.isPattern

/-- What stands in a pattern besides a rest element. -/
def isElement (n : Node) : Bool := n.isTarget || n.isDefaulted

/-- What stands in an array literal or among arguments. -/
def isArgument (n : Node) : Bool := n.isExpression || n.isSpread

/-- What stands among parameters besides a rest element. -/
def isParameter : Node → Bool
  | defaulted left _ => left.isBinding
  | n => n.isBinding

/-- The value of a method or an accessor: a function as a value, without a name. -/
def isMethodFunction : Node → Bool
  | function .expression none _ _ _ _ => true
  | _ => false

/-- What the head of a loop with three parts may begin with. -/
def isLoopStart (n : Node) : Bool := n.isDeclaration || n.isExpression

/-- The left side of a loop over a value: one declared target without a value, or a target. -/
def isLoopTarget : Node → Bool
  | declaration _ [declarator _ none] => true
  | n => n.isTarget

/-- The key of a property or a method. -/
def isKey (computed : Bool) : Node → Bool
  | identifier _ | literal .string _ | literal .number _ => true
  | n => computed && n.isExpression

/-- A member of an object literal.  The values of accessors and methods have a rule of their own. -/
def isMember (cover : Bool) : Node → Bool
  | spread _ => true
  | property _ value kind _ _ isMethod =>
    kind != .init || isMethod || value.isExpression || (cover && value.isDefaulted)
  | _ => false

/-- A member of an object pattern besides a rest element. -/
def isPatternMember : Node → Bool
  | property _ value kind _ _ isMethod => kind == .init && !isMethod && value.isElement
  | _ => false

/-! ### The rules -/

/-- Whether what stands in the places of a node may stand there.  With `cover`, an object literal may
have members `a = b`. -/
def fits (cover : Bool) : Node → Bool
  | program body | block body => body.all isStatement
  | empty | debugger | jump _ _ | identifier _ | literal _ _ | thisValue | superValue => true
  | expressionStatement e | throwing e | unary _ e | spread e | awaiting e => e.isExpression
  | returning argument => argument.all isExpression
  | conditionalStatement test consequent alternate =>
    test.isExpression && consequent.isStatement && alternate.all isStatement
  | whileLoop test body | doWhileLoop body test => test.isExpression && body.isStatement
  | forLoop init test step body =>
    init.all isLoopStart && test.all isExpression && step.all isExpression && body.isStatement
  | forEach _ left right body => left.isLoopTarget && right.isExpression && body.isStatement
  | guarded body recovery finalizer =>
    body.isBlock && recovery.all isHandler && finalizer.all isBlock &&
      (recovery.isSome || finalizer.isSome)
  | handler param body => param.all isBinding && body.isBlock
  | switch discriminant cases => discriminant.isExpression && cases.all isSwitchCase
  | switchCase test consequent => test.all isExpression && consequent.all isStatement
  | labeled _ body => body.isStatement
  | declaration _ declarators => !declarators.isEmpty && declarators.all isDeclarator
  | declarator id init => id.isBinding && init.all isExpression
  | function role id params body _ _ =>
    (role == .expression || id.isSome) && lastMay isParameter isRest params && body.isBlock
  | classDefinition role id superClass body =>
    (role == .expression || id.isSome) && superClass.all isExpression && body.all isMethod
  | template quasis expressions =>
    quasis.length == expressions.length + 1 && expressions.all isExpression
  | taggedTemplate tag quasi => tag.isExpression && quasi.isTemplate
  | array elements => elements.all (·.all isArgument)
  | object properties => properties.all (isMember cover)
  | property key value kind computed _ isMethod =>
    key.isKey computed &&
      if kind == .init && !isMethod then value.isExpression || value.isElement
      else value.isMethodFunction
  | arrow params body concise _ =>
    lastMay isParameter isRest params && if concise then body.isExpression else body.isBlock
  | method key value _ computed _ => key.isKey computed && value.isMethodFunction
  | update _ _ argument => argument.isPlace
  | binary _ left right | logical _ left right => left.isExpression && right.isExpression
  | assignment operator left right =>
    (if operator == .assign then left.isTarget else left.isPlace) && right.isExpression
  | conditional test consequent alternate =>
    test.isExpression && consequent.isExpression && alternate.isExpression
  | call callee arguments _ | construction callee arguments =>
    callee.isExpression && arguments.all isArgument
  | member owner key computed _ =>
    owner.isExpression && if computed then key.isExpression else key.name?.isSome
  | sequence expressions => 2 ≤ expressions.length && expressions.all isExpression
  | yielding argument delegate => argument.all isExpression && (argument.isSome || !delegate)
  | objectPattern members => lastMay isPatternMember isRest members
  | arrayPattern elements =>
    lastMay (fun o => o.all isElement) (fun o => o.any isRest) elements
  | defaulted left right => left.isTarget && right.isExpression
  | rest argument => argument.isTarget

/-- A tree as a script has it: the root is the program, there is no program below it, and every node
has in its places what may stand there. -/
structure WellFormed (n : Node) : Prop where
  root : n.kind = .program
  below : n.Everywhere fun m => ∀ c ∈ m.children, c.kind ≠ .program
  fits : n.Everywhere fun m => m.fits false = true

/-- A member `a = b` of an object literal. -/
def isCover : Node → Bool
  | property _ value kind _ _ isMethod => kind == .init && !isMethod && value.isDefaulted
  | _ => false

/-- An object literal with a member `a = b`. -/
def hasCover : Node → Bool
  | object members => members.any isCover
  | _ => false

/-! ### Consequences -/

variable {n : Node}

/-- Only programs have the kind of a program. -/
lemma exists_eq_program (h : n.kind = .program) : ∃ body, n = program body := by
  unfold kind at h
  split at h <;> cases h
  exact ⟨_, rfl⟩

/-- The nodes that are for no place, or for one among parameters, elements and members only. -/
def isPart : Node → Bool
  | program _ | defaulted _ _ | property _ _ _ _ _ _ => true
  | _ => false

/-- Such a node is in none of the other categories. -/
lemma no_category_of_isPart {m : Node} (h : m.isPart = true) :
    m.isStatement = false ∧ m.isExpression = false ∧ m.isBlock = false ∧ m.isDeclarator = false ∧
      m.isHandler = false ∧ m.isSwitchCase = false ∧ m.isMethod = false ∧ m.isTemplate = false ∧
      m.isArgument = false ∧ m.isRest = false ∧ m.isBinding = false ∧ m.isTarget = false ∧
      m.isPlace = false ∧ m.isMethodFunction = false ∧ m.isLoopStart = false ∧
      m.isLoopTarget = false ∧ m.name? = none ∧ ∀ computed, m.isKey computed = false := by
  have hkey : ∀ computed, m.isKey computed = false := by
    rintro (_ | _) <;> cases m <;> first | rfl | cases h
  cases m with
  | program | defaulted | property =>
    exact ⟨rfl, rfl, rfl, rfl, rfl, rfl, rfl, rfl, rfl, rfl, rfl, rfl, rfl, rfl, rfl, rfl, rfl, hkey⟩
  | _ => cases h

/-- No place is for a program. -/
lemma kind_ne_program_of_fits {cover : Bool} (h : n.fits cover = true) :
    ∀ c ∈ n.children, c.kind ≠ .program := by
  intro c hc hk
  obtain ⟨body, rfl⟩ := exists_eq_program hk
  have hno := no_category_of_isPart (m := program body) rfl
  have hpart : (program body).isParameter = false ∧ (program body).isElement = false ∧
      (program body).isPatternMember = false ∧ ∀ cover, (program body).isMember cover = false :=
    ⟨rfl, rfl, rfl, fun _ => rfl⟩
  cases n <;>
    simp only [children, List.mem_cons, List.mem_append, Option.mem_toList, List.not_mem_nil,
      or_false, List.mem_filterMap] at hc <;>
    simp only [fits] at h <;>
    grind [lastMay_mem]

/-- A target with a default has no value. -/
lemma isExpression_of_isDefaulted (h : n.isDefaulted = true) : n.isExpression = false := by
  cases n with
  | defaulted left right => rfl
  | _ => cases h

/-- The members of an object literal are those that it may have, covers apart. -/
lemma isMember_false_iff (m : Node) :
    m.isMember false = true ↔ m.isMember true = true ∧ m.isCover = false := by
  cases m with
  | property key value kind computed shorthand isMethod =>
    have h := isExpression_of_isDefaulted (n := value)
    simp only [isMember, isCover]
    grind
  | _ => simp [isMember, isCover]

/-- The strict rule is the one with covers and no cover in an object literal. -/
lemma fits_false_iff (n : Node) : n.fits false = true ↔ n.fits true = true ∧ n.hasCover = false := by
  cases n with
  | object members =>
    simp only [fits, hasCover, List.all_eq_true, List.any_eq_false, isMember_false_iff,
      Bool.not_eq_true]
    exact forall₂_and
  | _ => simp only [fits, hasCover, and_true]

/-! ### Trees of a category -/

/-- Every node fits; object literals may have covers. -/
def Tidy (n : Node) : Prop := n.Everywhere fun m => m.fits true = true

/-- A tree of a category in which every node fits. -/
def Sound (category : Node → Bool) (n : Node) : Prop := category n = true ∧ n.Tidy

variable {category : Node → Bool}

/-- A tree is tidy if its root fits and its children are tidy. -/
lemma tidy_iff : n.Tidy ↔ n.fits true = true ∧ ∀ c ∈ n.children, c.Tidy :=
  everywhere_iff

lemma Sound.mk (hcategory : category n = true) (hfits : n.fits true = true)
    (hbelow : ∀ c ∈ n.children, c.Tidy) : Sound category n :=
  ⟨hcategory, tidy_iff.2 ⟨hfits, hbelow⟩⟩

/-- A tree of a category that lies in another. -/
lemma Sound.mono {category' : Node → Bool} (h : Sound category n)
    (himp : category n = true → category' n = true) : Sound category' n :=
  ⟨himp h.1, h.2⟩

lemma tidy_identifier (name : String) : (identifier name).Tidy := tidy_iff.2 ⟨rfl, by simp [children]⟩

lemma tidy_literal (kind : LiteralKind) (raw : String) : (literal kind raw).Tidy :=
  tidy_iff.2 ⟨rfl, by simp [children]⟩

lemma isTarget_of_isBinding (h : n.isBinding = true) : n.isTarget = true := by
  cases n <;> first | rfl | cases h

lemma isElement_of_isParameter (h : n.isParameter = true) : n.isElement = true := by
  cases n <;> first | rfl | cases h

lemma isParameter_of_isBinding (h : n.isBinding = true) : n.isParameter = true := by
  cases n <;> first | rfl | cases h

lemma isKey_of_isExpression (h : n.isExpression = true) : n.isKey true = true := by
  unfold isKey
  split <;> simp [h]

/-- Tidy trees of a category, where the last one may be of another. -/
def SoundList (category last : Node → Bool) (ns : List Node) : Prop :=
  lastMay category last ns = true ∧ ∀ n ∈ ns, n.Tidy

lemma sound_objectPattern {ts : List Node} :
    Sound isPattern (objectPattern ts) ↔ SoundList isPatternMember isRest ts := by
  rw [Sound, tidy_iff, SoundList]
  simp [isPattern, fits, children]

lemma sound_arrayPattern {ts : List (Option Node)} :
    Sound isPattern (arrayPattern ts) ↔
      lastMay (fun o => o.all isElement) (fun o => o.any isRest) ts = true ∧
        ∀ t, some t ∈ ts → t.Tidy := by
  rw [Sound, tidy_iff]
  simp [isPattern, fits, children]

/-- A pattern grows at its front by an element. -/
lemma sound_arrayPattern_cons {o : Option Node} {ts : List (Option Node)}
    (ho : ∀ t ∈ o, Sound isElement t) (h : Sound isPattern (arrayPattern ts)) :
    Sound isPattern (arrayPattern (o :: ts)) := by
  rw [sound_arrayPattern] at h ⊢
  refine ⟨lastMay_cons ?_ h.1, ?_⟩
  · cases o with
    | none => rfl
    | some t => exact (ho t rfl).1
  · intro t ht
    rcases List.mem_cons.1 ht with rfl | ht
    · exact (ho t rfl).2
    · exact h.2 t ht

/-- A pattern grows at its front by a member. -/
lemma sound_objectPattern_cons {t : Node} {ts : List Node} (ht : Sound isPatternMember t)
    (h : Sound isPattern (objectPattern ts)) : Sound isPattern (objectPattern (t :: ts)) := by
  rw [sound_objectPattern] at h ⊢
  exact ⟨lastMay_cons ht.1 h.1, List.forall_mem_cons.2 ⟨ht.2, h.2⟩⟩

/-- A rest element around a target. -/
lemma sound_rest_of_binding {target : Node} (h : Sound isBinding target) :
    Sound isRest (rest target) :=
  .mk rfl (isTarget_of_isBinding h.1) (by simpa [children] using h.2)

end Node

end BindingProxy
