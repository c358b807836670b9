import BindingProxy.Tree.Node

/-!
# Children

Every node has its children in a fixed order, and `withChildren` puts other nodes in their places.
What a traversal does to the nodes that it has no rule for is then one line.  A child is smaller
than its parent, so what passes from the children to their parent holds of every tree.
-/

namespace BindingProxy

namespace Node

/-- The children of a node in their order.  Holes of arrays are no children. -/
def children : Node → List Node
  | program body | block body => body
  | expressionStatement expression => [expression]
  | empty | debugger | jump _ _ | identifier _ | literal _ _ | thisValue | superValue => []
  | returning argument => argument.toList
  | conditionalStatement test consequent alternate => test :: consequent :: alternate.toList
  | whileLoop test body => [test, body]
  | doWhileLoop body test => [body, test]
  | forLoop init test step body => init.toList ++ test.toList ++ step.toList ++ [body]
  | forEach _ left right body => [left, right, body]
  | throwing argument | spread argument | awaiting argument | rest argument
  | unary _ argument | update _ _ argument => [argument]
  | guarded body recovery finalizer => body :: (recovery.toList ++ finalizer.toList)
  | handler param body => param.toList ++ [body]
  | switch discriminant cases => discriminant :: cases
  | switchCase test consequent => test.toList ++ consequent
  | labeled _ body => [body]
  | declaration _ declarators => declarators
  | declarator id init => id :: init.toList
  | function _ _ params body _ _ => params ++ [body]
  | classDefinition _ _ superClass body => superClass.toList ++ body
  | template _ expressions => expressions
  | taggedTemplate tag quasi => [tag, quasi]
  | array elements | arrayPattern elements => elements.filterMap id
  | object properties | objectPattern properties => properties
  | property key value _ _ _ _ | method key value _ _ _ => [key, value]
  | arrow params body _ _ => params ++ [body]
  | binary _ left right | logical _ left right | assignment _ left right
  | defaulted left right => [left, right]
  | conditional test consequent alternate => [test, consequent, alternate]
  | call callee arguments _ | construction callee arguments => callee :: arguments
  | member owner key _ _ => [owner, key]
  | sequence expressions => expressions
  | yielding argument _ => argument.toList

/-! ### Filling places from a supply of nodes -/

/-- A supply of nodes, taken from the front. -/
abbrev Supply := StateM (List Node)

/-- Takes a node for one place, which keeps its node when the supply is used up. -/
def fill (old : Node) : Supply Node := fun supply =>
  match supply with
  | [] => (old, [])
  | n :: supply => (n, supply)

/-- Fills a place that may be missing. -/
def fillOption : Option Node → Supply (Option Node)
  | none => pure none
  | some old => return some (← fill old)

/-- Fills a list of places. -/
def fillList : List Node → Supply (List Node)
  | [] => pure []
  | old :: olds => return (← fill old) :: (← fillList olds)

/-- Fills a list of places, keeping its holes. -/
def fillHoles : List (Option Node) → Supply (List (Option Node))
  | [] => pure []
  | old :: olds => return (← fillOption old) :: (← fillHoles olds)

/-- Fills the places of a node's children in their order. -/
def refill : Node → Supply Node
  | program body => return program (← fillList body)
  | expressionStatement expression => return expressionStatement (← fill expression)
  | block body => return block (← fillList body)
  | empty => return empty
  | debugger => return debugger
  | returning argument => return returning (← fillOption argument)
  | conditionalStatement test consequent alternate =>
    return conditionalStatement (← fill test) (← fill consequent) (← fillOption alternate)
  | whileLoop test body => return whileLoop (← fill test) (← fill body)
  | doWhileLoop body test => return doWhileLoop (← fill body) (← fill test)
  | forLoop init test step body =>
    return forLoop (← fillOption init) (← fillOption test) (← fillOption step) (← fill body)
  | forEach iteration left right body =>
    return forEach iteration (← fill left) (← fill right) (← fill body)
  | jump kind label => return jump kind label
  | throwing argument => return throwing (← fill argument)
  | guarded body recovery finalizer =>
    return guarded (← fill body) (← fillOption recovery) (← fillOption finalizer)
  | handler param body => return handler (← fillOption param) (← fill body)
  | switch discriminant cases => return switch (← fill discriminant) (← fillList cases)
  | switchCase test consequent => return switchCase (← fillOption test) (← fillList consequent)
  | labeled label body => return labeled label (← fill body)
  | declaration kind declarators => return declaration kind (← fillList declarators)
  | declarator id init => return declarator (← fill id) (← fillOption init)
  | function role id params body isAsync isGenerator =>
    return function role id (← fillList params) (← fill body) isAsync isGenerator
  | classDefinition role id superClass body =>
    return classDefinition role id (← fillOption superClass) (← fillList body)
  | identifier name => return identifier name
  | literal kind raw => return literal kind raw
  | template quasis expressions => return template quasis (← fillList expressions)
  | taggedTemplate tag quasi => return taggedTemplate (← fill tag) (← fill quasi)
  | thisValue => return thisValue
  | superValue => return superValue
  | array elements => return array (← fillHoles elements)
  | object properties => return object (← fillList properties)
  | property key value kind computed shorthand isMethod =>
    return property (← fill key) (← fill value) kind computed shorthand isMethod
  | arrow params body concise isAsync =>
    return arrow (← fillList params) (← fill body) concise isAsync
  | method key value kind computed isStatic =>
    return method (← fill key) (← fill value) kind computed isStatic
  | unary operator argument => return unary operator (← fill argument)
  | update operator leading argument => return update operator leading (← fill argument)
  | binary operator left right => return binary operator (← fill left) (← fill right)
  | logical operator left right => return logical operator (← fill left) (← fill right)
  | assignment operator left right => return assignment operator (← fill left) (← fill right)
  | conditional test consequent alternate =>
    return conditional (← fill test) (← fill consequent) (← fill alternate)
  | call callee arguments optional =>
    return call (← fill callee) (← fillList arguments) optional
  | construction callee arguments =>
    return construction (← fill callee) (← fillList arguments)
  | member owner key computed optional =>
    return member (← fill owner) (← fill key) computed optional
  | sequence expressions => return sequence (← fillList expressions)
  | spread argument => return spread (← fill argument)
  | yielding argument delegate => return yielding (← fillOption argument) delegate
  | awaiting argument => return awaiting (← fill argument)
  | objectPattern properties => return objectPattern (← fillList properties)
  | arrayPattern elements => return arrayPattern (← fillHoles elements)
  | defaulted left right => return defaulted (← fill left) (← fill right)
  | rest argument => return rest (← fill argument)

/-- A node with other children, given in their order. -/
def withChildren (n : Node) (children : List Node) : Node :=
  (n.refill.run children).1

theorem supply_pure {α : Type} (a : α) (supply : List Node) :
    (pure a : Supply α) supply = (a, supply) := rfl

theorem supply_bind {α β : Type} (p : Supply α) (f : α → Supply β) (supply : List Node) :
    (p >>= f) supply = f (p supply).1 (p supply).2 := rfl

theorem fill_self (n : Node) (supply : List Node) : fill n (n :: supply) = (n, supply) := rfl

theorem fillOption_self (o : Option Node) (supply : List Node) :
    fillOption o (o.toList ++ supply) = (o, supply) := by
  cases o <;> rfl

theorem fillList_self (ns supply : List Node) : fillList ns (ns ++ supply) = (ns, supply) := by
  induction ns with
  | nil => rfl
  | cons n ns ih =>
    simp only [fillList, List.cons_append, supply_bind, supply_pure, fill_self, ih]

theorem fillHoles_self (elements : List (Option Node)) (supply : List Node) :
    fillHoles elements (elements.filterMap id ++ supply) = (elements, supply) := by
  induction elements with
  | nil => rfl
  | cons o elements ih =>
    have h : (o :: elements).filterMap id ++ supply =
        o.toList ++ (elements.filterMap id ++ supply) := by
      cases o <;> simp
    rw [h]
    simp only [fillHoles, supply_bind, supply_pure, fillOption_self, ih]

/-- A node takes exactly its children from a supply that begins with them. -/
theorem refill_self (n : Node) (supply : List Node) :
    refill n (n.children ++ supply) = (n, supply) := by
  cases n <;>
    simp only [refill, children, supply_bind, supply_pure, fill_self, fillOption_self,
      fillList_self, fillHoles_self, List.append_assoc, List.cons_append, List.nil_append]

/-- A node with its own children is the node itself. -/
@[simp]
theorem withChildren_children (n : Node) : n.withChildren n.children = n := by
  have h := refill_self n []
  rw [List.append_nil] at h
  rw [withChildren, StateT.run, h]

/-- Other children do not change the kind of a node. -/
@[simp]
theorem kind_withChildren (n : Node) (children : List Node) :
    (n.withChildren children).kind = n.kind := by
  cases n with
  | forEach iteration => cases iteration <;> rfl
  | function role => cases role <;> rfl
  | classDefinition role => cases role <;> rfl
  | _ => rfl

/-! ### Children are smaller -/

theorem sizeOf_lt_of_mem_option {c : Node} {o : Option Node} (h : c ∈ o.toList) :
    sizeOf c < sizeOf o := by
  cases o with
  | none => simp at h
  | some n =>
    have : c = n := by simpa using h
    subst this
    simp

theorem sizeOf_lt_of_mem_holes {c : Node} {elements : List (Option Node)}
    (h : c ∈ elements.filterMap id) : sizeOf c < sizeOf elements := by
  obtain ⟨o, ho, hc⟩ := List.mem_filterMap.1 h
  have h₁ := List.sizeOf_lt_of_mem ho
  have h₂ : o = some c := by simpa using hc
  subst h₂
  simp at h₁
  omega

/-- A child is smaller than its parent. -/
theorem sizeOf_lt_of_mem_children {c n : Node} (h : c ∈ n.children) : sizeOf c < sizeOf n := by
  cases n <;> simp only [children, List.mem_append, List.mem_cons, List.not_mem_nil] at h <;>
    grind [→ List.sizeOf_lt_of_mem, → sizeOf_lt_of_mem_option, → sizeOf_lt_of_mem_holes]

/-- A property holds of every tree if it passes from the children of a node to the node. -/
theorem induction_on_children {P : Node → Prop} (step : ∀ n, (∀ c ∈ n.children, P c) → P n)
    (n : Node) : P n :=
  step n fun c _ => induction_on_children step c
termination_by n
decreasing_by exact sizeOf_lt_of_mem_children ‹_›

end Node

end BindingProxy
