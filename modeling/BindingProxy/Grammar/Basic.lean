import BindingProxy.Grammar.Parse
import BindingProxy.Tree.Node

/-!
# Contexts and levels

What a word means depends on the function around it, and `in` is no operator in the first part of a
`for` head; a `Context` holds both.  The rules of the grammar call each other without end, and every
such way round passes through one of six rules that count the nesting.  A `Grammar` holds these six
one level further in, and the other rules are written in terms of it.
-/

namespace BindingProxy

/-- What the reading of an expression depends on besides the text. -/
structure Context where
  /-- Inside an async function: `await` is an operator. -/
  inAsync : Bool := false
  /-- Inside a generator: `yield` is an operator. -/
  inGenerator : Bool := false
  /-- In the first part of a `for` head: `in` is not an operator. -/
  withoutIn : Bool := false
deriving Repr, DecidableEq, Inhabited

namespace Context

/-- The context with `in` as an operator. -/
def allowIn (ctx : Context) : Context := { ctx with withoutIn := false }

/-- The context without `in` as an operator. -/
def disallowIn (ctx : Context) : Context := { ctx with withoutIn := true }

/-- The context of a function's parameters and body. -/
def ofFunction (isAsync isGenerator : Bool) : Context := ⟨isAsync, isGenerator, false⟩

/-- The context of an arrow function's body. -/
def ofArrow (ctx : Context) (isAsync : Bool) : Context :=
  { ctx with inAsync := isAsync, inGenerator := false }

end Context

/-- The rules that count the nesting, one level further in. -/
structure Grammar where
  statement : Context → Parse Node
  /-- A name, array pattern or object pattern that binds. -/
  target : Context → Parse Node
  assignment : Context → Parse Node
  /-- The right operand of an infix operator: operators up to the given strength end it. -/
  operand : Nat → Context → Parse Node
  unary : Context → Parse Node
  construction : Context → Parse Node

namespace Grammar

/-- The level at which every rule refuses to go further in. -/
def exhausted : Grammar where
  statement _ := .reject .nestedTooDeeply
  target _ := .reject .nestedTooDeeply
  assignment _ := .reject .nestedTooDeeply
  operand _ _ := .reject .nestedTooDeeply
  unary _ := .reject .nestedTooDeeply
  construction _ := .reject .nestedTooDeeply

end Grammar

end BindingProxy
