import BindingProxy.Tree.Node

/-!
# How tightly a printed expression holds together

An operand is put in parentheses where it would otherwise be read in another way.  The table ranks
the kinds of expressions; two infix operators are compared by their strength.
-/

namespace BindingProxy

/-- How tightly a kind of expression holds together. -/
inductive Tightness where
  /-- Holds together in any place, or brings its own parentheses. -/
  | closed
  /-- A property, call or construction. -/
  | access
  | literal
  /-- Put in parentheses wherever it is an operand. -/
  | enclosed
  | update
  | unary
  | binary
  | logical
  | conditional
  | assignment
  | yielding
  | rest
deriving Repr, DecidableEq, Inhabited

/-- The rank of a tightness; a higher one holds together more tightly. -/
def Tightness.rank : Tightness → Nat
  | closed => 20 | access => 19 | literal => 18 | enclosed => 17 | update => 16 | unary => 15
  | binary => 14 | logical => 13 | conditional => 4 | assignment => 3 | yielding => 2 | rest => 1

namespace Node

/-- How tightly a node holds together as an operand. -/
def tightness : Node → Tightness
  | .literal _ _ => .literal
  | .member _ _ _ _ | .call _ _ _ | .construction _ _ => .access
  | .arrow _ _ _ _ | .classDefinition .expression _ _ _ | .function .expression _ _ _ _ _
  | .object _ => .enclosed
  | .update _ _ _ => .update
  | .unary _ _ | .awaiting _ => .unary
  | .binary _ _ _ => .binary
  | .logical _ _ _ => .logical
  | .conditional _ _ _ => .conditional
  | .assignment _ _ _ => .assignment
  | .yielding _ _ => .yielding
  | .rest _ => .rest
  | _ => .closed

/-- The infix operator of a node. -/
def infixOperator? : Node → Option InfixOperator
  | .binary operator _ _ => some (.binary operator)
  | .logical operator _ _ => some (.logical operator)
  | _ => none

end Node

/-- The side of its parent on which an operand stands. -/
inductive Side where
  | left | right
deriving Repr, DecidableEq, Inhabited

/-- Whether an infix expression needs parentheses as an operand of another of the same tightness:
powers group from the right, `??` is never mixed without parentheses, and the others group from the
left by strength. -/
def infixNeedsParens (tightness : Tightness) (inner outer : InfixOperator) (side : Side) : Bool :=
  if inner.isRightGrouping && outer.isRightGrouping then side == .left
  else if tightness == .logical && (inner == .logical .coalesce || outer == .logical .coalesce) then
    true
  else
    match side with
    | .right => inner.strength ≤ outer.strength
    | .left => inner.strength < outer.strength

/-- Whether a node needs parentheses as an operand of `outer`. -/
def Node.needsParens (inner outer : Node) (side : Side) : Bool :=
  let t := inner.tightness
  let u := outer.tightness
  if t == .enclosed then true
  else
    match inner.infixOperator?, outer.infixOperator? with
    | some i, some o =>
      if t == u then infixNeedsParens t i o side else t.rank < u.rank
    | _, o? =>
      -- The base of a power may not be a unary expression.
      let unaryBase := side == .left && t == .unary &&
        (match o? with
          | some o => o.isRightGrouping
          | none => false)
      t != u && (unaryBase || t.rank < u.rank)

/-- Whether a node needs parentheses before a property, a call or a template. -/
def Node.needsParensAsOwner (n : Node) : Bool :=
  n.tightness == .enclosed || n.tightness.rank < Tightness.access.rank

/-- Whether a call stands on the way down through owners and tags. -/
def Node.hasCallOnSpine : Node → Bool
  | .call _ _ _ => true
  | .member owner _ _ _ => owner.hasCallOnSpine
  | .taggedTemplate tag _ => tag.hasCallOnSpine
  | _ => false

/-- Whether the test of a conditional needs parentheses. -/
def Node.needsParensAsTest (n : Node) : Bool :=
  n.tightness == .enclosed || n.tightness.rank ≤ Tightness.conditional.rank

/-- Whether a node needs parentheses after `extends`. -/
def Node.needsParensAsSuperclass (n : Node) : Bool :=
  match n with
  | .classDefinition .expression _ _ _ => false
  | n => n.needsParensAsOwner

/-- Whether an expression would be read as something else at the beginning of a statement. -/
def Node.needsParensAsStatement (n : Node) : Bool :=
  n.tightness == .enclosed ||
    match n with
    | .assignment _ (.objectPattern _) _ => true
    | _ => false

/-- Whether a sign before an operand that begins with the same sign would run into it. -/
def repeatsSign (operator : UnaryOperator) (operand : Node) : Bool :=
  match operator, operand with
  | .minus, .unary .minus _ | .minus, .update .decrement true _ => true
  | .plus, .unary .plus _ | .plus, .update .increment true _ => true
  | _, _ => false

end BindingProxy
