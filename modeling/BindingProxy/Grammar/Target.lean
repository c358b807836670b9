import BindingProxy.Grammar.Failure
import BindingProxy.Tree.Node

/-!
# Expressions as targets

The left side of an assignment is read as an expression first and turned into a target when the `=`
shows up: names and properties stay, array and object literals become patterns, and an assignment
inside them becomes a default.
-/

namespace BindingProxy

mutual

/-- The target that an expression stands for on the left of `=` or in the head of a loop. -/
def Node.toTarget : Node → Except SyntaxCause Node
  | .identifier name => .ok (.identifier name)
  | .member owner key computed false => .ok (.member owner key computed false)
  | .defaulted left right => .ok (.defaulted left right)
  | .array elements => (elementTargets elements).map .arrayPattern
  | .object properties => (memberTargets properties).map .objectPattern
  | _ => .error .invalidTarget

/-- The elements of an array literal as elements of a pattern. -/
def elementTargets : List (Option Node) → Except SyntaxCause (List (Option Node))
  | [] => .ok []
  | none :: elements => (elementTargets elements).map (none :: ·)
  | some (.spread argument) :: elements => do
    unless elements.isEmpty do throw .restNotLast
    return [some (.rest (← argument.toTarget))]
  | some (.assignment .assign left right) :: elements =>
    (elementTargets elements).map (some (.defaulted left right) :: ·)
  | some element :: elements => do
    let target ← element.toTarget
    return some target :: (← elementTargets elements)

/-- The members of an object literal as members of a pattern. -/
def memberTargets : List Node → Except SyntaxCause (List Node)
  | [] => .ok []
  | [.spread argument] => do return [.rest (← argument.toTarget)]
  | .property key (.assignment .assign left right) .init computed shorthand false :: members =>
    (memberTargets members).map
      (.property key (.defaulted left right) .init computed shorthand false :: ·)
  | .property key value .init computed shorthand false :: members => do
    let target ← value.toTarget
    return .property key target .init computed shorthand false :: (← memberTargets members)
  | _ :: _ => .error .invalidPatternMember

end

end BindingProxy
