import BindingProxy.Grammar.Statement

/-!
# Scripts

The grammar is built up level by level: the rules of a level call those of the level below, and
below the last one nothing can be read.  The number of levels is the nesting that a script may have.
-/

namespace BindingProxy

namespace Grammar

/-- The level above another. -/
def above (g : Grammar) : Grammar where
  statement ctx := anyStatement g ctx
  target ctx := bindingTarget g ctx
  assignment ctx := assignmentExpression g ctx
  operand limit ctx := binaryExpression g limit ctx
  unary ctx := unaryExpression g ctx
  construction ctx := newExpression g ctx

/-- The grammar with a number of levels. -/
def level : Nat → Grammar
  | 0 => exhausted
  | n + 1 => above (level n)

/-- How deep the counted rules may be nested. -/
def maxNesting : Nat := 512

open Parse

/-- A whole script. -/
def program (g : Grammar) : Parse Node := do
  advance
  let body ← repeatFrom [] fun found => do
    if ← isAt .endOfText then return .done found.reverse
    return .again ((← g.statement {}) :: found)
  return .program body

end Grammar

/-- The tree of a script. -/
def parse (text : String) : Except ParseFailure Node :=
  match (Grammar.level Grammar.maxNesting).program (Cursor.start text) with
  | .ok program _ => .ok program
  | .fail failure => .error failure

/-- The first statement of a script; an expression statement gives its expression.  A script without
statements has none. -/
def parseFragment (text : String) : Except ParseFailure (Option Node) :=
  (parse text).map fun
    | .program (.expressionStatement e :: _) => some e
    | .program (statement :: _) => some statement
    | _ => none

end BindingProxy
