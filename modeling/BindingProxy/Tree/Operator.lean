import BindingProxy.Token.Kind

/-!
# Operators

The operators of expressions, each with its spelling and the token that announces it.  The strength
of an infix operator says which of two neighbours takes an operand: the higher one binds tighter.
-/

namespace BindingProxy

/-- An operator before its only operand. -/
inductive UnaryOperator where
  | minus | plus | not | bitNot | typeof | void | delete
deriving Repr, DecidableEq, Inhabited

namespace UnaryOperator

def text : UnaryOperator → String
  | minus => "-" | plus => "+" | not => "!" | bitNot => "~"
  | typeof => "typeof" | void => "void" | delete => "delete"

def ofToken? : TokenKind → Option UnaryOperator
  | .punctuator .minus => some minus
  | .punctuator .plus => some plus
  | .punctuator .bang => some not
  | .punctuator .tilde => some bitNot
  | .reserved .kwTypeof => some typeof
  | .reserved .kwVoid => some void
  | .reserved .kwDelete => some delete
  | _ => none

/-- The operators that are words. -/
def isWord : UnaryOperator → Bool
  | typeof | void | delete => true
  | _ => false

end UnaryOperator

/-- An infix operator that computes a value from both operands. -/
inductive BinaryOperator where
  | equal | notEqual | strictEqual | strictNotEqual
  | less | lessEqual | greater | greaterEqual
  | shiftLeft | shiftRight | shiftRightUnsigned
  | add | subtract | multiply | divide | remainder | power
  | bitOr | bitXor | bitAnd
  | isIn | isInstanceOf
deriving Repr, DecidableEq, Inhabited

namespace BinaryOperator

def text : BinaryOperator → String
  | equal => "==" | notEqual => "!=" | strictEqual => "===" | strictNotEqual => "!=="
  | less => "<" | lessEqual => "<=" | greater => ">" | greaterEqual => ">="
  | shiftLeft => "<<" | shiftRight => ">>" | shiftRightUnsigned => ">>>"
  | add => "+" | subtract => "-" | multiply => "*" | divide => "/" | remainder => "%"
  | power => "**"
  | bitOr => "|" | bitXor => "^" | bitAnd => "&"
  | isIn => "in" | isInstanceOf => "instanceof"

def ofToken? : TokenKind → Option BinaryOperator
  | .punctuator .equal => some equal
  | .punctuator .notEqual => some notEqual
  | .punctuator .strictEqual => some strictEqual
  | .punctuator .strictNotEqual => some strictNotEqual
  | .punctuator .less => some less
  | .punctuator .lessEqual => some lessEqual
  | .punctuator .greater => some greater
  | .punctuator .greaterEqual => some greaterEqual
  | .punctuator .shiftLeft => some shiftLeft
  | .punctuator .shiftRight => some shiftRight
  | .punctuator .shiftRightUnsigned => some shiftRightUnsigned
  | .punctuator .plus => some add
  | .punctuator .minus => some subtract
  | .punctuator .star => some multiply
  | .punctuator .slash => some divide
  | .punctuator .percent => some remainder
  | .punctuator .starStar => some power
  | .punctuator .bar => some bitOr
  | .punctuator .caret => some bitXor
  | .punctuator .ampersand => some bitAnd
  | .reserved .kwIn => some isIn
  | .reserved .kwInstanceof => some isInstanceOf
  | _ => none

/-- The strength of a binary operator; the logical ones lie below all of these. -/
def strength : BinaryOperator → Nat
  | bitOr => 3
  | bitXor => 4
  | bitAnd => 5
  | equal | notEqual | strictEqual | strictNotEqual => 6
  | less | lessEqual | greater | greaterEqual | isIn | isInstanceOf => 7
  | shiftLeft | shiftRight | shiftRightUnsigned => 8
  | add | subtract => 9
  | multiply | divide | remainder => 10
  | power => 11

/-- The operators that are words. -/
def isWord : BinaryOperator → Bool
  | isIn | isInstanceOf => true
  | _ => false

end BinaryOperator

/-- An operator that adds or takes away one. -/
inductive UpdateOperator where
  | increment | decrement
deriving Repr, DecidableEq, Inhabited

namespace UpdateOperator

def text : UpdateOperator → String
  | increment => "++" | decrement => "--"

def ofToken? : TokenKind → Option UpdateOperator
  | .punctuator .plusPlus => some increment
  | .punctuator .minusMinus => some decrement
  | _ => none

/-- The binary operator that applies the change by one. -/
def delta : UpdateOperator → BinaryOperator
  | increment => .add
  | decrement => .subtract

end UpdateOperator

/-- An infix operator that may leave its right operand alone. -/
inductive LogicalOperator where
  | or | and | coalesce
deriving Repr, DecidableEq, Inhabited

namespace LogicalOperator

def text : LogicalOperator → String
  | or => "||" | and => "&&" | coalesce => "??"

def ofToken? : TokenKind → Option LogicalOperator
  | .punctuator .barBar => some or
  | .punctuator .andAnd => some and
  | .punctuator .questionQuestion => some coalesce
  | _ => none

/-- The strength of a logical operator. -/
def strength : LogicalOperator → Nat
  | or | coalesce => 1
  | and => 2

end LogicalOperator

/-- An operator that stores a value. -/
inductive AssignmentOperator where
  | assign
  | add | subtract | multiply | divide | remainder | power
  | shiftLeft | shiftRight | shiftRightUnsigned
  | bitOr | bitXor | bitAnd
  | or | and | coalesce
deriving Repr, DecidableEq, Inhabited

namespace AssignmentOperator

def text : AssignmentOperator → String
  | assign => "="
  | add => "+=" | subtract => "-=" | multiply => "*=" | divide => "/=" | remainder => "%="
  | power => "**="
  | shiftLeft => "<<=" | shiftRight => ">>=" | shiftRightUnsigned => ">>>="
  | bitOr => "|=" | bitXor => "^=" | bitAnd => "&="
  | or => "||=" | and => "&&=" | coalesce => "??="

def ofToken? : TokenKind → Option AssignmentOperator
  | .punctuator .assign => some assign
  | .punctuator .plusAssign => some add
  | .punctuator .minusAssign => some subtract
  | .punctuator .starAssign => some multiply
  | .punctuator .slashAssign => some divide
  | .punctuator .percentAssign => some remainder
  | .punctuator .starStarAssign => some power
  | .punctuator .shiftLeftAssign => some shiftLeft
  | .punctuator .shiftRightAssign => some shiftRight
  | .punctuator .shiftRightUnsignedAssign => some shiftRightUnsigned
  | .punctuator .barAssign => some bitOr
  | .punctuator .caretAssign => some bitXor
  | .punctuator .ampersandAssign => some bitAnd
  | .punctuator .barBarAssign => some or
  | .punctuator .andAndAssign => some and
  | .punctuator .questionQuestionAssign => some coalesce
  | _ => none

/-- The operator of `+=`, `-=`, `*=`, `/=` and `%=`; the others are not taken apart. -/
def arithmetic? : AssignmentOperator → Option BinaryOperator
  | add => some .add
  | subtract => some .subtract
  | multiply => some .multiply
  | divide => some .divide
  | remainder => some .remainder
  | _ => none

end AssignmentOperator

/-- An operator between two operands. -/
inductive InfixOperator where
  | binary (operator : BinaryOperator)
  | logical (operator : LogicalOperator)
deriving Repr, DecidableEq, Inhabited

namespace InfixOperator

def ofToken? (kind : TokenKind) : Option InfixOperator :=
  ((LogicalOperator.ofToken? kind).map logical).or ((BinaryOperator.ofToken? kind).map binary)

def strength : InfixOperator → Nat
  | binary operator => operator.strength
  | logical operator => operator.strength

/-- Only the power groups from the right. -/
def isRightGrouping : InfixOperator → Bool
  | binary .power => true
  | _ => false

end InfixOperator

end BindingProxy
