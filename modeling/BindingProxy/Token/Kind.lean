/-!
# Kinds of tokens

A token is a literal, a piece of a template, a name, a punctuator or a word of the language.  A
reserved word is never a name; a contextual word is a name that some places of the grammar read as a
word.
-/

namespace BindingProxy

/-- The marks and operators that are not words. -/
inductive Punctuator where
  | openBrace | closeBrace | openParen | closeParen | openBracket | closeBracket
  | dot | ellipsis | semicolon | comma | questionDot
  | less | greater | lessEqual | greaterEqual
  | equal | notEqual | strictEqual | strictNotEqual | arrow
  | plus | minus | star | starStar | slash | percent | plusPlus | minusMinus
  | shiftLeft | shiftRight | shiftRightUnsigned
  | ampersand | bar | caret | bang | tilde
  | andAnd | barBar | question | colon | questionQuestion
  | assign | plusAssign | minusAssign | starAssign | starStarAssign | slashAssign | percentAssign
  | shiftLeftAssign | shiftRightAssign | shiftRightUnsignedAssign
  | ampersandAssign | barAssign | caretAssign | andAndAssign | barBarAssign
  | questionQuestionAssign
deriving Repr, DecidableEq, Inhabited

namespace Punctuator

/-- The spelling of a punctuator. -/
def text : Punctuator → String
  | openBrace => "\x7b" | closeBrace => "\x7d" | openParen => "(" | closeParen => ")"
  | openBracket => "[" | closeBracket => "]"
  | dot => "." | ellipsis => "..." | semicolon => ";" | comma => "," | questionDot => "?."
  | less => "<" | greater => ">" | lessEqual => "<=" | greaterEqual => ">="
  | equal => "==" | notEqual => "!=" | strictEqual => "===" | strictNotEqual => "!=="
  | arrow => "=>"
  | plus => "+" | minus => "-" | star => "*" | starStar => "**" | slash => "/" | percent => "%"
  | plusPlus => "++" | minusMinus => "--"
  | shiftLeft => "<<" | shiftRight => ">>" | shiftRightUnsigned => ">>>"
  | ampersand => "&" | bar => "|" | caret => "^" | bang => "!" | tilde => "~"
  | andAnd => "&&" | barBar => "||" | question => "?" | colon => ":" | questionQuestion => "??"
  | assign => "=" | plusAssign => "+=" | minusAssign => "-=" | starAssign => "*="
  | starStarAssign => "**=" | slashAssign => "/=" | percentAssign => "%="
  | shiftLeftAssign => "<<=" | shiftRightAssign => ">>=" | shiftRightUnsignedAssign => ">>>="
  | ampersandAssign => "&=" | barAssign => "|=" | caretAssign => "^="
  | andAndAssign => "&&=" | barBarAssign => "||=" | questionQuestionAssign => "??="

/-- The punctuators that begin with a character, a longer one before each of its beginnings. -/
def startingWith : Char → List Punctuator
  | '\x7b' => [openBrace] | '\x7d' => [closeBrace] | '(' => [openParen] | ')' => [closeParen]
  | '[' => [openBracket] | ']' => [closeBracket]
  | '.' => [ellipsis, dot] | ';' => [semicolon] | ',' => [comma] | ':' => [colon] | '~' => [tilde]
  | '?' => [questionDot, questionQuestionAssign, questionQuestion, question]
  | '<' => [shiftLeftAssign, shiftLeft, lessEqual, less]
  | '>' => [shiftRightUnsignedAssign, shiftRightUnsigned, shiftRightAssign, shiftRight,
      greaterEqual, greater]
  | '=' => [strictEqual, equal, arrow, assign]
  | '!' => [strictNotEqual, notEqual, bang]
  | '+' => [plusPlus, plusAssign, plus]
  | '-' => [minusMinus, minusAssign, minus]
  | '*' => [starStarAssign, starStar, starAssign, star]
  | '/' => [slashAssign, slash]
  | '%' => [percentAssign, percent]
  | '&' => [andAndAssign, andAnd, ampersandAssign, ampersand]
  | '|' => [barBarAssign, barBar, barAssign, bar]
  | '^' => [caretAssign, caret]
  | _ => []

/-- The punctuators that assign: `=` and those that end in it after an operator. -/
def isAssignment : Punctuator → Bool
  | assign | plusAssign | minusAssign | starAssign | starStarAssign | slashAssign | percentAssign
  | shiftLeftAssign | shiftRightAssign | shiftRightUnsignedAssign
  | ampersandAssign | barAssign | caretAssign | andAndAssign | barBarAssign
  | questionQuestionAssign => true
  | _ => false

end Punctuator

/-- The words that are never names. -/
inductive ReservedWord where
  | kwBreak | kwCase | kwCatch | kwClass | kwConst | kwContinue | kwDebugger | kwDefault
  | kwDelete | kwDo | kwElse | kwExtends | kwFalse | kwFinally | kwFor | kwFunction | kwIf | kwIn
  | kwInstanceof | kwNew | kwNull | kwReturn | kwSuper | kwSwitch | kwThis | kwThrow | kwTrue
  | kwTry | kwTypeof | kwVar | kwVoid | kwWhile | kwWith
deriving Repr, DecidableEq, Inhabited

namespace ReservedWord

/-- The spelling of a reserved word. -/
def text : ReservedWord → String
  | kwBreak => "break" | kwCase => "case" | kwCatch => "catch" | kwClass => "class"
  | kwConst => "const" | kwContinue => "continue" | kwDebugger => "debugger"
  | kwDefault => "default" | kwDelete => "delete" | kwDo => "do" | kwElse => "else"
  | kwExtends => "extends" | kwFalse => "false" | kwFinally => "finally" | kwFor => "for"
  | kwFunction => "function" | kwIf => "if" | kwIn => "in" | kwInstanceof => "instanceof"
  | kwNew => "new" | kwNull => "null" | kwReturn => "return" | kwSuper => "super"
  | kwSwitch => "switch" | kwThis => "this" | kwThrow => "throw" | kwTrue => "true"
  | kwTry => "try" | kwTypeof => "typeof" | kwVar => "var" | kwVoid => "void"
  | kwWhile => "while" | kwWith => "with"

/-- All reserved words. -/
def all : List ReservedWord :=
  [kwBreak, kwCase, kwCatch, kwClass, kwConst, kwContinue, kwDebugger, kwDefault, kwDelete, kwDo,
    kwElse, kwExtends, kwFalse, kwFinally, kwFor, kwFunction, kwIf, kwIn, kwInstanceof, kwNew,
    kwNull, kwReturn, kwSuper, kwSwitch, kwThis, kwThrow, kwTrue, kwTry, kwTypeof, kwVar, kwVoid,
    kwWhile, kwWith]

end ReservedWord

/-- The names that some places of the grammar read as words. -/
inductive ContextualWord where
  | kwLet | kwStatic | kwYield | kwAsync | kwAwait | kwOf | kwGet | kwSet
deriving Repr, DecidableEq, Inhabited

namespace ContextualWord

/-- The spelling of a contextual word. -/
def text : ContextualWord → String
  | kwLet => "let" | kwStatic => "static" | kwYield => "yield" | kwAsync => "async"
  | kwAwait => "await" | kwOf => "of" | kwGet => "get" | kwSet => "set"

/-- All contextual words. -/
def all : List ContextualWord :=
  [kwLet, kwStatic, kwYield, kwAsync, kwAwait, kwOf, kwGet, kwSet]

end ContextualWord

/-- What a token is. -/
inductive TokenKind where
  /-- A character that begins no token, and the state before the first token. -/
  | unknown
  | endOfText
  | number
  | string
  | regExp
  /-- A template without substitutions, from backtick to backtick. -/
  | templateWhole
  /-- The part of a template before its first substitution. -/
  | templateHead
  /-- The part of a template between two substitutions. -/
  | templateMiddle
  /-- The part of a template after its last substitution. -/
  | templateTail
  | identifier
  | punctuator (p : Punctuator)
  | reserved (w : ReservedWord)
  | contextual (w : ContextualWord)
deriving Repr, DecidableEq, Inhabited

namespace TokenKind

/-- The word that a spelling stands for, if it stands for one. -/
def ofWord? (text : String) : Option TokenKind :=
  ((ReservedWord.all.find? fun w => w.text == text).map TokenKind.reserved).or
    ((ContextualWord.all.find? fun w => w.text == text).map TokenKind.contextual)

def isReserved : TokenKind → Bool
  | reserved _ => true
  | _ => false

def isContextual : TokenKind → Bool
  | contextual _ => true
  | _ => false

/-- The kinds that can name a binding: identifiers and contextual words. -/
def isName : TokenKind → Bool
  | identifier | contextual _ => true
  | _ => false

/-- The kinds that can name a property: names and reserved words. -/
def isWord : TokenKind → Bool
  | identifier | contextual _ | reserved _ => true
  | _ => false

def isAssignment : TokenKind → Bool
  | punctuator p => p.isAssignment
  | _ => false

/-- The kinds that begin a template. -/
def isTemplateStart : TokenKind → Bool
  | templateWhole | templateHead => true
  | _ => false

end TokenKind

end BindingProxy
