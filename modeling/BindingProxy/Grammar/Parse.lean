import BindingProxy.Grammar.Failure
import BindingProxy.Token.Cursor

/-!
# Reading from a cursor

A `Parse` takes a cursor and gives a value with the cursor after it, or a failure.  Looking ahead is
running a `Parse` and dropping the cursor that it ends at.  Repetitions are bounded by the text that
is left: each turn takes at least one token, so the bound is never met, and meeting it is a failure
of its own.
-/

namespace BindingProxy

/-- The result of reading: a value and the cursor after it, or a failure. -/
inductive Reply (α : Type) where
  | ok (value : α) (next : Cursor)
  | fail (failure : ParseFailure)
deriving Inhabited

/-- A reader of values of type `α`. -/
def Parse (α : Type) := Cursor → Reply α

namespace Parse

/-- The value without reading anything. -/
def result {α : Type} (a : α) : Parse α := fun c => .ok a c

/-- Reads `p` and then, from where it ends, what `f` makes of its value. -/
def andThen {α β : Type} (p : Parse α) (f : α → Parse β) : Parse β := fun c =>
  match p c with
  | .ok a next => f a next
  | .fail failure => .fail failure

instance : Monad Parse where
  pure := result
  bind := andThen

/-- Stops with an error about the given bytes. -/
def refuse {α : Type} (cause : SyntaxCause) (span : Span) : Parse α := fun _ =>
  .fail (.refused ⟨cause, span⟩)

/-- Stops with an error about the current token. -/
def reject {α : Type} (cause : SyntaxCause) : Parse α := fun c =>
  .fail (.refused ⟨cause, c.token.span⟩)

/-- The current token. -/
def token : Parse Token := fun c => .ok c.token c

/-- The kind of the current token. -/
def kind : Parse TokenKind := fun c => .ok c.token.kind c

/-- Whether a line break stands before the current token. -/
def afterLineBreak : Parse Bool := fun c => .ok c.token.afterLineBreak c

/-- Moves to a cursor; a flaw met on the way is an error at its place. -/
def moveTo (reached : Cursor × Option Flaw) : Parse Unit := fun _ =>
  match reached.2 with
  | none => .ok () reached.1
  | some flaw => .fail (.refused ⟨.flawed flaw.cause, .point flaw.offset⟩)

/-- Moves to the next token. -/
def advance : Parse Unit := fun c =>
  match c.next? with
  | none => .fail .unreadable
  | some reached => moveTo reached c

/-- Reads the current slash again as the beginning of a regular expression. -/
def rereadSlash : Parse Unit := fun c => moveTo c.rereadSlash c

/-- Reads the current closing brace again as the end of a substitution. -/
def rereadBrace : Parse Unit := fun c => moveTo c.rereadBrace c

/-- The token after the current one; a flaw in it does not matter. -/
def peek : Parse Token := fun c =>
  match c.next? with
  | none => .fail .unreadable
  | some reached => .ok reached.1.token c

/-- Whether `p` reads and says yes from here; the cursor stays where it is.  A refusal means no. -/
def lookAhead (p : Parse Bool) : Parse Bool := fun c =>
  match p c with
  | .ok answer _ => .ok answer c
  | .fail (.refused _) => .ok false c
  | .fail failure => .fail failure

/-- Whether the current token is of a kind. -/
def isAt (k : TokenKind) : Parse Bool := fun c => .ok (c.token.kind == k) c

/-- Passes the current token if it is the punctuator, and says whether it was. -/
def accept (p : Punctuator) : Parse Bool := do
  if ← isAt (.punctuator p) then
    advance
    return true
  else
    return false

/-- Passes the current token if it is the reserved word, and says whether it was. -/
def acceptWord (w : ReservedWord) : Parse Bool := do
  if ← isAt (.reserved w) then
    advance
    return true
  else
    return false

/-- Passes the punctuator, which has to stand here. -/
def expect (p : Punctuator) : Parse Unit := do
  unless ← accept p do reject (.expected p.text)

/-- Passes the reserved word, which has to stand here. -/
def expectWord (w : ReservedWord) : Parse Unit := do
  unless ← acceptWord w do reject (.expected w.text)

/-- Stops because no rule reads the current token. -/
def unexpected {α : Type} : Parse α := do
  let t ← token
  if t.kind = .endOfText then reject .unexpectedEnd else reject (.unexpectedToken t.text)

/-! ### Repetition -/

/-- What a turn of a repetition decides. -/
inductive Turn (σ ρ : Type) where
  | again (state : σ)
  | done (result : ρ)

/-- At most as many turns as `bound` has characters. -/
def repeatWithin {σ ρ : Type} (turn : σ → Parse (Turn σ ρ)) : List Char → σ → Parse ρ
  | [], _ => fun _ => .fail .stalled
  | _ :: bound, state => do
    match ← turn state with
    | .again state => repeatWithin turn bound state
    | .done result => return result

/-- At least as many characters as there are tokens from the current one on.  The text that is left
serves as the bound itself, so that it is not measured at every repetition. -/
def tokenBound (c : Cursor) : List Char := ' ' :: ' ' :: c.rest

/-- Turns until one is done. -/
def repeatFrom {σ ρ : Type} (state : σ) (turn : σ → Parse (Turn σ ρ)) : Parse ρ := fun c =>
  repeatWithin turn (tokenBound c) state c

/-! ### Names -/

/-- The text of a name. -/
def name : Parse String := do
  let t ← token
  if t.kind.isName then
    advance
    return t.value
  else
    reject .nameExpected

/-- The text of a name or word, which can follow a dot. -/
def word : Parse String := do
  let t ← token
  if t.kind.isWord then
    advance
    return t.value
  else
    reject .nameExpected

/-! ### Ends of statements -/

/-- Whether a statement may end before the current token. -/
def canEnd : Parse Bool := do
  let t ← token
  return t.kind == .punctuator .semicolon || t.kind == .punctuator .closeBrace ||
    t.kind == .endOfText || t.afterLineBreak

/-- Passes a semicolon, which may be left out where a statement may end. -/
def endStatement : Parse Unit := do
  if ← accept .semicolon then return
  unless ← canEnd do reject (.expected ";")

end Parse

end BindingProxy
