import BindingProxy.Proofs.Token.Words
import BindingProxy.Tree.Node

/-!
# Plain scripts

The scripts made of all kinds of statements but classes, in which every expression, target,
parameter and label is a single name.
-/

namespace BindingProxy

/-- Whether an `else` that followed the statement would be taken for a part of it. -/
def Node.endsOpen : Node → Bool
  | .conditionalStatement _ _ none => true
  | .conditionalStatement _ _ (some alternate) => alternate.endsOpen
  | .whileLoop _ body | .forLoop _ _ _ body | .forEach _ _ _ body | .labeled _ body => body.endsOpen
  | _ => false

/-- The parts that plain scripts are made of. -/
inductive Part where
  | name | statement | block | declarator | handler | branch
deriving Repr, DecidableEq, Inhabited

/-- The parts of scripts in which every expression, target, parameter and label is a single name.
The shapes are those that the grammar asks for: something is declared, a guarded block has a handler
or a final block, the head of a loop over a value declares one target without a value, and no `else`
follows a statement that would take it. -/
inductive Plain : Part → Node → Prop where
  | identifier {name : String} (h : (Word.name name).IsToken) : Plain .name (.identifier name)
  | expressionStatement {e : Node} (he : Plain .name e) : Plain .statement (.expressionStatement e)
  | block {body : List Node} (h : ∀ s ∈ body, Plain .statement s) : Plain .block (.block body)
  | nested {b : Node} (h : Plain .block b) : Plain .statement b
  | empty : Plain .statement .empty
  | debugger : Plain .statement .debugger
  | returning {argument : Option Node} (h : ∀ e ∈ argument, Plain .name e) :
    Plain .statement (.returning argument)
  | throwing {argument : Node} (h : Plain .name argument) : Plain .statement (.throwing argument)
  | jump (kind : Jump) {label : Option String} (h : ∀ name ∈ label, (Word.name name).IsToken) :
    Plain .statement (.jump kind label)
  | ifThen {test consequent : Node} (htest : Plain .name test)
    (hconsequent : Plain .statement consequent) :
    Plain .statement (.conditionalStatement test consequent none)
  | ifElse {test consequent alternate : Node} (htest : Plain .name test)
    (hconsequent : Plain .statement consequent) (hclosed : consequent.endsOpen = false)
    (halternate : Plain .statement alternate) :
    Plain .statement (.conditionalStatement test consequent (some alternate))
  | whileLoop {test body : Node} (htest : Plain .name test) (hbody : Plain .statement body) :
    Plain .statement (.whileLoop test body)
  | doWhileLoop {body test : Node} (hbody : Plain .statement body) (htest : Plain .name test) :
    Plain .statement (.doWhileLoop body test)
  | forLoop {init test step : Option Node} {body : Node} (hinit : ∀ e ∈ init, Plain .name e)
    (htest : ∀ e ∈ test, Plain .name e) (hstep : ∀ e ∈ step, Plain .name e)
    (hbody : Plain .statement body) : Plain .statement (.forLoop init test step body)
  | forLoopDeclaring (kind : VariableKind) {declarators : List Node} {test step : Option Node}
    {body : Node} (hne : declarators ≠ []) (h : ∀ d ∈ declarators, Plain .declarator d)
    (htest : ∀ e ∈ test, Plain .name e) (hstep : ∀ e ∈ step, Plain .name e)
    (hbody : Plain .statement body) :
    Plain .statement (.forLoop (some (.declaration kind declarators)) test step body)
  | forEach (iteration : Iteration) {left right body : Node} (hleft : Plain .name left)
    (hright : Plain .name right) (hbody : Plain .statement body) :
    Plain .statement (.forEach iteration left right body)
  | forEachDeclaring (iteration : Iteration) (kind : VariableKind) {id right body : Node}
    (hid : Plain .name id) (hright : Plain .name right) (hbody : Plain .statement body) :
    Plain .statement (.forEach iteration (.declaration kind [.declarator id none]) right body)
  | handler {param : Option Node} {body : Node} (hparam : ∀ e ∈ param, Plain .name e)
    (hbody : Plain .block body) : Plain .handler (.handler param body)
  | guarded {body : Node} {recovery finalizer : Option Node} (hbody : Plain .block body)
    (hrecovery : ∀ h ∈ recovery, Plain .handler h) (hfinalizer : ∀ b ∈ finalizer, Plain .block b)
    (hneeded : recovery.isSome = true ∨ finalizer.isSome = true) :
    Plain .statement (.guarded body recovery finalizer)
  | branch {test : Option Node} {body : List Node} (htest : ∀ e ∈ test, Plain .name e)
    (hbody : ∀ s ∈ body, Plain .statement s) : Plain .branch (.switchCase test body)
  | switch {discriminant : Node} {branches : List Node} (hdiscriminant : Plain .name discriminant)
    (hbranches : ∀ b ∈ branches, Plain .branch b) : Plain .statement (.switch discriminant branches)
  | labeled {label : String} {body : Node} (hlabel : (Word.name label).IsToken)
    (hbody : Plain .statement body) : Plain .statement (.labeled label body)
  | declarator {id : Node} {init : Option Node} (hid : Plain .name id)
    (hinit : ∀ e ∈ init, Plain .name e) : Plain .declarator (.declarator id init)
  | declaration (kind : VariableKind) {declarators : List Node} (hne : declarators ≠ [])
    (h : ∀ d ∈ declarators, Plain .declarator d) : Plain .statement (.declaration kind declarators)
  | function {name : String} {params : List Node} {body : Node} (isAsync isGenerator : Bool)
    (hname : (Word.name name).IsToken) (hparams : ∀ p ∈ params, Plain .name p)
    (hbody : Plain .block body) :
    Plain .statement (.function .declaration (some name) params body isAsync isGenerator)

end BindingProxy
