import BindingProxy.Grammar.Program
import BindingProxy.Proofs.Grammar.Runs

/-!
# Phrases

The words that spell an expression, without regard to blanks and to the way they came about.
`Derives phrase e ws` says that the words `ws` spell the expression `e` where a phrase of a certain
kind is wanted.  The kinds are those of the grammar: a primary expression, an operand with its links,
operators before and after an operand, infix operators by their strength, and so on up to an
expression with commas.  Every kind takes in a tighter one as it is, and parentheses make a primary
expression of anything.

Functions, classes, objects, templates and regular expressions are left out.
-/

namespace BindingProxy

open Word

/-! ### Lists of phrases -/

/-- The elements of an array: a comma after each, which may be missing after the last one if that is
no hole. -/
def elementWords : List (Option (List Word)) → List Word
  | [] => []
  | none :: elements => punctuator .comma :: elementWords elements
  | [some ws] => ws
  | some ws :: elements => ws ++ punctuator .comma :: elementWords elements

/-- Items with commas between them. -/
def separated (items : List (List Word)) : List Word := elementWords (items.map some)

/-- Items with commas between them, in parentheses. -/
def parenthesizedWords (items : List (List Word)) : List Word :=
  punctuator .openParen :: (separated items ++ [punctuator .closeParen])

/-! ### Kinds of phrases -/

/-- The kind of literal that a word is. -/
def Word.literalKind? (w : Word) : Option LiteralKind :=
  match w.kind with
  | .number => some (if w.text.toList.getLast? = some 'n' then .bigInt else .number)
  | .string => some .string
  | .reserved .kwNull => some .null
  | .reserved .kwTrue | .reserved .kwFalse => some .boolean
  | _ => none

/-- The strength up to which operators end the left operand of an operator. -/
def leftLimit (operator : InfixOperator) : Nat :=
  if operator.isRightGrouping then operator.strength else operator.strength - 1

/-- Operators of one strength group from the same side. -/
lemma InfixOperator.isRightGrouping_eq {o p : InfixOperator} (h : o.strength = p.strength) :
    o.isRightGrouping = p.isRightGrouping := by
  revert h
  rcases o with o | o <;> rcases p with p | p <;> cases o <;> cases p <;> decide

/-- What is wanted in a place of an expression. -/
inductive Phrase where
  | primary
  /-- An operand with its links, calls and optional ones among them if `calls` are allowed. -/
  | linked (calls : Bool)
  | unary
  /-- Infix operators that are stronger than `limit`. -/
  | infixed (limit : Nat)
  | conditional
  | assignment
  /-- An argument or an element of an array. -/
  | item
  | expression
deriving Repr, DecidableEq, Inhabited

/-- The words `ws` spell the expression where the phrase is wanted. -/
inductive Derives : Phrase → Node → List Word → Prop where
  | name {w : Word} (hw : w.kind = .identifier) : Derives .primary (.identifier w.text) [w]
  | literal {w : Word} {kind : LiteralKind} (hw : w.literalKind? = some kind) :
    Derives .primary (.literal kind w.text) [w]
  | thisValue : Derives .primary .thisValue [reserved .kwThis]
  | array {elements : List (Option (Node × List Word))}
    (h : ∀ e ws, some (e, ws) ∈ elements → Derives .item e ws) :
    Derives .primary (.array (elements.map (Option.map Prod.fst)))
      (punctuator .openBracket ::
        (elementWords (elements.map (Option.map Prod.snd)) ++ [punctuator .closeBracket]))
  | parens {e ws} (h : Derives .expression e ws) :
    Derives .primary e (punctuator .openParen :: (ws ++ [punctuator .closeParen]))
  | head {calls e ws} (h : Derives .primary e ws) :
    Derives (.linked calls) e ws
  | construction {calls : Bool} {callee : Node} {ws : List Word} {items : List (Node × List Word)}
    (hcallee : Derives (.linked false) callee ws)
    (hitems : ∀ e ws, (e, ws) ∈ items → Derives .item e ws) :
    Derives (.linked calls) (.construction callee (items.map Prod.fst))
      (reserved .kwNew :: (ws ++ parenthesizedWords (items.map Prod.snd)))
  | dot {calls : Bool} {owner : Node} {ws : List Word} {w : Word}
    (h : Derives (.linked calls) owner ws) (hw : w.kind.isWord = true) :
    Derives (.linked calls) (.member owner (.identifier w.text) false false)
      (ws ++ [punctuator .dot, w])
  | index {calls : Bool} {owner key : Node} {ws us : List Word}
    (howner : Derives (.linked calls) owner ws) (hkey : Derives .expression key us) :
    Derives (.linked calls) (.member owner key true false)
      (ws ++ punctuator .openBracket :: (us ++ [punctuator .closeBracket]))
  | call {callee : Node} {ws : List Word} {items : List (Node × List Word)}
    (hcallee : Derives (.linked true) callee ws)
    (hitems : ∀ e ws, (e, ws) ∈ items → Derives .item e ws) :
    Derives (.linked true) (.call callee (items.map Prod.fst) false)
      (ws ++ parenthesizedWords (items.map Prod.snd))
  | optionalDot {owner : Node} {ws : List Word} {w : Word} (h : Derives (.linked true) owner ws)
    (hw : w.kind.isWord = true) :
    Derives (.linked true) (.member owner (.identifier w.text) false true)
      (ws ++ [punctuator .questionDot, w])
  | optionalIndex {owner key : Node} {ws us : List Word} (howner : Derives (.linked true) owner ws)
    (hkey : Derives .expression key us) :
    Derives (.linked true) (.member owner key true true)
      (ws ++ punctuator .questionDot :: punctuator .openBracket ::
        (us ++ [punctuator .closeBracket]))
  | optionalCall {callee : Node} {ws : List Word} {items : List (Node × List Word)}
    (hcallee : Derives (.linked true) callee ws)
    (hitems : ∀ e ws, (e, ws) ∈ items → Derives .item e ws) :
    Derives (.linked true) (.call callee (items.map Prod.fst) true)
      (ws ++ punctuator .questionDot :: parenthesizedWords (items.map Prod.snd))
  | operand {e ws} (h : Derives (.linked true) e ws) : Derives .unary e ws
  | updateAfter {w : Word} {operator : UpdateOperator} {e : Node} {ws : List Word}
    (hw : UpdateOperator.ofToken? w.kind = some operator) (hplace : e.isPlace = true)
    (h : Derives (.linked true) e ws) : Derives .unary (.update operator false e) (ws ++ [w])
  | updateBefore {w : Word} {operator : UpdateOperator} {e : Node} {ws : List Word}
    (hw : UpdateOperator.ofToken? w.kind = some operator) (hplace : e.isPlace = true)
    (h : Derives .unary e ws) : Derives .unary (.update operator true e) (w :: ws)
  | operator {w : Word} {operator : UnaryOperator} {e : Node} {ws : List Word}
    (hw : UnaryOperator.ofToken? w.kind = some operator) (h : Derives .unary e ws) :
    Derives .unary (.unary operator e) (w :: ws)
  | single {limit e ws} (h : Derives .unary e ws) :
    Derives (.infixed limit) e ws
  | joined {limit : Nat} {w : Word} {operator : InfixOperator} {left right : Node}
    {ws us : List Word} (hw : InfixOperator.ofToken? w.kind = some operator)
    (hlimit : limit < operator.strength) (hleft : Derives (.infixed (leftLimit operator)) left ws)
    (hright : Derives (.infixed (Grammar.rightLimit operator)) right us) :
    Derives (.infixed limit) (Grammar.joinOperands operator left right) (ws ++ w :: us)
  | test {e ws} (h : Derives (.infixed 0) e ws) : Derives .conditional e ws
  | choice {test consequent alternate : Node} {ws us vs : List Word}
    (htest : Derives (.infixed 0) test ws) (hconsequent : Derives .assignment consequent us)
    (halternate : Derives .assignment alternate vs) :
    Derives .conditional (.conditional test consequent alternate)
      (ws ++ punctuator .question :: (us ++ punctuator .colon :: vs))
  | value {e ws} (h : Derives .conditional e ws) : Derives .assignment e ws
  | assign {w : Word} {operator : AssignmentOperator} {left right : Node} {ws us : List Word}
    (hw : AssignmentOperator.ofToken? w.kind = some operator) (hplace : left.isPlace = true)
    (hleft : Derives (.linked true) left ws) (hright : Derives .assignment right us) :
    Derives .assignment (.assignment operator left right) (ws ++ w :: us)
  | item {e ws} (h : Derives .assignment e ws) : Derives .item e ws
  | spread {e ws} (h : Derives .assignment e ws) :
    Derives .item (.spread e) (punctuator .ellipsis :: ws)
  | alone {e ws} (h : Derives .assignment e ws) : Derives .expression e ws
  | sequence {items : List (Node × List Word)} (hlength : 2 ≤ items.length)
    (h : ∀ e ws, (e, ws) ∈ items → Derives .assignment e ws) :
    Derives .expression (.sequence (items.map Prod.fst)) (separated (items.map Prod.snd))

/-! ### Phrases in place of others -/

/-- Phrases of the first kind can be taken as they are for phrases of the second kind. -/
inductive Phrase.FitsIn : Phrase → Phrase → Prop where
  | refl (phrase : Phrase) : FitsIn phrase phrase
  | head (calls : Bool) {phrase} (h : FitsIn (.linked calls) phrase) : FitsIn .primary phrase
  | calls {phrase} (h : FitsIn (.linked true) phrase) : FitsIn (.linked false) phrase
  | operand {phrase} (h : FitsIn .unary phrase) : FitsIn (.linked true) phrase
  | single (limit : Nat) {phrase} (h : FitsIn (.infixed limit) phrase) : FitsIn .unary phrase
  | weaker {limit m phrase} (hle : limit ≤ m) (h : FitsIn (.infixed limit) phrase) :
    FitsIn (.infixed m) phrase
  | test {phrase} (h : FitsIn .conditional phrase) : FitsIn (.infixed 0) phrase
  | value {phrase} (h : FitsIn .assignment phrase) : FitsIn .conditional phrase
  | item : FitsIn .assignment .item
  | alone : FitsIn .assignment .expression

variable {phrase : Phrase} {e : Node} {ws : List Word}

/-- Where calls are allowed, they need not be there. -/
lemma Derives.linked_true (h : Derives (.linked false) e ws) : Derives (.linked true) e ws := by
  generalize hphrase : Phrase.linked false = phrase at h
  induction h with
  | head h => exact .head h
  | construction hcallee hitems => exact .construction hcallee hitems
  | dot _ hw ih => exact .dot (ih hphrase) hw
  | index _ hkey ih => exact .index (ih hphrase) hkey
  | _ => cases hphrase

/-- Operators that are stronger than a limit are stronger than a lower one. -/
lemma Derives.infixed_of_le {limit m : Nat} (hle : limit ≤ m) (h : Derives (.infixed m) e ws) :
    Derives (.infixed limit) e ws := by
  cases h with
  | single h => exact .single h
  | joined hw hlimit hleft hright =>
    exact .joined hw (Nat.lt_of_le_of_lt hle hlimit) hleft hright

lemma Derives.mono {phrase' : Phrase} (h : Derives phrase e ws) (hfits : phrase.FitsIn phrase') :
    Derives phrase' e ws := by
  induction hfits with
  | refl => exact h
  | head _ _ ih => exact ih (.head h)
  | calls _ ih => exact ih h.linked_true
  | operand _ ih => exact ih (.operand h)
  | single _ _ ih => exact ih (.single h)
  | weaker hle _ ih => exact ih (h.infixed_of_le hle)
  | test _ ih => exact ih (.test h)
  | value _ ih => exact ih (.value h)
  | item => exact .item h
  | alone => exact .alone h

/-! ### The first words -/

/-- The kinds of words that begin a primary expression. -/
def startsPrimary : TokenKind → Bool
  | .identifier | .number | .string | .reserved .kwNull | .reserved .kwTrue | .reserved .kwFalse
  | .reserved .kwThis | .punctuator .openParen | .punctuator .openBracket => true
  | _ => false

/-- The kinds of words that begin an operand with its links. -/
def startsOperand (k : TokenKind) : Bool := startsPrimary k || k == .reserved .kwNew

/-- The kinds of words that begin an expression. -/
def startsExpression (k : TokenKind) : Bool :=
  startsOperand k || (UnaryOperator.ofToken? k).isSome || (UpdateOperator.ofToken? k).isSome

/-- The kinds of words that begin a phrase. -/
def Phrase.startsWith : Phrase → TokenKind → Bool
  | primary, k => startsPrimary k
  | linked _, k => startsOperand k
  | item, k => startsExpression k || k == .punctuator .ellipsis
  | _, k => startsExpression k

lemma startsPrimary_of_literalKind? {w : Word} {kind : LiteralKind}
    (h : w.literalKind? = some kind) : startsPrimary w.kind = true := by
  unfold Word.literalKind? at h
  split at h
  case h_6 => cases h
  all_goals simp_all only [startsPrimary]

lemma startsOperand_of_startsPrimary {k : TokenKind} (h : startsPrimary k = true) :
    startsOperand k = true := by
  rw [startsOperand, h, Bool.true_or]

lemma startsExpression_of_startsOperand {k : TokenKind} (h : startsOperand k = true) :
    startsExpression k = true := by
  rw [startsExpression, h, Bool.true_or, Bool.true_or]

/-- Two or more items begin with the first one and a comma. -/
lemma exists_separated {items : List (Node × List Word)} (h : 2 ≤ items.length) :
    ∃ e ws us, (e, ws) ∈ items ∧
      separated (items.map Prod.snd) = ws ++ punctuator .comma :: us := by
  match items, h with
  | (e, ws) :: second :: items, _ => exact ⟨e, ws, _, List.mem_cons_self, rfl⟩

/-- A phrase begins with one of the words that it may begin with. -/
lemma Derives.startsWith (h : Derives phrase e ws) (rest : List Word) :
    phrase.startsWith (headKind (ws ++ rest)) = true := by
  induction h generalizing rest with
  | name hw => exact congrArg startsPrimary hw
  | literal hw => exact startsPrimary_of_literalKind? hw
  | thisValue | array | parens | construction | spread => rfl
  | head _ ih => exact startsOperand_of_startsPrimary (ih rest)
  | operand _ ih => exact startsExpression_of_startsOperand (ih rest)
  | updateBefore hw => simp [headKind, Phrase.startsWith, startsExpression, hw]
  | operator hw => simp [headKind, Phrase.startsWith, startsExpression, hw]
  | single _ ih | test _ ih | value _ ih | alone _ ih => exact ih rest
  | item _ ih => exact Bool.or_eq_true_iff.2 (.inl (ih rest))
  | dot _ _ ih | index _ _ ih _ | call _ _ ih _ | optionalDot _ _ ih | optionalIndex _ _ ih _
  | optionalCall _ _ ih _ | joined _ _ _ _ ih _ | choice _ _ _ ih _ _ =>
    rw [List.append_assoc]
    exact ih _
  | updateAfter _ _ _ ih | assign _ _ _ _ ih _ =>
    rw [List.append_assoc]
    exact startsExpression_of_startsOperand (ih _)
  | sequence hlength _ ih =>
    obtain ⟨e, ws, us, hmem, heq⟩ := exists_separated hlength
    rw [heq, List.append_assoc]
    exact ih e ws hmem _

/-- A name at the beginning of a phrase is not followed by a colon. -/
lemma Derives.ne_colon (h : Derives phrase e ws) {rest : List Word}
    (hrest : headKind rest ≠ .punctuator .colon) (hname : headKind (ws ++ rest) = .identifier) :
    headKind (ws ++ rest).tail ≠ .punctuator .colon := by
  induction h generalizing rest with
  | name hw => exact hrest
  | literal hw => exact hrest
  | thisValue | array | parens | construction | spread => cases hname
  | head _ ih | operand _ ih | single _ ih | test _ ih | value _ ih | alone _ ih | item _ ih =>
    exact ih hrest hname
  | updateBefore hw | operator hw =>
    rw [List.cons_append, headKind_word] at hname
    rw [hname] at hw
    cases hw
  | dot _ _ ih | index _ _ ih _ | call _ _ ih _ | optionalDot _ _ ih | optionalIndex _ _ ih _
  | optionalCall _ _ ih _ | choice _ _ _ ih _ _ =>
    rw [List.append_assoc] at hname ⊢
    exact ih (by rintro ⟨⟩) hname
  | joined hw _ _ _ ih _ | updateAfter hw _ _ ih | assign hw _ _ _ ih _ =>
    rw [List.append_assoc] at hname ⊢
    refine ih (fun hcolon => ?_) hname
    rw [List.cons_append, headKind_word] at hcolon
    rw [hcolon] at hw
    cases hw
  | sequence hlength _ ih =>
    obtain ⟨e, ws, us, hmem, heq⟩ := exists_separated hlength
    rw [heq, List.append_assoc] at hname ⊢
    exact ih e ws hmem (by rintro ⟨⟩) hname

/-! ### Words without arrow functions

Before a parenthesised expression is read, its words are tried as the parameters of an arrow
function.  This has to come to an end without an arrow, wherever it begins. -/

/-- The kinds of words that may follow an expression without commas where it ends. -/
def closes : TokenKind → Bool
  | .punctuator .closeParen | .punctuator .closeBracket | .punctuator .comma | .punctuator .colon
  | .punctuator .semicolon => true
  | _ => false

/-- The kinds of words that take no part in arrow functions and in the defaults of their
parameters. -/
def isCalm : TokenKind → Bool
  | .punctuator .arrow | .punctuator .openBrace | .punctuator .assign => false
  | _ => true

/-- There are no arrows and no braces among the words, and after every `=` there is an expression
that comes to its end. -/
def Tame : List Word → Prop
  | [] => True
  | w :: ws =>
    (w.kind ≠ .punctuator .arrow ∧ w.kind ≠ .punctuator .openBrace) ∧
    (w.kind = .punctuator .assign → ∃ e us rest, ws = us ++ rest ∧ Derives .assignment e us ∧
      closes (headKind rest) = true) ∧
    Tame ws

namespace Tame

lemma cons {w : Word} {ws : List Word} (hw : isCalm w.kind = true) (h : Tame ws) :
    Tame (w :: ws) := by
  refine ⟨⟨?_, ?_⟩, ?_, h⟩
  all_goals
    intro hkind
    rw [hkind] at hw
    cases hw

lemma append_right {us ws : List Word} (h : Tame (us ++ ws)) : Tame ws := by
  induction us with
  | nil => exact h
  | cons u us ih => exact ih h.2.2

lemma headKind_ne_arrow {ws : List Word} (h : Tame ws) : headKind ws ≠ .punctuator .arrow := by
  cases ws with
  | nil => nofun
  | cons w ws => exact h.1.1

lemma headKind_ne_openBrace {ws : List Word} (h : Tame ws) :
    headKind ws ≠ .punctuator .openBrace := by
  cases ws with
  | nil => nofun
  | cons w ws => exact h.1.2

/-- Elements that are tame before their end are tame with the commas between them. -/
lemma elementWords {elements : List (Option (List Word))}
    (h : ∀ ws, some ws ∈ elements → ∀ rest, Tame rest → closes (headKind rest) = true →
      Tame (ws ++ rest))
    {rest : List Word} (hrest : Tame rest) (hcloses : closes (headKind rest) = true) :
    Tame (elementWords elements ++ rest) := by
  fun_induction BindingProxy.elementWords elements with
  | case1 => exact hrest
  | case2 elements ih => exact .cons rfl (ih fun ws hws => h ws (List.mem_cons_of_mem _ hws))
  | case3 ws => exact h ws List.mem_cons_self rest hrest hcloses
  | case4 ws elements _ ih =>
    rw [List.append_assoc]
    refine h ws List.mem_cons_self _ (.cons rfl ?_) rfl
    exact ih fun ws hws => h ws (List.mem_cons_of_mem _ hws)

end Tame

section

variable {k : TokenKind}

lemma isCalm_of_startsPrimary (h : startsPrimary k = true) : isCalm k = true := by
  unfold isCalm
  split <;> first | rfl | cases h

lemma isCalm_of_isWord (h : k.isWord = true) : isCalm k = true := by
  unfold isCalm
  split <;> first | rfl | cases h

lemma isCalm_of_unary {operator : UnaryOperator} (h : UnaryOperator.ofToken? k = some operator) :
    isCalm k = true := by
  unfold isCalm
  split <;> first | rfl | cases h

lemma isCalm_of_update {operator : UpdateOperator} (h : UpdateOperator.ofToken? k = some operator) :
    isCalm k = true := by
  unfold isCalm
  split <;> first | rfl | cases h

lemma isCalm_of_infixed {operator : InfixOperator} (h : InfixOperator.ofToken? k = some operator) :
    isCalm k = true := by
  unfold isCalm
  split <;> first | rfl | cases h

end

/-- The phrases that an assignment may end. -/
def Phrase.mayAssign : Phrase → Bool
  | conditional | assignment | item | expression => true
  | _ => false

/-- Items in parentheses are tame if each of them is tame before its end. -/
lemma tame_parenthesizedWords {items : List (Node × List Word)}
    (h : ∀ e ws, (e, ws) ∈ items → ∀ {rest : List Word}, Tame rest →
      (Phrase.item.mayAssign = true → closes (headKind rest) = true) → Tame (ws ++ rest))
    {rest : List Word} (hrest : Tame rest) :
    Tame (parenthesizedWords (items.map Prod.snd) ++ rest) := by
  rw [parenthesizedWords, separated, List.cons_append, List.append_assoc]
  refine .cons rfl (.elementWords (fun ws hws rest hrest hcloses => ?_) (.cons rfl hrest) rfl)
  simp only [List.mem_map, Option.some.injEq, exists_eq_right] at hws
  obtain ⟨⟨e, _⟩, hmem, rfl⟩ := hws
  exact h e _ hmem hrest fun _ => hcloses

/-- The words of a phrase are tame before tame words, if they end where an assignment may end. -/
lemma Derives.tame (h : Derives phrase e ws) {rest : List Word} (hrest : Tame rest)
    (hcloses : phrase.mayAssign = true → closes (headKind rest) = true) : Tame (ws ++ rest) := by
  induction h generalizing rest with
  | name hw => exact .cons (by rw [hw]; rfl) hrest
  | literal hw => exact .cons (isCalm_of_startsPrimary (startsPrimary_of_literalKind? hw)) hrest
  | thisValue => exact .cons rfl hrest
  | array _ ih =>
    rw [List.cons_append, List.append_assoc]
    refine .cons rfl (.elementWords (fun ws hws rest hrest hcloses => ?_) (.cons rfl hrest) rfl)
    simp only [List.mem_map, Option.map_eq_some_iff, Prod.exists] at hws
    obtain ⟨_, hmem, e, _, rfl, rfl⟩ := hws
    exact ih e _ hmem hrest fun _ => hcloses
  | parens _ ih =>
    rw [List.cons_append, List.append_assoc]
    exact .cons rfl (ih (.cons rfl hrest) fun _ => rfl)
  | head _ ih | operand _ ih | single _ ih | test _ ih => exact ih hrest nofun
  | construction _ _ ih ihitems =>
    rw [List.cons_append, List.append_assoc]
    exact .cons rfl (ih (tame_parenthesizedWords ihitems hrest) nofun)
  | dot _ hw ih | optionalDot _ hw ih =>
    rw [List.append_assoc]
    exact ih (.cons rfl (.cons (isCalm_of_isWord hw) hrest)) nofun
  | index _ _ ih ihkey =>
    rw [List.append_assoc, List.cons_append, List.append_assoc]
    exact ih (.cons rfl (ihkey (.cons rfl hrest) fun _ => rfl)) nofun
  | optionalIndex _ _ ih ihkey =>
    rw [List.append_assoc, List.cons_append, List.cons_append, List.append_assoc]
    exact ih (.cons rfl (.cons rfl (ihkey (.cons rfl hrest) fun _ => rfl))) nofun
  | call _ _ ih ihitems =>
    rw [List.append_assoc]
    exact ih (tame_parenthesizedWords ihitems hrest) nofun
  | optionalCall _ _ ih ihitems =>
    rw [List.append_assoc]
    exact ih (.cons rfl (tame_parenthesizedWords ihitems hrest)) nofun
  | updateAfter hw _ _ ih =>
    rw [List.append_assoc]
    exact ih (.cons (isCalm_of_update hw) hrest) nofun
  | updateBefore hw _ _ ih => exact .cons (isCalm_of_update hw) (ih hrest nofun)
  | operator hw _ ih => exact .cons (isCalm_of_unary hw) (ih hrest nofun)
  | joined hw _ _ _ ihleft ihright =>
    rw [List.append_assoc]
    exact ihleft (.cons (isCalm_of_infixed hw) (ihright hrest nofun)) nofun
  | choice _ _ _ ihtest ihconsequent ihalternate =>
    rw [List.append_assoc, List.cons_append, List.append_assoc]
    refine ihtest (.cons rfl (ihconsequent (.cons rfl ?_) fun _ => rfl)) nofun
    exact ihalternate hrest hcloses
  | value _ ih | alone _ ih | item _ ih => exact ih hrest hcloses
  | @assign w operator left right ws us hw _ _ hright ihleft ihright =>
    have hkind : w.kind ≠ .punctuator .arrow ∧ w.kind ≠ .punctuator .openBrace := by
      constructor
      all_goals
        intro hkind
        rw [hkind] at hw
        cases hw
    rw [List.append_assoc]
    refine ihleft ⟨hkind, fun _ => ⟨right, us, rest, rfl, hright, hcloses rfl⟩, ?_⟩ nofun
    exact ihright hrest hcloses
  | spread _ ih => exact .cons rfl (ih hrest hcloses)
  | sequence _ _ ih =>
    refine .elementWords (fun ws hws rest hrest hcloses => ?_) hrest (hcloses rfl)
    simp only [List.map_map, List.mem_map, Function.comp_apply, Option.some.injEq] at hws
    obtain ⟨⟨e, _⟩, hmem, rfl⟩ := hws
    exact ih e _ hmem hrest fun _ => hcloses

end BindingProxy
