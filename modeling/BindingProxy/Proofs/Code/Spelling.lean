import BindingProxy.Code.Printer
import BindingProxy.Proofs.Grammar.Phrase
import BindingProxy.Proofs.Token.Literals

/-!
# Spelled phrases

The steps that write an expression come to words and blanks.  `Spelled phrase e steps ps` says that
the steps write the pieces `ps`, that the words among them spell `e` where the phrase is wanted, and
that each of them can be told from what follows it, as long as the whole is followed by one of the
characters that a printed phrase of that kind may be followed by.  There is one rule for every way
of putting a phrase together.
-/

namespace BindingProxy

open Word

/-! ### Steps and pieces -/

/-- The steps write the characters of the pieces and nothing else. -/
def Spells (steps : List CodeStep) (ps : List Piece) : Prop :=
  ∀ b : CodeBuffer, b.run steps = b.append (String.ofList (charsOf ps))

namespace Spells

lemma nil : Spells [] [] := by
  intro b
  simp [CodeBuffer.run, CodeBuffer.append]

lemma append {s t : List CodeStep} {ps qs : List Piece} (h : Spells s ps) (h' : Spells t qs) :
    Spells (s ++ t) (ps ++ qs) := by
  intro b
  have hrun : b.run (s ++ t) = (b.run s).run t := List.foldl_append
  rw [hrun, h, h']
  simp [CodeBuffer.append, String.append_assoc]

/-- A text that consists of some pieces. -/
lemma text {s : String} {ps : List Piece} (h : s.toList = charsOf ps) :
    Spells [.text s] ps := by
  intro b
  rw [← h, String.ofList_toList]
  rfl

lemma word (w : Word) {t : List CodeStep} {qs : List Piece} (h : Spells t qs) :
    Spells (.text w.text :: t) (.word w :: qs) := by
  have hword : Spells [.text w.text] [.word w] := text (by simp)
  exact hword.append h

lemma blank {t : List CodeStep} {qs : List Piece} (h : Spells t qs) :
    Spells (.text " " :: t) (.blank :: qs) := by
  have hblank : Spells [.text " "] [.blank] := text rfl
  exact hblank.append h

end Spells

/-! ### The words of operators -/

def UnaryOperator.word : UnaryOperator → Word
  | minus => punctuator .minus
  | plus => punctuator .plus
  | not => punctuator .bang
  | bitNot => punctuator .tilde
  | typeof => reserved .kwTypeof
  | void => reserved .kwVoid
  | delete => reserved .kwDelete

lemma UnaryOperator.ofToken?_word (operator : UnaryOperator) :
    ofToken? operator.word.kind = some operator := by
  cases operator <;> rfl

lemma UnaryOperator.text_word (operator : UnaryOperator) : operator.word.text = operator.text := by
  cases operator <;> rfl

def UpdateOperator.word : UpdateOperator → Word
  | increment => punctuator .plusPlus
  | decrement => punctuator .minusMinus

lemma UpdateOperator.ofToken?_word (operator : UpdateOperator) :
    ofToken? operator.word.kind = some operator := by
  cases operator <;> rfl

lemma UpdateOperator.text_word (operator : UpdateOperator) : operator.word.text = operator.text := by
  cases operator <;> rfl

def InfixOperator.word : InfixOperator → Word
  | binary .equal => punctuator .equal
  | binary .notEqual => punctuator .notEqual
  | binary .strictEqual => punctuator .strictEqual
  | binary .strictNotEqual => punctuator .strictNotEqual
  | binary .less => punctuator .less
  | binary .lessEqual => punctuator .lessEqual
  | binary .greater => punctuator .greater
  | binary .greaterEqual => punctuator .greaterEqual
  | binary .shiftLeft => punctuator .shiftLeft
  | binary .shiftRight => punctuator .shiftRight
  | binary .shiftRightUnsigned => punctuator .shiftRightUnsigned
  | binary .add => punctuator .plus
  | binary .subtract => punctuator .minus
  | binary .multiply => punctuator .star
  | binary .divide => punctuator .slash
  | binary .remainder => punctuator .percent
  | binary .power => punctuator .starStar
  | binary .bitOr => punctuator .bar
  | binary .bitXor => punctuator .caret
  | binary .bitAnd => punctuator .ampersand
  | binary .isIn => reserved .kwIn
  | binary .isInstanceOf => reserved .kwInstanceof
  | logical .or => punctuator .barBar
  | logical .and => punctuator .andAnd
  | logical .coalesce => punctuator .questionQuestion

def InfixOperator.text : InfixOperator → String
  | binary operator => operator.text
  | logical operator => operator.text

lemma InfixOperator.ofToken?_word (operator : InfixOperator) :
    ofToken? operator.word.kind = some operator := by
  rcases operator with operator | operator <;> cases operator <;> rfl

lemma InfixOperator.text_word (operator : InfixOperator) : operator.word.text = operator.text := by
  rcases operator with operator | operator <;> cases operator <;> rfl

def AssignmentOperator.word : AssignmentOperator → Word
  | assign => punctuator .assign
  | add => punctuator .plusAssign
  | subtract => punctuator .minusAssign
  | multiply => punctuator .starAssign
  | divide => punctuator .slashAssign
  | remainder => punctuator .percentAssign
  | power => punctuator .starStarAssign
  | shiftLeft => punctuator .shiftLeftAssign
  | shiftRight => punctuator .shiftRightAssign
  | shiftRightUnsigned => punctuator .shiftRightUnsignedAssign
  | bitOr => punctuator .barAssign
  | bitXor => punctuator .caretAssign
  | bitAnd => punctuator .ampersandAssign
  | or => punctuator .barBarAssign
  | and => punctuator .andAndAssign
  | coalesce => punctuator .questionQuestionAssign

lemma AssignmentOperator.ofToken?_word (operator : AssignmentOperator) :
    ofToken? operator.word.kind = some operator := by
  cases operator <;> rfl

lemma AssignmentOperator.text_word (operator : AssignmentOperator) :
    operator.word.text = operator.text := by
  cases operator <;> rfl

/-- Reserved words stand before a blank. -/
lemma stands_reserved (w : ReservedWord) (tail : List Char) : (reserved w).Stands (' ' :: tail) :=
  (isToken_reserved w).stands_of_isWord rfl ⟨by decide, by decide⟩

lemma InfixOperator.stands_word (operator : InfixOperator) (tail : List Char) :
    operator.word.Stands (' ' :: tail) := by
  rcases operator with operator | operator <;> cases operator <;>
    first | exact stands_punctuator_blank _ _ | exact stands_reserved _ _

lemma AssignmentOperator.stands_word (operator : AssignmentOperator) (tail : List Char) :
    operator.word.Stands (' ' :: tail) := by
  cases operator <;> exact stands_punctuator_blank _ _

/-! ### Spelled phrases -/

/-- The characters that may follow a printed phrase.  Only operands are followed by links and
updates. -/
def Phrase.followers : Phrase → List Char
  | primary | linked _ => [' ', ')', ']', ',', ';'] ++ ['(', '[', '.', '?', '+', '-']
  | _ => [' ', ')', ']', ',', ';']

lemma Phrase.mem_followers (phrase : Phrase) {c : Char} (h : c ∈ [' ', ')', ']', ',', ';']) :
    c ∈ phrase.followers := by
  cases phrase <;> first | exact h | exact List.mem_append_left _ h

/-- The phrases that may stand after a sign. -/
def Phrase.isOperand : Phrase → Bool
  | primary | linked _ | unary => true
  | _ => false

/-- The sign that an operand begins with. -/
def Node.leadingSign? : Node → Option Char
  | .unary .plus _ | .update .increment true _ => some '+'
  | .unary .minus _ | .update .decrement true _ => some '-'
  | _ => none

/-- The signs that a phrase may begin with. -/
def Phrase.leadingSigns : Phrase → Node → List Char
  | unary, e => e.leadingSign?.toList
  | _, _ => []

/-- The steps write pieces that spell an expression where a phrase is wanted. -/
structure Spelled (phrase : Phrase) (e : Node) (steps : List CodeStep) (ps : List Piece) :
    Prop where
  spells : Spells steps ps
  derives : Derives phrase e (wordsOf ps)
  legible {c : Char} {tail : List Char} (hc : c ∈ phrase.followers) : Legible ps (c :: tail)
  head (h : phrase.isOperand = true) : ∃ c rest, charsOf ps = c :: rest ∧ c ≠ '=' ∧
    (c ∈ ['+', '-'] → c ∈ phrase.leadingSigns e)

/-- What takes in a phrase is followed by less. -/
lemma Phrase.FitsIn.followers_subset {phrase phrase' : Phrase} (h : phrase.FitsIn phrase') :
    phrase'.followers ⊆ phrase.followers := by
  induction h with
  | refl => exact List.Subset.refl _
  | head _ _ ih | calls _ ih | single _ _ ih | weaker _ _ ih | test _ ih | value _ ih => exact ih
  | operand _ ih => exact fun c hc => Phrase.mem_followers _ (ih hc)
  | item | alone => exact List.Subset.refl _

/-- An operand that is taken in by another begins with no sign that this one does not. -/
lemma Phrase.FitsIn.leadingSigns_subset {phrase phrase' : Phrase} (h : phrase.FitsIn phrase')
    (e : Node) (ho : phrase'.isOperand = true) :
    phrase.isOperand = true ∧ phrase.leadingSigns e ⊆ phrase'.leadingSigns e := by
  induction h with
  | refl => exact ⟨ho, List.Subset.refl _⟩
  | head _ _ ih | calls _ ih => exact ih ho
  | operand _ ih => exact ⟨rfl, List.nil_subset _⟩
  | single _ _ ih => cases (ih ho).1
  | weaker _ _ ih | test _ ih | value _ ih => cases (ih ho).1
  | item | alone => cases ho

/-! ### Single words -/

/-- Names, words of the language, numbers and strings begin with no sign. -/
lemma Word.IsToken.exists_of_operand {w : Word} (h : w.IsToken)
    (hkind : w.kind.isWord = true ∨ w.kind = .number ∨ w.kind = .string) :
    ∃ c rest, w.text.toList = c :: rest ∧ c ∉ ['=', '+', '-'] := by
  have hbegins : ∃ c rest, w.text.toList ++ [';'] = c :: rest ∧
      (isNameStart c = true ∨ c.isDigit = true ∨ c ∈ ['"', '\'', '.', '\\']) := by
    rcases hkind with hkind | hkind | hkind
    · obtain ⟨c, rest, htext, hc, _⟩ := Lexeme.word_of_read h hkind
      exact ⟨c, rest, htext, hc.imp_right fun hc => .inr (by simp [hc])⟩
    · obtain ⟨c, rest, htext, hc, _⟩ := Lexeme.number_of_read h hkind
      exact ⟨c, rest, htext, .inr (hc.imp_right fun hc => by simp [hc.1])⟩
    · obtain ⟨c, rest, htext, hc, _⟩ := Lexeme.string_of_read h hkind
      exact ⟨c, rest, htext, .inr (.inr (by rcases hc with rfl | rfl <;> simp))⟩
  obtain ⟨c, rest, htext, hc⟩ := hbegins
  have hall : [';', '=', '+', '-'].all (fun d => decide (isNameStart d = false ∧
      d.isDigit = false ∧ d ∉ ['"', '\'', '.', '\\'])) = true := by decide
  have hno : c ∉ [';', '=', '+', '-'] := by
    intro hmem
    obtain ⟨hname, hdigit, hmark⟩ := of_decide_eq_true (List.all_eq_true.1 hall c hmem)
    simp [hname, hdigit, hmark] at hc
  rw [List.mem_cons, not_or] at hno
  obtain ⟨cs, hcs, rfl⟩ := exists_of_append_semicolon hno.1 htext
  exact ⟨c, cs, hcs, hno.2⟩

/-- Names stand before all that may follow an operand. -/
lemma Word.IsToken.stands_follower {w : Word} (h : w.IsToken) (hkind : w.kind.isWord = true) {c : Char}
    (hc : c ∈ Phrase.primary.followers) (tail : List Char) : w.Stands (c :: tail) := by
  have hall : Phrase.primary.followers.all (fun d => decide (isNamePart d = false ∧ d ≠ '\\')) =
      true := by decide
  have hends : isNamePart c = false ∧ c ≠ '\\' := of_decide_eq_true (List.all_eq_true.1 hall c hc)
  exact h.stands_of_isWord hkind hends

/-- Literals stand before all that may follow an expression. -/
lemma Word.IsToken.stands_literal {w : Word} (h : w.IsToken) {kind : LiteralKind}
    (hkind : w.literalKind? = some kind) {c : Char} (hc : c ∈ Phrase.unary.followers)
    (tail : List Char) : w.Stands (c :: tail) := by
  have hword : ∀ k, w.kind = .reserved k → w.Stands (c :: tail) := by
    intro k hk
    exact h.stands_follower (by rw [hk]; rfl) (Phrase.mem_followers _ hc) tail
  have hends : Lexeme.EndsNumber (c :: tail) := by
    simp only [Phrase.followers, List.mem_cons, List.not_mem_nil, or_false] at hc
    rcases hc with rfl | rfl | rfl | rfl | rfl <;> constructor
  unfold Word.literalKind? at hkind
  split at hkind
  case h_1 hk => exact Word.stands_of_number h hk hends
  case h_2 hk => exact Word.stands_of_string h hk _
  case h_6 => cases hkind
  all_goals
    rename_i hk
    exact hword _ hk

namespace Spelled

variable {phrase : Phrase} {e : Node} {s t : List CodeStep} {ps qs : List Piece} {w : Word}

/-- A single word. -/
lemma ofWord (hd : Derives phrase e [w])
    (hstands : ∀ c ∈ phrase.followers, ∀ tail, w.Stands (c :: tail))
    (hhead : ∃ c rest, w.text.toList = c :: rest ∧ c ∉ ['=', '+', '-']) :
    Spelled phrase e [.text w.text] [.word w] where
  spells := Spells.nil.word w
  derives := hd
  legible hc := ⟨hstands _ hc _, trivial⟩
  head _ := by
    obtain ⟨c, rest, htext, hc⟩ := hhead
    rw [List.mem_cons, not_or] at hc
    exact ⟨c, rest, by simp [htext], hc.1, fun hsign => absurd hsign hc.2⟩

/-- A phrase that is taken as it is for a phrase of another kind. -/
lemma mono {phrase' : Phrase} (h : Spelled phrase e s ps) (hfits : phrase.FitsIn phrase') :
    Spelled phrase' e s ps where
  spells := h.spells
  derives := h.derives.mono hfits
  legible hc := h.legible (hfits.followers_subset hc)
  head ho := by
    obtain ⟨ho, hsigns⟩ := hfits.leadingSigns_subset e ho
    obtain ⟨c, rest, hps, hassign, hsign⟩ := h.head ho
    exact ⟨c, rest, hps, hassign, fun hc => hsigns (hsign hc)⟩

/-- An expression in parentheses. -/
lemma parens (h : Spelled .expression e s ps) :
    Spelled .primary e (inParens s)
      (.word (punctuator .openParen) :: (ps ++ [PieceOf.word (punctuator .closeParen)])) where
  spells := (h.spells.append (Spells.nil.word (punctuator .closeParen))).word
    (punctuator .openParen)
  derives := by simpa using Derives.parens h.derives
  legible hc := by
    refine ⟨stands_punctuator_final rfl _, legible_append ⟨h.legible (by decide), ?_⟩⟩
    exact ⟨stands_punctuator_final rfl _, trivial⟩
  head _ := ⟨'(', _, rfl, by decide, fun h => absurd h (by decide)⟩

/-! ### Operands and their links -/

/-- More pieces after an operand with links leave its first character. -/
lemma head_append {calls : Bool} (h : Spelled (.linked calls) e s ps) (qs : List Piece) :
    ∃ c rest, charsOf (ps ++ qs) = c :: rest ∧ c ∉ ['=', '+', '-'] := by
  obtain ⟨c, rest, hps, hassign, hsign⟩ := h.head rfl
  refine ⟨c, rest ++ charsOf qs, by rw [charsOf_append, hps]; rfl, ?_⟩
  rw [List.mem_cons, not_or]
  exact ⟨hassign, fun hc => absurd (hsign hc) List.not_mem_nil⟩

/-- A link after an operand: the pieces `qs` go on with it. -/
lemma link {calls calls' : Bool} {e' : Node} (h : Spelled (.linked calls) e s ps)
    (hspells : Spells t qs) (hd : Derives (.linked calls') e' (wordsOf (ps ++ qs)))
    (hfirst : ∃ c rest, charsOf qs = c :: rest ∧ c ∈ Phrase.primary.followers)
    (hlegible : ∀ c ∈ Phrase.primary.followers, ∀ tail, Legible qs (c :: tail)) :
    Spelled (.linked calls') e' (s ++ t) (ps ++ qs) where
  spells := h.spells.append hspells
  derives := hd
  legible hc := by
    obtain ⟨c, rest, hqs, hfollows⟩ := hfirst
    refine legible_append ⟨?_, hlegible _ hc _⟩
    rw [hqs]
    exact h.legible hfollows
  head _ := by
    obtain ⟨c, rest, hps, hc⟩ := h.head_append qs
    rw [List.mem_cons, not_or] at hc
    exact ⟨c, rest, hps, hc.1, fun hsign => absurd hsign hc.2⟩

variable {calls : Bool} {owner key : Node}

/-- A dot or an optional link before a name. -/
lemma stands_before_name (hw : w.IsToken) (hword : w.kind.isWord = true)
    (tail : List Char) : (punctuator .dot).Stands (w.text.toList ++ tail) ∧
      (punctuator .questionDot).Stands (w.text.toList ++ tail) := by
  obtain ⟨c, rest, htext, hc, _⟩ := hw.exists_of_isWord hword
  have hdot : c ≠ '.' := by
    rintro rfl
    revert hc
    decide
  have hdigit : c.isDigit = false := by
    by_contra hdigit
    have hdigit := eq_true_of_ne_false hdigit
    rw [isNameStart_of_isDigit hdigit] at hc
    rw [hc.resolve_left Bool.false_ne_true] at hdigit
    cases hdigit
  rw [htext, List.cons_append]
  exact ⟨stands_dot hdot hdigit _, stands_questionDot hdigit _⟩

lemma dot (h : Spelled (.linked calls) owner s ps) (hw : w.IsToken)
    (hword : w.kind.isWord = true) :
    Spelled (.linked calls) (.member owner (.identifier w.text) false false)
      (s ++ [CodeStep.text ".", .text w.text]) (ps ++ [PieceOf.word (punctuator .dot), .word w]) := by
  refine h.link ((Spells.nil.word w).word (punctuator .dot)) ?_ ⟨'.', _, rfl, by decide⟩ ?_
  · simpa using Derives.dot h.derives hword
  · intro c hc tail
    refine ⟨?_, hw.stands_follower hword hc tail, trivial⟩
    rw [charsOf_word, List.append_assoc]
    exact (stands_before_name hw hword _).1

lemma optionalDot (h : Spelled (.linked true) owner s ps) (hw : w.IsToken)
    (hword : w.kind.isWord = true) :
    Spelled (.linked true) (.member owner (.identifier w.text) false true)
      (s ++ [CodeStep.text "?.", .text w.text])
      (ps ++ [PieceOf.word (punctuator .questionDot), .word w]) := by
  refine h.link ((Spells.nil.word w).word (punctuator .questionDot)) ?_ ⟨'?', _, rfl, by decide⟩ ?_
  · simpa using Derives.optionalDot h.derives hword
  · intro c hc tail
    refine ⟨?_, hw.stands_follower hword hc tail, trivial⟩
    rw [charsOf_word, List.append_assoc]
    exact (stands_before_name hw hword _).2

/-- An index in its brackets. -/
lemma legible_index (hkey : Spelled .expression key t qs) (tail : List Char) :
    Legible (.word (punctuator .openBracket) :: (qs ++ [.word (punctuator .closeBracket)])) tail := by
  refine ⟨stands_punctuator_final rfl _, legible_append ⟨hkey.legible (by decide), ?_⟩⟩
  exact ⟨stands_punctuator_final rfl _, trivial⟩

lemma spells_index (hkey : Spelled .expression key t qs) :
    Spells (.text "[" :: (t ++ [CodeStep.text "]"]))
      (.word (punctuator .openBracket) :: (qs ++ [PieceOf.word (punctuator .closeBracket)])) :=
  (hkey.spells.append (Spells.nil.word (punctuator .closeBracket))).word (punctuator .openBracket)

lemma index (h : Spelled (.linked calls) owner s ps) (hkey : Spelled .expression key t qs) :
    Spelled (.linked calls) (.member owner key true false)
      (s ++ CodeStep.text "[" :: (t ++ [CodeStep.text "]"]))
      (ps ++ PieceOf.word (punctuator .openBracket) ::
        (qs ++ [PieceOf.word (punctuator .closeBracket)])) := by
  refine h.link (spells_index hkey) ?_ ⟨'[', _, rfl, by decide⟩ fun _ _ _ => legible_index hkey _
  simpa using Derives.index h.derives hkey.derives

lemma optionalIndex (h : Spelled (.linked true) owner s ps) (hkey : Spelled .expression key t qs) :
    Spelled (.linked true) (.member owner key true true)
      (s ++ CodeStep.text "?." :: .text "[" :: (t ++ [CodeStep.text "]"]))
      (ps ++ PieceOf.word (punctuator .questionDot) :: .word (punctuator .openBracket) ::
        (qs ++ [PieceOf.word (punctuator .closeBracket)])) := by
  refine h.link ((spells_index hkey).word (punctuator .questionDot)) ?_ ⟨'?', _, rfl, by decide⟩ ?_
  · simpa using Derives.optionalIndex h.derives hkey.derives
  · intro c hc tail
    exact ⟨stands_questionDot (by decide) _, legible_index hkey _⟩

end Spelled

/-! ### Lists -/

/-- Elements with a comma and a blank after each, which are missing after the last one if that is no
hole. -/
def elementPieces : List (Option (List Piece)) → List Piece
  | [] => []
  | none :: elements => .word (punctuator .comma) :: .blank :: elementPieces elements
  | [some ps] => ps
  | some ps :: elements => ps ++ .word (punctuator .comma) :: .blank :: elementPieces elements

lemma wordsOf_elementPieces (elements : List (Option (List Piece))) :
    wordsOf (elementPieces elements) = elementWords (elements.map (Option.map wordsOf)) := by
  fun_induction elementPieces elements with
  | case1 => rfl
  | case2 elements ih => simp [elementWords, ih]
  | case3 ps => simp [elementWords]
  | case4 ps elements hne ih =>
    cases elements with
    | nil => exact absurd rfl hne
    | cons element elements => simp [elementWords, ih]

lemma legible_elementPieces {elements : List (Option (List Piece))} (phrase : Phrase)
    (h : ∀ ps, some ps ∈ elements → ∃ e s, Spelled phrase e s ps) {c : Char} {tail : List Char}
    (hc : c ∈ [' ', ')', ']', ',', ';']) : Legible (elementPieces elements) (c :: tail) := by
  have hlegible : ∀ ps, some ps ∈ elements → ∀ {c : Char} {tail : List Char},
      c ∈ [' ', ')', ']', ',', ';'] → Legible ps (c :: tail) := by
    intro ps hmem c tail hc
    obtain ⟨e, s, hps⟩ := h ps hmem
    exact hps.legible (phrase.mem_followers hc)
  clear h
  fun_induction elementPieces elements with
  | case1 => trivial
  | case2 elements ih =>
    refine ⟨stands_punctuator_final rfl _, ?_⟩
    exact ih fun ps hps => hlegible ps (List.mem_cons_of_mem _ hps)
  | case3 ps => exact hlegible ps List.mem_cons_self hc
  | case4 ps elements hne ih =>
    refine legible_append ⟨hlegible ps List.mem_cons_self (by decide), ?_⟩
    refine ⟨stands_punctuator_final rfl _, ?_⟩
    exact ih fun ps hps => hlegible ps (List.mem_cons_of_mem _ hps)

/-- The steps between the brackets of an array. -/
def elementSteps (elements : List (Option Node)) : List CodeStep :=
  commaSeparated (Node.stepsHoles elements) ++
    match elements.getLast? with
    | some none => [.text ", "]
    | _ => []

/-- Before other elements an element is followed by a comma and a blank. -/
lemma elementSteps_cons (element second : Option Node) (elements : List (Option Node)) :
    elementSteps (element :: second :: elements) =
      (element.map Node.steps).getD [] ++ .text ", " :: elementSteps (second :: elements) := by
  have hsteps : ∀ (o : Option Node) os,
      Node.stepsHoles (o :: os) = (o.map Node.steps).getD [] :: Node.stepsHoles os := by
    intro o os
    cases o <;> rfl
  simp only [elementSteps, hsteps, commaSeparated, List.getLast?_cons_cons, List.append_assoc,
    List.cons_append]

/-- A comma and a blank. -/
lemma spells_comma {t : List CodeStep} {qs : List Piece} (h : Spells t qs) :
    Spells (.text ", " :: t) (.word (punctuator .comma) :: .blank :: qs) := by
  have hcomma : Spells [.text ", "] [.word (punctuator .comma), .blank] := .text rfl
  exact hcomma.append h

lemma spells_elements (elements : List (Option (Node × List Piece)))
    (h : ∀ e ps, some (e, ps) ∈ elements → Spells e.steps ps) :
    Spells (elementSteps (elements.map (Option.map Prod.fst)))
      (elementPieces (elements.map (Option.map Prod.snd))) := by
  induction elements with
  | nil => exact .nil
  | cons element elements ih =>
    have hrest := ih fun e ps hmem => h e ps (List.mem_cons_of_mem _ hmem)
    match element, elements with
    | none, [] => exact spells_comma .nil
    | none, second :: elements =>
      rw [List.map_cons, List.map_cons, elementSteps_cons]
      exact spells_comma hrest
    | some (e, ps), [] =>
      have hlast : elementSteps [some e] = e.steps := List.append_nil _
      exact hlast ▸ h e ps List.mem_cons_self
    | some (e, ps), second :: elements =>
      rw [List.map_cons, List.map_cons, elementSteps_cons]
      exact (h e ps List.mem_cons_self).append (spells_comma hrest)

/-- Items without holes. -/
lemma elementSteps_map_some (items : List Node) :
    elementSteps (items.map some) = commaSeparated (Node.stepsEach items) := by
  have hsteps : Node.stepsHoles (items.map some) = Node.stepsEach items := by
    induction items with
    | nil => rfl
    | cons item items ih => exact congrArg (item.steps :: ·) ih
  rw [elementSteps, hsteps, List.getLast?_map]
  cases items.getLast? <;> simp

/-- Items with commas between them. -/
def itemPieces (items : List (List Piece)) : List Piece := elementPieces (items.map some)

/-- Items in parentheses. -/
def argumentPieces (items : List (List Piece)) : List Piece :=
  .word (punctuator .openParen) :: (itemPieces items ++ [PieceOf.word (punctuator .closeParen)])

/-- The items with the words of their pieces. -/
def itemWords (items : List (Node × List Piece)) : List (Node × List Word) :=
  items.map fun item => (item.1, wordsOf item.2)

section Items

variable {phrase : Phrase} {items : List (Node × List Piece)}
  (h : ∀ e ps, (e, ps) ∈ items → Spelled phrase e e.steps ps)
include h

lemma derives_itemWords : ∀ e ws, (e, ws) ∈ itemWords items → Derives phrase e ws := by
  intro e ws hmem
  simp only [itemWords, List.mem_map, Prod.mk.injEq] at hmem
  obtain ⟨⟨_, ps⟩, hmem, rfl, rfl⟩ := hmem
  exact (h _ ps hmem).derives

lemma spells_items :
    Spells (commaSeparated (Node.stepsEach (items.map Prod.fst)))
      (itemPieces (items.map Prod.snd)) := by
  have hspells := spells_elements (items.map some) fun e ps hmem => by
    simp only [List.mem_map, Option.some.injEq, exists_eq_right] at hmem
    exact (h e ps hmem).spells
  simpa [itemPieces, ← elementSteps_map_some, Function.comp_def] using hspells

lemma legible_items {c : Char} {tail : List Char} (hc : c ∈ [' ', ')', ']', ',', ';']) :
    Legible (itemPieces (items.map Prod.snd)) (c :: tail) := by
  refine legible_elementPieces phrase ?_ hc
  intro ps hps
  simp only [List.map_map, List.mem_map, Function.comp_apply, Option.some.injEq] at hps
  obtain ⟨⟨e, _⟩, hmem, rfl⟩ := hps
  exact ⟨e, e.steps, h e _ hmem⟩

omit h in
lemma wordsOf_itemPieces :
    wordsOf (itemPieces (items.map Prod.snd)) = separated ((itemWords items).map Prod.snd) := by
  simp [itemPieces, wordsOf_elementPieces, separated, itemWords, Function.comp_def]

omit h in
lemma wordsOf_argumentPieces :
    wordsOf (argumentPieces (items.map Prod.snd)) =
      parenthesizedWords ((itemWords items).map Prod.snd) := by
  simp [argumentPieces, parenthesizedWords, wordsOf_itemPieces]

omit h in
lemma fst_itemWords : (itemWords items).map Prod.fst = items.map Prod.fst := by
  simp [itemWords, Function.comp_def]

lemma spells_arguments :
    Spells (listInParens (Node.stepsEach (items.map Prod.fst)))
      (argumentPieces (items.map Prod.snd)) :=
  ((spells_items h).append (Spells.nil.word (punctuator .closeParen))).word (punctuator .openParen)

lemma legible_arguments (tail : List Char) :
    Legible (argumentPieces (items.map Prod.snd)) tail := by
  refine ⟨stands_punctuator_final rfl _, legible_append ⟨legible_items h (by decide), ?_⟩⟩
  exact ⟨stands_punctuator_final rfl _, trivial⟩

end Items

namespace Spelled

variable {callee : Node} {s : List CodeStep} {ps : List Piece} {items : List (Node × List Piece)}

lemma call (h : Spelled (.linked true) callee s ps)
    (hitems : ∀ e ps, (e, ps) ∈ items → Spelled .item e e.steps ps) :
    Spelled (.linked true) (.call callee (items.map Prod.fst) false)
      (s ++ listInParens (Node.stepsEach (items.map Prod.fst)))
      (ps ++ argumentPieces (items.map Prod.snd)) := by
  refine h.link (spells_arguments hitems) ?_ ⟨'(', _, rfl, by decide⟩
    fun _ _ _ => legible_arguments hitems _
  rw [wordsOf_append, wordsOf_argumentPieces, ← fst_itemWords]
  exact .call h.derives (derives_itemWords hitems)

lemma optionalCall (h : Spelled (.linked true) callee s ps)
    (hitems : ∀ e ps, (e, ps) ∈ items → Spelled .item e e.steps ps) :
    Spelled (.linked true) (.call callee (items.map Prod.fst) true)
      (s ++ .text "?." :: listInParens (Node.stepsEach (items.map Prod.fst)))
      (ps ++ .word (punctuator .questionDot) :: argumentPieces (items.map Prod.snd)) := by
  refine h.link ((spells_arguments hitems).word (punctuator .questionDot)) ?_
    ⟨'?', _, rfl, by decide⟩ fun _ _ _ => ⟨stands_questionDot (by decide) _, legible_arguments hitems _⟩
  rw [wordsOf_append, wordsOf_word, wordsOf_argumentPieces, ← fst_itemWords]
  exact .optionalCall h.derives (derives_itemWords hitems)

lemma construction {calls : Bool} (h : Spelled (.linked false) callee s ps)
    (hitems : ∀ e ps, (e, ps) ∈ items → Spelled .item e e.steps ps) :
    Spelled (.linked calls) (.construction callee (items.map Prod.fst))
      (.text "new " :: (s ++ listInParens (Node.stepsEach (items.map Prod.fst))))
      (.word (reserved .kwNew) :: .blank :: (ps ++ argumentPieces (items.map Prod.snd))) where
  spells := by
    have hnew : Spells [.text "new "] [.word (reserved .kwNew), .blank] := .text rfl
    exact hnew.append (h.spells.append (spells_arguments hitems))
  derives := by
    rw [wordsOf_word, wordsOf_blank, wordsOf_append, wordsOf_argumentPieces, ← fst_itemWords]
    exact .construction h.derives (derives_itemWords hitems)
  legible _ := by
    refine ⟨stands_reserved _ _, legible_append ⟨?_, legible_arguments hitems _⟩⟩
    exact h.legible (by decide)
  head _ := ⟨'n', _, rfl, by decide, fun h => absurd h (by decide)⟩

/-- The items of a sequence, without the parentheses that it always has. -/
lemma sequence (hlength : 2 ≤ items.length)
    (hitems : ∀ e ps, (e, ps) ∈ items → Spelled .assignment e e.steps ps) :
    Spelled .expression (.sequence (items.map Prod.fst))
      (commaSeparated (Node.stepsEach (items.map Prod.fst)))
      (itemPieces (items.map Prod.snd)) where
  spells := spells_items hitems
  derives := by
    rw [wordsOf_itemPieces, ← fst_itemWords]
    exact .sequence (by simpa [itemWords] using hlength) (derives_itemWords hitems)
  legible hc := legible_items hitems hc
  head h := by cases h

lemma array {elements : List (Option (Node × List Piece))}
    (h : ∀ e ps, some (e, ps) ∈ elements → Spelled .item e e.steps ps) :
    Spelled .primary (.array (elements.map (Option.map Prod.fst)))
      (.text "[" :: (elementSteps (elements.map (Option.map Prod.fst)) ++ [CodeStep.text "]"]))
      (.word (punctuator .openBracket) ::
        (elementPieces (elements.map (Option.map Prod.snd)) ++
          [PieceOf.word (punctuator .closeBracket)])) where
  spells :=
    ((spells_elements elements fun e ps hmem => (h e ps hmem).spells).append
      (Spells.nil.word (punctuator .closeBracket))).word (punctuator .openBracket)
  derives := by
    let words : List (Option (Node × List Word)) :=
      elements.map (Option.map fun element => (element.1, wordsOf element.2))
    have hnodes : words.map (Option.map Prod.fst) = elements.map (Option.map Prod.fst) := by
      simp [words, Function.comp_def]
    have hwords : words.map (Option.map Prod.snd) =
        (elements.map (Option.map Prod.snd)).map (Option.map wordsOf) := by
      simp [words, Function.comp_def]
    rw [wordsOf_word, wordsOf_append, wordsOf_elementPieces, ← hwords, ← hnodes]
    refine .array fun e ws hmem => ?_
    simp only [words, List.mem_map, Option.map_eq_some_iff, Prod.exists, Prod.mk.injEq] at hmem
    obtain ⟨_, hmem, _, ps, rfl, rfl, rfl⟩ := hmem
    exact (h _ ps hmem).derives
  legible _ := by
    refine ⟨stands_punctuator_final rfl _, legible_append ⟨?_, ?_⟩⟩
    · refine legible_elementPieces .item ?_ (by decide)
      intro ps hps
      simp only [List.mem_map, Option.map_eq_some_iff, Prod.exists] at hps
      obtain ⟨_, hmem, e, _, rfl, rfl⟩ := hps
      exact ⟨e, e.steps, h e _ hmem⟩
    · exact ⟨stands_punctuator_final rfl _, trivial⟩
  head _ := ⟨'[', _, rfl, by decide, fun h => absurd h (by decide)⟩

end Spelled

/-! ### Operators -/

namespace Spelled

variable {e left right test consequent alternate : Node} {s t u : List CodeStep}
  {ps qs rs : List Piece} {phrase : Phrase}

/-- Updates stand before anything. -/
lemma stands_update (operator : UpdateOperator) (tail : List Char) :
    operator.word.Stands tail := by
  cases operator <;> exact stands_punctuator_final rfl _

lemma updateAfter (operator : UpdateOperator) (hplace : e.isPlace = true)
    (h : Spelled (.linked true) e s ps) :
    Spelled .unary (.update operator false e) (s ++ [CodeStep.text operator.text])
      (ps ++ [PieceOf.word operator.word]) where
  spells := by
    rw [← operator.text_word]
    exact h.spells.append (Spells.nil.word operator.word)
  derives := by
    rw [wordsOf_append]
    exact .updateAfter operator.ofToken?_word hplace h.derives
  legible _ := by
    refine legible_append ⟨?_, stands_update operator _, trivial⟩
    cases operator <;> exact h.legible (by decide)
  head _ := by
    obtain ⟨c, rest, hps, hc⟩ := h.head_append [.word operator.word]
    rw [List.mem_cons, not_or] at hc
    exact ⟨c, rest, hps, hc.1, fun hsign => absurd hsign hc.2⟩

lemma updateBefore (operator : UpdateOperator) (hplace : e.isPlace = true)
    (h : Spelled .unary e s ps) :
    Spelled .unary (.update operator true e) (.text operator.text :: s)
      (.word operator.word :: ps) where
  spells := by
    rw [← operator.text_word]
    exact h.spells.word operator.word
  derives := .updateBefore operator.ofToken?_word hplace h.derives
  legible hc := ⟨stands_update operator _, h.legible hc⟩
  head _ := by
    cases operator <;> exact ⟨_, _, rfl, by decide, fun _ => List.mem_singleton.2 rfl⟩

/-- The first character of a unary operator is a sign of the expression that it begins. -/
lemma head_operator (operator : UnaryOperator) (qs : List Piece) :
    ∃ c rest, charsOf (.word operator.word :: qs) = c :: rest ∧ c ≠ '=' ∧
      (c ∈ ['+', '-'] → c ∈ Phrase.unary.leadingSigns (.unary operator e)) := by
  cases operator with
  | minus => exact ⟨'-', _, rfl, by decide, fun _ => List.mem_singleton.2 rfl⟩
  | plus => exact ⟨'+', _, rfl, by decide, fun _ => List.mem_singleton.2 rfl⟩
  | not => exact ⟨'!', _, rfl, by decide, fun h => absurd h (by decide)⟩
  | bitNot => exact ⟨'~', _, rfl, by decide, fun h => absurd h (by decide)⟩
  | typeof => exact ⟨'t', _, rfl, by decide, fun h => absurd h (by decide)⟩
  | void => exact ⟨'v', _, rfl, by decide, fun h => absurd h (by decide)⟩
  | delete => exact ⟨'d', _, rfl, by decide, fun h => absurd h (by decide)⟩

/-- A unary operator with a blank after it. -/
lemma operatorSpaced (operator : UnaryOperator) (h : Spelled .unary e s ps) :
    Spelled .unary (.unary operator e) (.text operator.text :: .text " " :: s)
      (.word operator.word :: .blank :: ps) where
  spells := by
    rw [← operator.text_word]
    exact h.spells.blank.word operator.word
  derives := .operator operator.ofToken?_word h.derives
  legible hc := by
    refine ⟨?_, h.legible hc⟩
    cases operator <;> first | exact stands_punctuator_blank _ _ | exact stands_reserved _ _
  head _ := head_operator operator _

/-- A mark before an operand that does not begin with the same sign. -/
lemma operatorTight {operator : UnaryOperator} (hword : operator.isWord = false)
    (h : Spelled .unary e s ps)
    (hsign : ∀ c rest, charsOf ps = c :: rest → c ∈ ['+', '-'] → operator.text.toList ≠ [c]) :
    Spelled .unary (.unary operator e) (.text operator.text :: s) (.word operator.word :: ps) where
  spells := by
    rw [← operator.text_word]
    exact h.spells.word operator.word
  derives := .operator operator.ofToken?_word h.derives
  legible hc := by
    refine ⟨?_, h.legible hc⟩
    obtain ⟨c, rest, hps, hassign, _⟩ := h.head rfl
    have hne := hsign c rest hps
    rw [hps, List.cons_append]
    cases operator with
    | minus =>
      refine stands_sign (p := .minus) (by decide) hassign (fun hsame => ?_) _
      cases hsame
      exact hne (by decide) rfl
    | plus =>
      refine stands_sign (p := .plus) (by decide) hassign (fun hsame => ?_) _
      cases hsame
      exact hne (by decide) rfl
    | not => exact stands_bang hassign _
    | bitNot => exact stands_punctuator_final rfl _
    | typeof | void | delete => cases hword
  head _ := head_operator operator _

/-- An infix operator between two operands. -/
lemma joined {operator : InfixOperator} {limit : Nat} (hlimit : limit < operator.strength)
    (hleft : Spelled (.infixed (leftLimit operator)) left s ps)
    (hright : Spelled (.infixed (Grammar.rightLimit operator)) right t qs) :
    Spelled (.infixed limit) (Grammar.joinOperands operator left right)
      (infixSteps s operator.text t) (ps ++ .blank :: .word operator.word :: .blank :: qs) where
  spells := by
    rw [infixSteps, ← operator.text_word]
    exact hleft.spells.append (hright.spells.blank.word operator.word).blank
  derives := by
    rw [wordsOf_append, wordsOf_blank, wordsOf_word, wordsOf_blank]
    exact .joined operator.ofToken?_word hlimit hleft.derives hright.derives
  legible hc := legible_append
    ⟨hleft.legible (Phrase.mem_followers _ (by decide)), operator.stands_word _, hright.legible hc⟩
  head h := by cases h

lemma assign (operator : AssignmentOperator) (hplace : left.isPlace = true)
    (hleft : Spelled (.linked true) left s ps) (hright : Spelled .assignment right t qs) :
    Spelled .assignment (.assignment operator left right) (infixSteps s operator.text t)
      (ps ++ .blank :: .word operator.word :: .blank :: qs) where
  spells := by
    rw [infixSteps, ← operator.text_word]
    exact hleft.spells.append (hright.spells.blank.word operator.word).blank
  derives := by
    rw [wordsOf_append, wordsOf_blank, wordsOf_word, wordsOf_blank]
    exact .assign operator.ofToken?_word hplace hleft.derives hright.derives
  legible hc := legible_append
    ⟨hleft.legible (by decide), operator.stands_word _, hright.legible hc⟩
  head h := by cases h

lemma choice (htest : Spelled (.infixed 0) test s ps)
    (hconsequent : Spelled .assignment consequent t qs)
    (halternate : Spelled .assignment alternate u rs) :
    Spelled .conditional (.conditional test consequent alternate)
      (s ++ .text " ? " :: (t ++ .text " : " :: u))
      (ps ++ .blank :: .word (punctuator .question) :: .blank ::
        (qs ++ .blank :: .word (punctuator .colon) :: .blank :: rs)) where
  spells := by
    have hquestion : Spells [.text " ? "] [.blank, .word (punctuator .question), .blank] :=
      .text rfl
    have hcolon : Spells [.text " : "] [.blank, .word (punctuator .colon), .blank] := .text rfl
    exact htest.spells.append (hquestion.append
      (hconsequent.spells.append (hcolon.append halternate.spells)))
  derives := by
    simpa using Derives.choice htest.derives hconsequent.derives halternate.derives
  legible hc := by
    refine legible_append ⟨htest.legible (by decide), stands_punctuator_blank _ _, ?_⟩
    refine legible_append ⟨hconsequent.legible (by decide), stands_punctuator_blank _ _, ?_⟩
    exact halternate.legible hc
  head h := by cases h

lemma spread (h : Spelled .assignment e s ps) :
    Spelled .item (.spread e) (.text "..." :: s) (.word (punctuator .ellipsis) :: ps) where
  spells := h.spells.word (punctuator .ellipsis)
  derives := .spread h.derives
  legible hc := ⟨stands_punctuator_final rfl _, h.legible hc⟩
  head h := by cases h

end Spelled

end BindingProxy
