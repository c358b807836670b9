import BindingProxy.Code.Printer
import BindingProxy.Proofs.Token.Stream
import BindingProxy.Proofs.Tree.Plain
import Mathlib.Data.List.Forall2

/-!
# Printed statements

The steps that write a plain statement come to words, blanks and line breaks (`Node.pieces`).  They
write the characters of these pieces (`Plain.isSpelled`), and each word can be told from what
follows it (`Plain.isLegible`).  A statement is printed in the same way on every level but for the
blanks at the beginning of its lines.
-/

namespace BindingProxy

open Word

/-! ### Words that may open a line -/

/-- A piece of a text of several lines. -/
abbrev LinePiece := PieceOf LineWord

/-- A word that follows another one on the same line. -/
def inLine (w : Word) : LinePiece := .word ⟨w, false⟩

/-- A word that may open a line. -/
def opening (w : Word) : LinePiece := .word ⟨w, true⟩

/-- A punctuator on the line of what precedes it. -/
def mark (p : Punctuator) : LinePiece := inLine (punctuator p)

/-- A word of the language that may open a line. -/
def keyword (w : ReservedWord) : LinePiece := opening (reserved w)

namespace Word

/-- A word that is a name in other places. -/
def contextual (w : ContextualWord) : Word := ⟨.contextual w, w.text⟩

end Word

/-- The word that declares variables of the kind. -/
def VariableKind.spelling : VariableKind → Word
  | functionScoped => reserved .kwVar
  | blockScoped => Word.contextual .kwLet
  | constant => reserved .kwConst

/-- The word between the sides of a loop over a value. -/
def Iteration.spelling : Iteration → Word
  | keys => reserved .kwIn
  | values => Word.contextual .kwOf

/-- The word of the jump. -/
def Jump.reservedWord : Jump → ReservedWord
  | leave => .kwBreak
  | .repeat => .kwContinue

/-! ### The pieces of a statement -/

/-- The blanks before a line. -/
def indentation (level : Nat) : List LinePiece := List.replicate (2 * level) .blank

/-- Items on lines of their own, each after the end of the line before. -/
def newLines (level : Nat) (items : List (List LinePiece)) : List LinePiece :=
  items.flatMap fun item => .lineBreak :: indentation level ++ item

/-- A closing brace on a line of its own. -/
def closing (level : Nat) : List LinePiece :=
  .lineBreak :: indentation level ++ [opening (punctuator .closeBrace)]

/-- Items on lines of their own in braces, which touch when there are none. -/
def bracedPieces (level : Nat) (items : List (List LinePiece)) : List LinePiece :=
  if items.isEmpty then [opening (punctuator .openBrace), opening (punctuator .closeBrace)]
  else opening (punctuator .openBrace) :: newLines (level + 1) items ++ closing level

/-- Items with commas between them. -/
def commaPieces : List (List LinePiece) → List LinePiece
  | [] => []
  | [item] => item
  | item :: items => item ++ mark .comma :: .blank :: commaPieces items

/-- A declaration without its semicolon. -/
def declarationPieces (kind : VariableKind) (declarators : List (List LinePiece)) :
    List LinePiece :=
  opening kind.spelling :: .blank :: commaPieces declarators

/-- The pieces, the first of which may open a line. -/
def openLine : List LinePiece → List LinePiece
  | .word w :: ps => .word ⟨w.word, true⟩ :: ps
  | ps => ps

/-- The beginning of a statement with something in parentheses. -/
def headPieces (w : ReservedWord) (ps : List LinePiece) : List LinePiece :=
  keyword w :: .blank :: mark .openParen :: ps ++ [mark .closeParen, .blank]

/-- The beginning of a function, up to its name. -/
def functionHead (name : String) (isAsync isGenerator : Bool) : List LinePiece :=
  (if isAsync then [opening (Word.contextual .kwAsync), .blank] else []) ++
    (.word ⟨reserved .kwFunction, !isAsync⟩ ::
      (if isGenerator then [mark .star, .blank] else [.blank]) ++ [inLine (Word.name name)])

namespace Node

mutual

/-- The pieces that a plain part of a script is printed as, some levels in.  A branch leaves the end
of its last line to what follows it. -/
def pieces : Node → Nat → List LinePiece
  | .identifier name, _ => [inLine (Word.name name)]
  | .expressionStatement e, level => openLine (pieces e level) ++ [mark .semicolon]
  | .block body, level => bracedPieces level (piecesEach body (level + 1))
  | .empty, _ => [opening (punctuator .semicolon)]
  | .debugger, _ => [keyword .kwDebugger, mark .semicolon]
  | .returning argument, level =>
    keyword .kwReturn ::
      (match piecesOption argument level with
        | some ps => .blank :: ps
        | none => []) ++
      [mark .semicolon]
  | .conditionalStatement test consequent alternate, level =>
    headPieces .kwIf (pieces test level) ++ pieces consequent level ++
      (match piecesOption alternate level with
        | some ps => .blank :: inLine (reserved .kwElse) :: .blank :: ps
        | none => [])
  | .whileLoop test body, level => headPieces .kwWhile (pieces test level) ++ pieces body level
  | .doWhileLoop body test, level =>
    keyword .kwDo :: .blank :: pieces body level ++ .blank :: keyword .kwWhile :: .blank ::
      mark .openParen :: pieces test level ++ [mark .closeParen, mark .semicolon]
  | .forLoop init test step body, level =>
    headPieces .kwFor
      ((match init with
        | some (.declaration kind declarators) =>
          declarationPieces kind (piecesEach declarators level)
        | some init => pieces init level
        | none => []) ++
      mark .semicolon :: .blank :: (piecesOption test level).getD [] ++
        mark .semicolon :: .blank :: (piecesOption step level).getD []) ++ pieces body level
  | .forEach iteration left right body, level =>
    headPieces .kwFor
      ((match left with
        | .declaration kind declarators => declarationPieces kind (piecesEach declarators level)
        | left => pieces left level) ++
      .blank :: inLine iteration.spelling :: .blank :: pieces right level) ++ pieces body level
  | .jump kind label, _ =>
    keyword kind.reservedWord ::
      (match label with
        | some name => [.blank, inLine (Word.name name)]
        | none => []) ++
      [mark .semicolon]
  | .throwing argument, level =>
    keyword .kwThrow :: .blank :: pieces argument level ++ [mark .semicolon]
  | .guarded body recovery finalizer, level =>
    keyword .kwTry :: .blank :: pieces body level ++ (piecesOption recovery level).getD [] ++
      (match piecesOption finalizer level with
        | some ps => .blank :: keyword .kwFinally :: .blank :: ps
        | none => [])
  | .handler param body, level =>
    .blank :: keyword .kwCatch :: .blank ::
      (match piecesOption param level with
        | some ps => mark .openParen :: ps ++ [mark .closeParen, .blank]
        | none => []) ++
      pieces body level
  | .switch discriminant cases, level =>
    headPieces .kwSwitch (pieces discriminant level) ++ opening (punctuator .openBrace) ::
      newLines (level + 1) (piecesEach cases (level + 1)) ++ closing level
  | .switchCase test consequent, level =>
    (match piecesOption test level with
      | some ps => keyword .kwCase :: .blank :: ps ++ [mark .colon]
      | none => [keyword .kwDefault, mark .colon]) ++
      newLines (level + 1) (piecesEach consequent (level + 1))
  | .labeled label body, level =>
    opening (Word.name label) :: mark .colon :: .blank :: pieces body level
  | .declaration kind declarators, level =>
    declarationPieces kind (piecesEach declarators level) ++ [mark .semicolon]
  | .declarator id init, level =>
    pieces id level ++
      (match piecesOption init level with
        | some ps => .blank :: mark .assign :: .blank :: ps
        | none => [])
  | .function _ (some name) params body isAsync isGenerator, level =>
    functionHead name isAsync isGenerator ++
      (mark .openParen :: commaPieces (piecesEach params level) ++ [mark .closeParen]) ++
      .blank :: pieces body level
  | _, _ => []

/-- The pieces of each node. -/
def piecesEach : List Node → Nat → List (List LinePiece)
  | [], _ => []
  | n :: ns, level => pieces n level :: piecesEach ns level

/-- The pieces of a node that may be missing. -/
def piecesOption : Option Node → Nat → Option (List LinePiece)
  | none, _ => none
  | some n, level => some (pieces n level)

end

end Node

/-! ### The words of the pieces -/

section

variable (w : Word) (p : Punctuator) (k : ReservedWord) (level : Nat) (ps : List LinePiece)
  (pss : List (List LinePiece))

@[simp] lemma wordsOf_inLine : wordsOf (inLine w :: ps) = ⟨w, false⟩ :: wordsOf ps := rfl

@[simp] lemma wordsOf_opening : wordsOf (opening w :: ps) = ⟨w, true⟩ :: wordsOf ps := rfl

@[simp] lemma wordsOf_mark : wordsOf (mark p :: ps) = ⟨punctuator p, false⟩ :: wordsOf ps := rfl

@[simp] lemma wordsOf_keyword : wordsOf (keyword k :: ps) = ⟨reserved k, true⟩ :: wordsOf ps := rfl

@[simp] lemma wordsOf_indentation : wordsOf (indentation level) = [] := by
  simp [wordsOf, indentation, PieceOf.word?]

@[simp] lemma wordsOf_newLines : wordsOf (newLines level pss) = pss.flatMap wordsOf := by
  induction pss with
  | nil => rfl
  | cons ps pss ih =>
    rw [List.flatMap_cons, ← ih]
    simp [newLines]

@[simp] lemma wordsOf_closing : wordsOf (closing level) = [⟨punctuator .closeBrace, true⟩] := by
  simp [closing]

@[simp] lemma wordsOf_bracedPieces :
    wordsOf (bracedPieces level pss) =
      ⟨punctuator .openBrace, true⟩ ::
        (pss.flatMap wordsOf ++ [⟨punctuator .closeBrace, true⟩]) := by
  cases pss with
  | nil => rfl
  | cons ps pss => simp [bracedPieces]

@[simp] lemma wordsOf_headPieces :
    wordsOf (headPieces k ps) =
      ⟨reserved k, true⟩ :: ⟨punctuator .openParen, false⟩ ::
        (wordsOf ps ++ [⟨punctuator .closeParen, false⟩]) := by
  simp [headPieces]

end

/-- The breaks before the lines and one at the end are the breaks after the lines. -/
lemma newLines_append (level : Nat) (pss : List (List LinePiece)) :
    newLines level pss ++ [PieceOf.lineBreak] =
      .lineBreak :: pss.flatMap fun ps => indentation level ++ (ps ++ [PieceOf.lineBreak]) := by
  induction pss with
  | nil => rfl
  | cons ps pss ih => simp_all [newLines]

/-! ### What the steps write -/

lemma indentedLines_eq (items : List (List CodeStep)) :
    indentedLines items = (items.map (· ++ [.newLine])).flatMap (.indent :: ·) := by
  simp [indentedLines, List.flatMap_map]

lemma charsOf_indentation (level : Nat) :
    (List.replicate level "  ").flatMap String.toList = charsOf (indentation level) := by
  induction level with
  | zero => rfl
  | succ level ih =>
    rw [List.replicate_succ, List.flatMap_cons, ih]
    rfl

/-- Carried out `level` levels in, with two blanks for each level, the steps write the characters of
the pieces and end on the same level. -/
def SpellsAt (level : Nat) (steps : List CodeStep) (ps : List LinePiece) : Prop :=
  ∀ b : CodeBuffer, b.layout = {} → b.level = level →
    b.run steps = b.append (String.ofList (charsOf ps))

namespace SpellsAt

variable {level : Nat} {s t : List CodeStep} {ps qs : List LinePiece}

lemma nil : SpellsAt level [] [] := by
  intro b _ _
  simp [CodeBuffer.run, CodeBuffer.append]

lemma append (h : SpellsAt level s ps) (h' : SpellsAt level t qs) :
    SpellsAt level (s ++ t) (ps ++ qs) := by
  intro b hlayout hlevel
  have hrun : b.run (s ++ t) = (b.run s).run t := List.foldl_append
  have hnext := h' (b.append (String.ofList (charsOf ps))) hlayout hlevel
  rw [hrun, h b hlayout hlevel, hnext]
  simp [CodeBuffer.append, String.append_assoc]

/-- A text that consists of some pieces. -/
lemma text {s : String} (h : s.toList = charsOf ps) : SpellsAt level [.text s] ps := by
  intro b _ _
  rw [← h, String.ofList_toList]
  rfl

lemma name (x : String) (mayOpenLine : Bool) :
    SpellsAt level [.text x] [.word ⟨Word.name x, mayOpenLine⟩] :=
  text (by simp [charsOf, PieceOf.chars, Written.word, Word.name])

lemma newLine : SpellsAt level [.newLine] [.lineBreak] := by
  intro b hlayout _
  simp [CodeBuffer.run, CodeBuffer.step, hlayout]

lemma indent : SpellsAt level [.indent] (indentation level) := by
  intro b hlayout hlevel
  have hrun : b.run [.indent] = b.append b.indentation := rfl
  have hblanks : b.indentation = String.ofList (charsOf (indentation level)) := by
    rw [← String.toList_inj, CodeBuffer.indentation, String.toList_join, String.toList_ofList,
      hlayout, hlevel, charsOf_indentation]
  rw [hrun, hblanks]

/-- After some steps, lines one level further in. -/
lemma deeper {s' : List CodeStep} {ps' : List LinePiece} (h' : SpellsAt level s' ps')
    (h : SpellsAt (level + 1) (.newLine :: s) (ps ++ [PieceOf.lineBreak])) :
    SpellsAt level (s' ++ [CodeStep.newLine, .deeper] ++ s ++ [CodeStep.shallower])
      (ps' ++ ps ++ [PieceOf.lineBreak]) := by
  have hlines : SpellsAt level (CodeStep.newLine :: .deeper :: s ++ [CodeStep.shallower])
      (ps ++ [PieceOf.lineBreak]) := by
    intro b hlayout hlevel
    -- It makes no difference whether the line ends before or after the level changes.
    have hrun : b.run (.newLine :: .deeper :: s ++ [.shallower]) =
        (({ b with level := level + 1 } : CodeBuffer).run (.newLine :: s)).step .shallower := by
      rw [CodeBuffer.run, CodeBuffer.run, List.cons_append, List.cons_append, ← hlevel]
      simp [CodeBuffer.step, CodeBuffer.append]
    have hline := h { b with level := level + 1 } hlayout rfl
    rw [hrun, hline, ← hlevel]
    rfl
  simpa using h'.append hlines

/-! Lists of items. -/

variable {items : List (List CodeStep)} {pss : List (List LinePiece)}

/-- Items that end their lines. -/
lemma endedLines
    (h : List.Forall₂ (fun item ps => SpellsAt level item (ps ++ [PieceOf.lineBreak])) items pss) :
    SpellsAt level (items.flatMap (.indent :: ·))
      (pss.flatMap fun ps => indentation level ++ (ps ++ [PieceOf.lineBreak])) := by
  induction h with
  | nil => exact nil
  | cons hitem _ ih => exact (indent.append hitem).append ih

/-- Each line is written after the end of the line before. -/
lemma afterLine
    (h : List.Forall₂ (fun item ps => SpellsAt level item (ps ++ [PieceOf.lineBreak])) items pss) :
    SpellsAt level (.newLine :: items.flatMap (.indent :: ·))
      (newLines level pss ++ [PieceOf.lineBreak]) := by
  rw [newLines_append]
  exact newLine.append (endedLines h)

/-- Items on lines of their own. -/
lemma ownLines (h : List.Forall₂ (SpellsAt level) items pss) :
    List.Forall₂ (fun item ps => SpellsAt level item (ps ++ [PieceOf.lineBreak]))
      (items.map (· ++ [CodeStep.newLine])) pss :=
  List.forall₂_map_left_iff.2 (h.imp fun _ _ hitem => hitem.append newLine)

lemma lines (h : List.Forall₂ (SpellsAt level) items pss) :
    SpellsAt level (.newLine :: indentedLines items) (newLines level pss ++ [.lineBreak]) := by
  rw [indentedLines_eq]
  exact afterLine (ownLines h)

/-- After some steps, lines one level further in up to a closing brace. -/
lemma upToBrace {s' : List CodeStep} {ps' : List LinePiece} (h' : SpellsAt level s' ps')
    (h : SpellsAt (level + 1) (.newLine :: s) (ps ++ [PieceOf.lineBreak])) :
    SpellsAt level
      (s' ++ [CodeStep.newLine, .deeper] ++ s ++ [CodeStep.shallower, .indent, .text "\x7d"])
      (ps' ++ ps ++ closing level) := by
  have hbrace : SpellsAt level [.indent, .text "\x7d"]
      (indentation level ++ [opening (punctuator .closeBrace)]) :=
    indent.append (text rfl)
  simpa [closing] using (h'.deeper h).append hbrace

lemma inBraces (h : List.Forall₂ (SpellsAt (level + 1)) items pss) :
    SpellsAt level (BindingProxy.inBraces items) (bracedPieces level pss) := by
  have hopen : SpellsAt level [.text "\x7b"] [opening (punctuator .openBrace)] := text rfl
  cases h with
  | nil => exact hopen.append (text rfl)
  | cons hitem h =>
    have hbraces := hopen.upToBrace (lines (h.cons hitem))
    simpa [BindingProxy.inBraces, bracedPieces] using hbraces

/-- Items with commas between them. -/
lemma commas (h : List.Forall₂ (SpellsAt level) items pss) :
    SpellsAt level (commaSeparated items) (commaPieces pss) := by
  have hcomma : SpellsAt level [.text ", "] [mark .comma, .blank] := text rfl
  induction h with
  | nil => exact nil
  | @cons item ps items pss hitem hitems ih =>
    cases hitems with
    | nil => exact hitem
    | cons h' hitems' => exact hitem.append (hcomma.append ih)

lemma declaration (kind : VariableKind) (h : List.Forall₂ (SpellsAt level) items pss) :
    SpellsAt level (declarationSteps kind items) (declarationPieces kind pss) := by
  have hword : SpellsAt level [.text kind.word] [opening kind.spelling] :=
    text (by cases kind <;> rfl)
  have hblank : SpellsAt level [.text " "] [.blank] := text rfl
  exact hword.append (hblank.append (commas h))

lemma each {R : List CodeStep → List LinePiece → Prop} {ns : List Node}
    (h : ∀ n ∈ ns, R n.steps (n.pieces level)) :
    List.Forall₂ R (Node.stepsEach ns) (Node.piecesEach ns level) := by
  induction ns with
  | nil => exact .nil
  | cons n ns ih =>
    exact .cons (h n List.mem_cons_self) (ih fun m hm => h m (List.mem_cons_of_mem _ hm))

/-- A word with something in parentheses after it, and what follows them. -/
lemma headed {w : ReservedWord} {head : String}
    (hhead : head.toList = charsOf [keyword w, .blank, mark .openParen]) (h : SpellsAt level s ps)
    (ht : SpellsAt level t qs) :
    SpellsAt level (.text head :: s ++ .text ") " :: t) (headPieces w ps ++ qs) := by
  have hclose : SpellsAt level [.text ") "] [mark .closeParen, .blank] := text rfl
  have hall := ((text hhead).append h).append (hclose.append ht)
  simpa [headPieces] using hall

/-- A name that may be missing. -/
lemma optional {e : Option Node} (h : ∀ n ∈ e, SpellsAt level n.steps (n.pieces level)) :
    SpellsAt level ((Node.stepsOption e).getD []) ((Node.piecesOption e level).getD []) := by
  cases e with
  | none => exact nil
  | some n => exact h n rfl

/-- The head of a loop in three parts. -/
lemma loopHead {test step : Option Node} {body : Node} (h : SpellsAt level s ps)
    (htest : ∀ n ∈ test, SpellsAt level n.steps (n.pieces level))
    (hstep : ∀ n ∈ step, SpellsAt level n.steps (n.pieces level))
    (hbody : SpellsAt level body.steps (body.pieces level)) :
    SpellsAt level
      (.text "for (" :: s ++ .text "; " :: (Node.stepsOption test).getD [] ++
        .text "; " :: (Node.stepsOption step).getD [] ++ .text ") " :: body.steps)
      (headPieces .kwFor
        (ps ++ mark .semicolon :: .blank :: (Node.piecesOption test level).getD [] ++
          mark .semicolon :: .blank :: (Node.piecesOption step level).getD []) ++
        body.pieces level) := by
  have hsemicolon : SpellsAt level [.text "; "] [mark .semicolon, .blank] := text rfl
  have hparts := (h.append (hsemicolon.append (optional htest))).append
    (hsemicolon.append (optional hstep))
  exact headed rfl hparts hbody

/-- The head of a loop over a value. -/
lemma loopSides {right body : Node} (iteration : Iteration) (h : SpellsAt level s ps)
    (hright : SpellsAt level right.steps (right.pieces level))
    (hbody : SpellsAt level body.steps (body.pieces level)) :
    SpellsAt level
      (.text "for (" :: s ++ .text " " :: .text iteration.word :: .text " " :: right.steps ++
        .text ") " :: body.steps)
      (headPieces .kwFor
        (ps ++ .blank :: inLine iteration.spelling :: .blank :: right.pieces level) ++
        body.pieces level) := by
  have hblank : SpellsAt level [.text " "] [.blank] := text rfl
  have hword : SpellsAt level [.text iteration.word] [inLine iteration.spelling] :=
    text (by cases iteration <;> rfl)
  have hsides := h.append (hblank.append (hword.append (hblank.append hright)))
  exact headed rfl hsides hbody

end SpellsAt

/-- The steps of a part write its pieces.  A branch also ends its last line. -/
def IsSpelled : Part → Node → Prop
  | .branch, n => ∀ level, SpellsAt level n.steps (n.pieces level ++ [.lineBreak])
  | _, n => ∀ level, SpellsAt level n.steps (n.pieces level)

open SpellsAt in
lemma Plain.isSpelled {part : Part} {n : Node} (h : Plain part n) : IsSpelled part n := by
  have hsemicolon : ∀ level, SpellsAt level [.text ";"] [mark .semicolon] := fun _ => text rfl
  have hblank : ∀ level, SpellsAt level [.text " "] [.blank] := fun _ => text rfl
  induction h with
  | identifier => exact fun level => name _ _
  | expressionStatement he =>
    cases he
    exact fun level => (name _ true).append (hsemicolon level)
  | block _ ih => exact fun level => SpellsAt.inBraces (each fun s hs => ih s hs (level + 1))
  | nested _ ih => exact ih
  | empty => exact fun level => text rfl
  | debugger => exact fun level => text rfl
  | @returning argument _ ih =>
    intro level
    have hword : SpellsAt level [.text "return"] [keyword .kwReturn] := text rfl
    cases argument with
    | none => exact hword.append (hsemicolon level)
    | some e =>
      have hargument := (hblank level).append (ih e rfl level)
      exact (hword.append hargument).append (hsemicolon level)
  | throwing _ ih =>
    intro level
    have hword : SpellsAt level [.text "throw "] [keyword .kwThrow, .blank] := text rfl
    exact (hword.append (ih level)).append (hsemicolon level)
  | @jump kind label =>
    intro level
    have hword : SpellsAt level [.text kind.word] [keyword kind.reservedWord] :=
      text (by cases kind <;> rfl)
    cases label with
    | none => exact hword.append (hsemicolon level)
    | some x =>
      have hlabel := (hblank level).append (name x false)
      exact (hword.append hlabel).append (hsemicolon level)
  | ifThen _ _ ihtest ihconsequent =>
    intro level
    exact (headed rfl (ihtest level) (ihconsequent level)).append nil
  | ifElse _ _ _ _ ihtest ihconsequent ihalternate =>
    intro level
    have helse : SpellsAt level [.text " else "] [.blank, inLine (reserved .kwElse), .blank] :=
      text rfl
    exact (headed rfl (ihtest level) (ihconsequent level)).append (helse.append (ihalternate level))
  | whileLoop _ _ ihtest ihbody => exact fun level => headed rfl (ihtest level) (ihbody level)
  | doWhileLoop _ _ ihbody ihtest =>
    intro level
    have hdo : SpellsAt level [.text "do "] [keyword .kwDo, .blank] := text rfl
    have hwhile : SpellsAt level [.text " while ("]
        [.blank, keyword .kwWhile, .blank, mark .openParen] := text rfl
    have hend : SpellsAt level [.text ");"] [mark .closeParen, mark .semicolon] := text rfl
    exact ((hdo.append (ihbody level)).append (hwhile.append (ihtest level))).append hend
  | @forLoop init test step body hinit _ _ _ ihinit ihtest ihstep ihbody =>
    intro level
    cases init with
    | none =>
      exact loopHead nil (fun n hn => ihtest n hn level) (fun n hn => ihstep n hn level)
        (ihbody level)
    | some e =>
      have he := ihinit e rfl level
      cases hinit e rfl
      exact loopHead he (fun n hn => ihtest n hn level) (fun n hn => ihstep n hn level)
        (ihbody level)
  | forLoopDeclaring kind _ _ _ _ _ ih ihtest ihstep ihbody =>
    intro level
    exact loopHead (SpellsAt.declaration kind (each fun d hd => ih d hd level))
      (fun n hn => ihtest n hn level) (fun n hn => ihstep n hn level) (ihbody level)
  | forEach iteration hleft _ _ ihleft ihright ihbody =>
    intro level
    have hname := ihleft level
    cases hleft
    exact loopSides iteration hname (ihright level) (ihbody level)
  | forEachDeclaring iteration kind _ _ _ ihid ihright ihbody =>
    intro level
    have hdeclarator := (ihid level).append nil
    exact loopSides iteration (SpellsAt.declaration kind (.cons hdeclarator .nil)) (ihright level)
      (ihbody level)
  | @handler param body _ _ ihparam ihbody =>
    intro level
    cases param with
    | none =>
      have hcatch : SpellsAt level [.text " catch "] [.blank, keyword .kwCatch, .blank] := text rfl
      exact hcatch.append (ihbody level)
    | some e =>
      have hcatch : SpellsAt level [.text " catch ("]
          [.blank, keyword .kwCatch, .blank, mark .openParen] := text rfl
      have hclose : SpellsAt level [.text ") "] [mark .closeParen, .blank] := text rfl
      exact ((hcatch.append (ihparam e rfl level)).append hclose).append (ihbody level)
  | @guarded body recovery finalizer _ _ _ _ ihbody ihrecovery ihfinalizer =>
    intro level
    have htry : SpellsAt level [.text "try "] [keyword .kwTry, .blank] := text rfl
    have hguarded := (htry.append (ihbody level)).append
      (optional fun n hn => ihrecovery n hn level)
    cases finalizer with
    | none => exact hguarded.append nil
    | some b =>
      have hfinally : SpellsAt level [.text " finally "] [.blank, keyword .kwFinally, .blank] :=
        text rfl
      exact hguarded.append (hfinally.append (ihfinalizer b rfl level))
  | @branch test body htest _ ihtest ihbody =>
    intro level
    have hbody := lines (each fun s hs => ihbody s hs (level + 1))
    cases test with
    | none =>
      have hdefault : SpellsAt level [.text "default:"] [keyword .kwDefault, mark .colon] :=
        text rfl
      exact hdefault.deeper hbody
    | some e =>
      have hcase : SpellsAt level [.text "case "] [keyword .kwCase, .blank] := text rfl
      have hcolon : SpellsAt level [.text ":"] [mark .colon] := text rfl
      exact ((hcase.append (ihtest e rfl level)).append hcolon).deeper hbody
  | @switch discriminant branches hdiscriminant _ ihdiscriminant ihbranches =>
    intro level
    have hhead : SpellsAt level [.text "switch ("] [keyword .kwSwitch, .blank, mark .openParen] :=
      text rfl
    have hopen : SpellsAt level [.text ") \x7b"]
        [mark .closeParen, .blank, opening (punctuator .openBrace)] := text rfl
    have hbranches : List.Forall₂ (fun item ps => SpellsAt (level + 1) item (ps ++ [.lineBreak]))
        (Node.stepsEach branches) (Node.piecesEach branches (level + 1)) :=
      each fun b hb => ihbranches b hb (level + 1)
    have hname := ihdiscriminant level
    cases hdiscriminant
    exact ((hhead.append hname).append hopen).upToBrace (afterLine hbranches)
  | labeled _ _ ihbody =>
    intro level
    have hcolon : SpellsAt level [.text ": "] [mark .colon, .blank] := text rfl
    exact (name _ true).append (hcolon.append (ihbody level))
  | @declarator id init _ _ ihid ihinit =>
    intro level
    cases init with
    | none => exact (ihid level).append nil
    | some e =>
      have hassign : SpellsAt level [.text " = "] [.blank, mark .assign, .blank] := text rfl
      exact (ihid level).append (hassign.append (ihinit e rfl level))
  | declaration kind _ _ ih =>
    intro level
    exact (SpellsAt.declaration kind (each fun d hd => ih d hd level)).append (hsemicolon level)
  | @function fname params body isAsync isGenerator _ _ _ ihparams ihbody =>
    intro level
    have hasync : SpellsAt level (if isAsync then [.text "async "] else [])
        (if isAsync then [opening (Word.contextual .kwAsync), .blank] else []) := by
      cases isAsync with
      | false => exact nil
      | true => exact text rfl
    have hword : SpellsAt level [.text (if isGenerator then "function* " else "function ")]
        (.word ⟨reserved .kwFunction, !isAsync⟩ ::
          if isGenerator then [mark .star, .blank] else [.blank]) :=
      text (by cases isAsync <;> cases isGenerator <;> rfl)
    have hopen : SpellsAt level [.text "("] [mark .openParen] := text rfl
    have hclose : SpellsAt level [.text ")"] [mark .closeParen] := text rfl
    have hparams := (hopen.append (commas (each fun p hp => ihparams p hp level))).append hclose
    have hall := ((hasync.append (hword.append (name fname false))).append hparams).append
      ((hblank level).append (ihbody level))
    exact hall

/-! ### Words that can be told apart -/

/-- The pieces can be read before all that can be read and whose characters satisfy `P`. -/
def LegibleBefore (P : List Char → Prop) (ps : List LinePiece) : Prop :=
  ∀ next tail, P (charsOf next ++ tail) → Legible next tail → Legible (ps ++ next) tail

/-- Pieces that can be read whatever follows. -/
abbrev Closed : List LinePiece → Prop := LegibleBefore fun _ => True

/-- Pieces that can be read before all that does not go on with a name. -/
abbrev EndsInName : List LinePiece → Prop := LegibleBefore Lexeme.EndsName

section

variable {P Q : List Char → Prop} {ps qs : List LinePiece} {pss : List (List LinePiece)}
  {p : Punctuator}

lemma LegibleBefore.join (h : LegibleBefore P ps) (h' : LegibleBefore Q qs)
    (himp : ∀ tail, Q tail → P (charsOf qs ++ tail)) : LegibleBefore Q (ps ++ qs) := by
  intro next tail hQ hnext
  have hP : P (charsOf (qs ++ next) ++ tail) := by
    rw [charsOf_append, List.append_assoc]
    exact himp _ hQ
  rw [List.append_assoc]
  exact h _ tail hP (h' next tail hQ hnext)

lemma LegibleBefore.append (h : Closed ps) (h' : LegibleBefore Q qs) : LegibleBefore Q (ps ++ qs) :=
  h.join h' fun _ _ => trivial

lemma legibleBefore_nil : LegibleBefore P [] := fun _ _ _ hnext => hnext

lemma closed_blank : Closed [.blank] := fun _ _ _ hnext => hnext

lemma closed_final (hp : isFinal p = true) (mayOpenLine : Bool) :
    Closed [.word ⟨punctuator p, mayOpenLine⟩] :=
  fun _ _ _ hnext => ⟨stands_punctuator_final hp _, hnext⟩

lemma closed_mark (hp : isFinal p = true) : Closed [mark p] := closed_final hp false

/-- A name, or a word of the language. -/
lemma endsInName_word {w : Word} (h : w.IsToken) (hkind : w.kind.isWord = true)
    (mayOpenLine : Bool) : EndsInName [.word ⟨w, mayOpenLine⟩] :=
  fun _ _ hends hnext => ⟨h.stands_of_isWord hkind hends, hnext⟩

lemma endsName_punctuator (p : Punctuator) (tail : List Char) :
    Lexeme.EndsName (p.text.toList ++ tail) := by
  cases p <;> exact ⟨by decide, by decide⟩

/-- A blank ends a name. -/
lemma LegibleBefore.blank (h : EndsInName ps) (h' : LegibleBefore Q qs) :
    LegibleBefore Q (ps ++ .blank :: qs) :=
  h.join (closed_blank.append h') fun _ _ => ⟨by decide, by decide⟩

/-- A punctuator ends a name. -/
lemma LegibleBefore.beforeMark (h : EndsInName ps) (h' : LegibleBefore Q (mark p :: qs)) :
    LegibleBefore Q (ps ++ mark p :: qs) := by
  refine h.join h' fun tail _ => ?_
  have hchars : charsOf (BindingProxy.mark p :: qs) ++ tail =
      p.text.toList ++ (charsOf qs ++ tail) := List.append_assoc _ _ _
  rw [hchars]
  exact endsName_punctuator p _

lemma LegibleBefore.mark (h : EndsInName ps) (hp : isFinal p = true) (h' : LegibleBefore Q qs) :
    LegibleBefore Q (ps ++ mark p :: qs) :=
  h.beforeMark ((closed_mark hp).append h')

/-- Every punctuator can be read before a blank. -/
lemma closed_spaced (p : Punctuator) : Closed [mark p, .blank] :=
  fun _ _ _ hnext => ⟨stands_punctuator_blank p _, hnext⟩

lemma closed_keyword (w : ReservedWord) : Closed [keyword w, .blank] :=
  (endsInName_word (isToken_reserved w) rfl true).blank legibleBefore_nil

lemma closed_headPieces (w : ReservedWord) (h : EndsInName ps) : Closed (headPieces w ps) := by
  have hopen : Closed [keyword w, .blank, mark .openParen] :=
    (closed_keyword w).append (closed_mark rfl)
  exact (hopen.append h).mark rfl closed_blank

/-! Lists of items. -/

lemma opensLine_indentation (h : OpensLine ps) (level : Nat) :
    OpensLine (indentation level ++ ps) := by
  unfold indentation
  induction 2 * level with
  | zero => exact h
  | succ n ih => exact ih

lemma closed_indentation (level : Nat) : Closed (indentation level) := by
  unfold indentation
  induction 2 * level with
  | zero => exact legibleBefore_nil
  | succ n ih => exact ih

/-- A line that begins with a word that may open one. -/
lemma closed_line (hopens : OpensLine ps) (h : Closed ps) (level : Nat) :
    Closed (.lineBreak :: indentation level ++ ps) := by
  intro next tail _ hnext
  refine ⟨(opensLine_indentation hopens level).append next, ?_⟩
  exact (closed_indentation level).append h next tail trivial hnext

lemma closed_newLines (h : ∀ ps ∈ pss, OpensLine ps ∧ Closed ps) (level : Nat) :
    Closed (newLines level pss) := by
  induction pss with
  | nil => exact legibleBefore_nil
  | cons ps pss ih =>
    obtain ⟨hopens, hclosed⟩ := h ps List.mem_cons_self
    have hlines := ih fun qs hqs => h qs (List.mem_cons_of_mem _ hqs)
    exact (closed_line hopens hclosed level).append hlines

lemma closed_closing (level : Nat) : Closed (closing level) := by
  have hopens : OpensLine [opening (punctuator .closeBrace)] := rfl
  exact closed_line hopens (closed_final rfl true) level

lemma closed_bracedPieces (h : ∀ ps ∈ pss, OpensLine ps ∧ Closed ps) (level : Nat) :
    Closed (bracedPieces level pss) := by
  have hopen : Closed [opening (punctuator .openBrace)] := closed_final rfl true
  have hlines := (hopen.append (closed_newLines h (level + 1))).append (closed_closing level)
  unfold bracedPieces
  split
  · exact hopen.append (closed_final rfl true)
  · exact hlines

lemma endsInName_commaPieces (h : ∀ ps ∈ pss, EndsInName ps) : EndsInName (commaPieces pss) := by
  fun_induction commaPieces pss with
  | case1 => exact legibleBefore_nil
  | case2 ps => exact h ps List.mem_cons_self
  | case3 ps pss _ ih =>
    have hitems := ih fun qs hqs => h qs (List.mem_cons_of_mem _ hqs)
    exact (h ps List.mem_cons_self).mark rfl (closed_blank.append hitems)

lemma endsInName_declarationPieces (kind : VariableKind) (h : ∀ ps ∈ pss, EndsInName ps) :
    EndsInName (declarationPieces kind pss) := by
  have htoken : kind.spelling.IsToken := by cases kind <;> decide
  have hword : kind.spelling.kind.isWord = true := by cases kind <;> rfl
  exact (endsInName_word htoken hword true).blank (endsInName_commaPieces h)

lemma legibleBefore_optional {e : Option Node} {level : Nat}
    (h : ∀ n ∈ e, LegibleBefore P (n.pieces level)) :
    LegibleBefore P ((Node.piecesOption e level).getD []) := by
  cases e with
  | none => exact legibleBefore_nil
  | some n => exact h n rfl

lemma forall_piecesEach {R : List LinePiece → Prop} {ns : List Node} {level : Nat}
    (h : ∀ n ∈ ns, R (n.pieces level)) : ∀ ps ∈ Node.piecesEach ns level, R ps := by
  induction ns with
  | nil => exact fun ps hps => absurd hps List.not_mem_nil
  | cons n ns ih =>
    intro ps hps
    rcases List.mem_cons.1 hps with rfl | hps
    · exact h n List.mem_cons_self
    · exact ih (fun m hm => h m (List.mem_cons_of_mem _ hm)) ps hps

lemma endsInName_declarator {id : Node} {init : Option Node} {level : Nat}
    (hid : EndsInName (id.pieces level)) (hinit : ∀ n ∈ init, EndsInName (n.pieces level)) :
    EndsInName ((Node.declarator id init).pieces level) := by
  cases init with
  | none =>
    have hpieces : (Node.declarator id none).pieces level = id.pieces level := List.append_nil _
    rw [hpieces]
    exact hid
  | some e => exact hid.blank ((closed_spaced .assign).append (hinit e rfl))

/-- The head of a loop in three parts. -/
lemma closed_loopHead {test step : Option Node} {level : Nat} (h : EndsInName ps)
    (htest : ∀ n ∈ test, EndsInName (n.pieces level))
    (hstep : ∀ n ∈ step, EndsInName (n.pieces level)) :
    Closed (headPieces .kwFor
      (ps ++ mark .semicolon :: .blank :: (Node.piecesOption test level).getD [] ++
        mark .semicolon :: .blank :: (Node.piecesOption step level).getD [])) := by
  have htests := h.mark (p := .semicolon) rfl (closed_blank.append (legibleBefore_optional htest))
  exact closed_headPieces _ (htests.mark rfl (closed_blank.append (legibleBefore_optional hstep)))

/-- The head of a loop over a value. -/
lemma closed_loopSides (iteration : Iteration) (h : EndsInName ps) (hright : EndsInName qs) :
    Closed (headPieces .kwFor (ps ++ .blank :: inLine iteration.spelling :: .blank :: qs)) := by
  have htoken : iteration.spelling.IsToken := by cases iteration <;> decide
  have hword : iteration.spelling.kind.isWord = true := by cases iteration <;> rfl
  exact closed_headPieces _ (h.blank ((endsInName_word htoken hword false).blank hright))

lemma endsInName_functionHead {name : String} (hname : (Word.name name).IsToken)
    (isAsync isGenerator : Bool) : EndsInName (functionHead name isAsync isGenerator) := by
  have hasync : Closed (if isAsync then [opening (Word.contextual .kwAsync), .blank] else []) := by
    cases isAsync with
    | false => exact legibleBefore_nil
    | true => exact (endsInName_word (by decide) rfl true).blank legibleBefore_nil
  have hfunction : EndsInName [.word ⟨reserved .kwFunction, !isAsync⟩] :=
    endsInName_word (isToken_reserved .kwFunction) rfl _
  have hend := endsInName_word hname rfl false
  refine hasync.append ?_
  cases isGenerator with
  | false => exact hfunction.blank hend
  | true => exact hfunction.beforeMark ((closed_spaced .star).append hend)

end

/-- Statements and branches begin with a word that may open a line. -/
lemma Plain.opensLine {part : Part} {n : Node} (h : Plain part n)
    (hpart : part = .statement ∨ part = .branch) (level : Nat) : OpensLine (n.pieces level) := by
  cases h with
  | identifier | block | handler | declarator => simp at hpart
  | nested h =>
    cases h
    change OpensLine (bracedPieces level _)
    unfold bracedPieces
    split <;> rfl
  | expressionStatement he =>
    cases he
    rfl
  | @forLoop init _ _ _ hinit =>
    cases init with
    | none => rfl
    | some e =>
      cases hinit e rfl
      rfl
  | forEach _ hleft =>
    cases hleft
    rfl
  | @branch test => cases test <;> rfl
  | function isAsync => cases isAsync <;> rfl
  | _ => rfl

/-- The pieces of a part can be read before what may follow it. -/
def IsLegible : Part → Node → Prop
  | .name, n | .declarator, n => ∀ level, EndsInName (n.pieces level)
  | _, n => ∀ level, Closed (n.pieces level)

lemma Plain.isLegible {part : Part} {n : Node} (h : Plain part n) : IsLegible part n := by
  have hword : ∀ w, EndsInName [keyword w] := fun w => endsInName_word (isToken_reserved w) rfl true
  induction h with
  | identifier h => exact fun level => endsInName_word h rfl false
  | expressionStatement he =>
    cases he with
    | identifier h => exact fun level => (endsInName_word h rfl true).mark rfl legibleBefore_nil
  | block h ih =>
    intro level
    refine closed_bracedPieces (forall_piecesEach fun s hs => ?_) level
    exact ⟨(h s hs).opensLine (.inl rfl) _, ih s hs _⟩
  | nested _ ih => exact ih
  | empty => exact fun level => closed_final rfl true
  | debugger => exact fun level => (hword _).mark rfl legibleBefore_nil
  | @returning argument _ ih =>
    intro level
    cases argument with
    | none => exact (hword _).mark rfl legibleBefore_nil
    | some e => exact ((closed_keyword _).append (ih e rfl level)).mark rfl legibleBefore_nil
  | throwing _ ih =>
    exact fun level => ((closed_keyword _).append (ih level)).mark rfl legibleBefore_nil
  | @jump kind label h =>
    intro level
    cases label with
    | none => exact (hword _).mark rfl legibleBefore_nil
    | some x =>
      have hlabel := endsInName_word (h x rfl) rfl false
      exact ((closed_keyword _).append hlabel).mark rfl legibleBefore_nil
  | ifThen _ _ ihtest ihconsequent =>
    intro level
    have hthen := (closed_headPieces .kwIf (ihtest level)).append (ihconsequent level)
    exact hthen.append legibleBefore_nil
  | ifElse _ _ _ _ ihtest ihconsequent ihalternate =>
    intro level
    have hthen := (closed_headPieces .kwIf (ihtest level)).append (ihconsequent level)
    have helse : EndsInName [inLine (reserved .kwElse)] :=
      endsInName_word (isToken_reserved .kwElse) rfl false
    exact hthen.append (closed_blank.append (helse.blank (ihalternate level)))
  | whileLoop _ _ ihtest ihbody =>
    exact fun level => (closed_headPieces _ (ihtest level)).append (ihbody level)
  | doWhileLoop _ _ ihbody ihtest =>
    intro level
    have hdo := (closed_keyword .kwDo).append (ihbody level)
    have hwhile := closed_blank.append ((closed_keyword .kwWhile).append
      ((closed_mark (p := .openParen) rfl).append (ihtest level)))
    exact (hdo.append hwhile).mark rfl (closed_mark rfl)
  | @forLoop init test step body hinit _ _ _ ihinit ihtest ihstep ihbody =>
    intro level
    have htest : ∀ n ∈ test, EndsInName (n.pieces level) := fun n hn => ihtest n hn level
    have hstep : ∀ n ∈ step, EndsInName (n.pieces level) := fun n hn => ihstep n hn level
    cases init with
    | none => exact (closed_loopHead legibleBefore_nil htest hstep).append (ihbody level)
    | some e =>
      have he := ihinit e rfl level
      cases hinit e rfl
      exact (closed_loopHead he htest hstep).append (ihbody level)
  | forLoopDeclaring kind _ _ _ _ _ ih ihtest ihstep ihbody =>
    intro level
    have hinit := endsInName_declarationPieces kind (forall_piecesEach fun d hd => ih d hd level)
    exact (closed_loopHead hinit (fun n hn => ihtest n hn level)
      (fun n hn => ihstep n hn level)).append (ihbody level)
  | forEach iteration hleft _ _ ihleft ihright ihbody =>
    intro level
    have hname := ihleft level
    cases hleft
    exact (closed_loopSides iteration hname (ihright level)).append (ihbody level)
  | @forEachDeclaring iteration kind id _ _ _ _ _ ihid ihright ihbody =>
    intro level
    have hdeclarator : EndsInName ((Node.declarator id none).pieces level) :=
      endsInName_declarator (ihid level) (by simp)
    have hleft := endsInName_declarationPieces kind (List.forall_mem_singleton.2 hdeclarator)
    exact (closed_loopSides iteration hleft (ihright level)).append (ihbody level)
  | @handler param body _ _ ihparam ihbody =>
    intro level
    have hcatch := closed_blank.append (closed_keyword .kwCatch)
    cases param with
    | none => exact hcatch.append (ihbody level)
    | some e =>
      have hparam := ((closed_mark (p := .openParen) rfl).append (ihparam e rfl level)).mark
        (p := .closeParen) rfl closed_blank
      exact (hcatch.append hparam).append (ihbody level)
  | @guarded body recovery finalizer _ _ _ _ ihbody ihrecovery ihfinalizer =>
    intro level
    have hbody := (closed_keyword .kwTry).append (ihbody level)
    have hguarded := hbody.append (legibleBefore_optional fun n hn => ihrecovery n hn level)
    cases finalizer with
    | none => exact hguarded.append legibleBefore_nil
    | some b =>
      have hfinal := (closed_keyword .kwFinally).append (ihfinalizer b rfl level)
      exact hguarded.append (closed_blank.append hfinal)
  | @branch test body _ hbody ihtest ihbody =>
    intro level
    have hlines := closed_newLines (forall_piecesEach fun s hs =>
      ⟨(hbody s hs).opensLine (.inl rfl) (level + 1), ihbody s hs (level + 1)⟩) (level + 1)
    cases test with
    | none => exact ((hword _).mark rfl legibleBefore_nil).append hlines
    | some e =>
      have hcase := (closed_keyword .kwCase).append (ihtest e rfl level)
      exact (hcase.mark rfl legibleBefore_nil).append hlines
  | @switch discriminant branches _ hbranches ihdiscriminant ihbranches =>
    intro level
    have hhead := closed_headPieces .kwSwitch (ihdiscriminant level)
    have hopen : Closed [opening (punctuator .openBrace)] := closed_final rfl true
    have hlines := closed_newLines (forall_piecesEach fun b hb =>
      ⟨(hbranches b hb).opensLine (.inr rfl) (level + 1), ihbranches b hb (level + 1)⟩) (level + 1)
    exact (hhead.append (hopen.append hlines)).append (closed_closing level)
  | labeled hlabel _ ihbody =>
    intro level
    exact (endsInName_word hlabel rfl true).mark rfl (closed_blank.append (ihbody level))
  | declarator _ _ ihid ihinit =>
    exact fun level => endsInName_declarator (ihid level) fun n hn => ihinit n hn level
  | declaration kind _ _ ih =>
    intro level
    have hdeclared :=
      endsInName_declarationPieces kind (forall_piecesEach fun d hd => ih d hd level)
    exact hdeclared.mark rfl legibleBefore_nil
  | @function name params body isAsync isGenerator hname _ _ ihparams ihbody =>
    intro level
    have hparams := endsInName_commaPieces (forall_piecesEach fun p hp => ihparams p hp level)
    have hlist : Closed (commaPieces (Node.piecesEach params level) ++ [mark .closeParen]) :=
      hparams.mark rfl legibleBefore_nil
    have hhead :=
      (endsInName_functionHead hname isAsync isGenerator).mark (p := .openParen) rfl hlist
    exact hhead.append (closed_blank.append (ihbody level))

end BindingProxy
