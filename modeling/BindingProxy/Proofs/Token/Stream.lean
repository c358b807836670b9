import BindingProxy.Proofs.Token.Words

/-!
# Streams of words

A printed text consists of words, blanks and line breaks.  If each word stands before what follows
it, moving through the text meets exactly these words, one after the other, up to the end.
`Cursor.At` says of a cursor which words it has before it; all that is said about reading later on
is said about these words and not about characters.

Line breaks matter to a few rules of the grammar.  The words of an expression stand on one line, so
there they are plain `Word`s.  In other texts a word may open a line, and a `LineWord` says whether
it does.  Streams are made of either (`Written`).
-/

namespace BindingProxy

/-- What a stream can be made of: words, each with whether a line break may stand before it. -/
class Written (ω : Type) where
  word : ω → Word
  mayOpenLine : ω → Bool

/-- A word alone stands on the line of the word before it. -/
instance : Written Word where
  word w := w
  mayOpenLine _ := false

/-- A word and whether it may open a line. -/
structure LineWord where
  word : Word
  mayOpenLine : Bool
deriving Repr, DecidableEq, Inhabited

instance : Written LineWord where
  word := LineWord.word
  mayOpenLine := LineWord.mayOpenLine

open Written

@[simp] lemma Written.word_word (w : Word) : word w = w := rfl

/-- A piece of a printed text. -/
inductive PieceOf (ω : Type) where
  | blank
  | lineBreak
  | word (w : ω)
deriving Repr, DecidableEq, Inhabited

/-- A piece of a printed line. -/
abbrev Piece := PieceOf Word

variable {ω : Type} [Written ω]

namespace PieceOf

/-- The characters of a piece. -/
def chars : PieceOf ω → List Char
  | blank => [' ']
  | lineBreak => ['\n']
  | word w => (Written.word w).text.toList

/-- The word of a piece. -/
def word? : PieceOf ω → Option ω
  | blank | lineBreak => none
  | word w => some w

end PieceOf

/-- The characters of pieces. -/
def charsOf (ps : List (PieceOf ω)) : List Char := ps.flatMap PieceOf.chars

/-- The words of pieces. -/
def wordsOf (ps : List (PieceOf ω)) : List ω := ps.filterMap PieceOf.word?

section

variable (w : ω) (ps qs : List (PieceOf ω))

@[simp] lemma charsOf_nil : charsOf ([] : List (PieceOf ω)) = [] := rfl

@[simp] lemma charsOf_blank : charsOf (.blank :: ps) = ' ' :: charsOf ps := rfl

@[simp] lemma charsOf_lineBreak : charsOf (.lineBreak :: ps) = '\n' :: charsOf ps := rfl

@[simp] lemma charsOf_word : charsOf (.word w :: ps) = (word w).text.toList ++ charsOf ps := rfl

@[simp] lemma charsOf_append : charsOf (ps ++ qs) = charsOf ps ++ charsOf qs :=
  List.flatMap_append

omit [Written ω] in
@[simp] lemma wordsOf_nil : wordsOf ([] : List (PieceOf ω)) = [] := rfl

omit [Written ω] in
@[simp] lemma wordsOf_blank : wordsOf (.blank :: ps) = wordsOf ps := rfl

omit [Written ω] in
@[simp] lemma wordsOf_lineBreak : wordsOf (.lineBreak :: ps) = wordsOf ps := rfl

omit [Written ω] in
@[simp] lemma wordsOf_word : wordsOf (.word w :: ps) = w :: wordsOf ps := rfl

omit [Written ω] in
@[simp] lemma wordsOf_append : wordsOf (ps ++ qs) = wordsOf ps ++ wordsOf qs :=
  List.filterMap_append

end

/-- A word follows, and it may open a line. -/
def OpensLine : List (PieceOf ω) → Prop
  | [] => False
  | .blank :: ps | .lineBreak :: ps => OpensLine ps
  | .word w :: _ => mayOpenLine w = true

/-- Every word of a printed text stands before what follows it, and after a line break stands a word
that may open a line. -/
def Legible : List (PieceOf ω) → List Char → Prop
  | [], _ => True
  | .blank :: ps, tail => Legible ps tail
  | .lineBreak :: ps, tail => OpensLine ps ∧ Legible ps tail
  | .word w :: ps, tail => (word w).Stands (charsOf ps ++ tail) ∧ Legible ps tail

lemma OpensLine.append {ps : List (PieceOf ω)} (h : OpensLine ps) (qs : List (PieceOf ω)) :
    OpensLine (ps ++ qs) := by
  induction ps with
  | nil => exact h.elim
  | cons p ps ih =>
    cases p with
    | blank | lineBreak => exact ih h
    | word w => exact h

lemma legible_append {ps qs : List (PieceOf ω)} {tail : List Char}
    (h : Legible ps (charsOf qs ++ tail) ∧ Legible qs tail) : Legible (ps ++ qs) tail := by
  obtain ⟨hps, hqs⟩ := h
  induction ps with
  | nil => exact hqs
  | cons p ps ih =>
    cases p with
    | blank => exact ih hps
    | lineBreak => exact ⟨hps.1.append qs, ih hps.2⟩
    | word w =>
      have hchars : charsOf (ps ++ qs) ++ tail = charsOf ps ++ (charsOf qs ++ tail) := by simp
      exact ⟨hchars ▸ hps.1, ih hps.2⟩

/-- A legible text has at least as many characters as words. -/
lemma Legible.length_le {ps : List (PieceOf ω)} {tail : List Char} (h : Legible ps tail) :
    (wordsOf ps).length ≤ (charsOf ps).length := by
  induction ps with
  | nil => simp
  | cons p ps ih =>
    cases p with
    | blank =>
      have := ih h
      simp only [wordsOf_blank, charsOf_blank, List.length_cons]
      omega
    | lineBreak =>
      have := ih h.2
      simp only [wordsOf_lineBreak, charsOf_lineBreak, List.length_cons]
      omega
    | word w =>
      have hrest := ih h.2
      have hw := List.length_pos_iff.2 h.1.ne_nil
      simp only [wordsOf_word, charsOf_word, List.length_cons, List.length_append]
      omega

/-- A line break before a gap is one more reason to report a line break, and changes nothing
else. -/
lemma Gap.skip_or (mode : Mode) (offset : Nat) (before lineBreak : Bool) (text : List Char) :
    skip mode offset (before || lineBreak) text =
      { skip mode offset lineBreak text with
        lineBreak := before || (skip mode offset lineBreak text).lineBreak } := by
  fun_induction skip mode offset lineBreak text with
  | case5 _ _ _ _ _ _ _ hc ih =>
    rw [Bool.or_true] at ih
    simp [skip, hc, ← ih]
  | case9 _ _ _ _ hc ih =>
    rw [Bool.or_true] at ih
    simp [skip, hc, ← ih]
  | case12 _ _ _ _ _ ih =>
    -- The end of a block comment adds the line breaks inside it.
    rw [skip, Bool.or_assoc, ih]
  | _ => simp [skip, *]

namespace Cursor

/-- A cursor that has the given words before it, the first of them as its token.  Only before words
that may open a line there are line breaks. -/
def At : List ω → Cursor → Prop
  | [], c => c.token.kind = .endOfText
  | w :: ws, c =>
    (c.token.kind = (word w).kind ∧ c.token.text = (word w).text ∧ c.token.value = (word w).text ∧
      (mayOpenLine w = false → c.token.afterLineBreak = false)) ∧
    ws.length ≤ c.rest.length ∧ ∃ c', c.next? = some (c', none) ∧ At ws c'

/-- The next token of a text that begins at `offset`, after a line break or not. -/
def nextAfter (lineBreak : Bool) (offset : Nat) (text : List Char) :
    Option (Cursor × Option Flaw) :=
  let gap := Gap.skip .between offset lineBreak text
  (Lexeme.read gap.offset gap.rest).map fun l =>
    (ofLexeme gap.offset gap.lineBreak l, gap.flaw.or l.flaw)

lemma next?_eq (c : Cursor) : c.next? = nextAfter false c.offset c.rest := rfl

lemma next?_start (text : String) : (start text).next? = nextAfter false 0 text.toList := by
  have hoffset : (start text).offset = 0 := rfl
  rw [next?_eq, hoffset, start]

lemma nextAfter_blank (lineBreak : Bool) (offset : Nat) (text : List Char) :
    nextAfter lineBreak offset (' ' :: text) = nextAfter lineBreak (offset + 1) text := by
  have hgap : Gap.skip .between offset lineBreak (' ' :: text) =
      Gap.skip .between (offset + 1) lineBreak text :=
    Gap.skip.eq_5 _ _ _ _ (fun _ hc => by cases hc) (fun _ hc => by cases hc)
      (fun _ _ hc => by cases hc)
  rw [nextAfter, hgap, nextAfter]

lemma nextAfter_lineBreak (lineBreak : Bool) (offset : Nat) (text : List Char) :
    nextAfter lineBreak offset ('\n' :: text) = nextAfter true (offset + 1) text := by
  have hgap : Gap.skip .between offset lineBreak ('\n' :: text) =
      Gap.skip .between (offset + 1) true text :=
    Gap.skip.eq_5 _ _ _ _ (fun _ hc => by cases hc) (fun _ hc => by cases hc)
      (fun _ _ hc => by cases hc)
  rw [nextAfter, hgap, nextAfter]

lemma nextAfter_word {w : Word} {tail : List Char} (h : w.Stands tail) (lineBreak : Bool)
    (offset : Nat) :
    nextAfter lineBreak offset (w.text.toList ++ tail) =
      some (⟨⟨w.kind, offset, w.text, w.text, lineBreak⟩, tail⟩, none) := by
  have hgap : Gap.skip .between offset lineBreak (w.text.toList ++ tail) =
      ⟨offset, lineBreak, none, w.text.toList ++ tail⟩ := by
    have hread : Gap.skip .between offset false (w.text.toList ++ tail) = _ := h.gap offset
    rw [← Bool.or_false lineBreak, Gap.skip_or, hread]
  rw [nextAfter, hgap, h.lexeme]
  simp [ofLexeme, Lexeme.plain]

/-- The last line feed is followed by the end of the text. -/
lemma nextAfter_end (lineBreak : Bool) (offset : Nat) :
    ∃ c, nextAfter lineBreak offset ['\n'] = some (c, none) ∧ c.At ([] : List ω) := by
  rw [nextAfter_lineBreak]
  exact ⟨_, rfl, rfl⟩

/-- Moving through a legible text meets its words, if nothing is met after it. -/
lemma exists_nextAfter_of_end {tail : List Char}
    (hend : ∀ lineBreak offset, ∃ c, nextAfter lineBreak offset tail = some (c, none) ∧
      c.At ([] : List ω)) {ps : List (PieceOf ω)} (h : Legible ps tail) {lineBreak : Bool}
    (hopens : lineBreak = true → OpensLine ps) (offset : Nat) :
    ∃ c, nextAfter lineBreak offset (charsOf ps ++ tail) = some (c, none) ∧ c.At (wordsOf ps) := by
  induction ps generalizing lineBreak offset with
  | nil => exact hend lineBreak offset
  | cons p ps ih =>
    cases p with
    | blank =>
      obtain ⟨c, hnext, hat⟩ := ih h hopens (offset + 1)
      exact ⟨c, by rw [← hnext, ← nextAfter_blank]; rfl, hat⟩
    | lineBreak =>
      obtain ⟨c, hnext, hat⟩ := ih h.2 (fun _ => h.1) (offset + 1)
      exact ⟨c, by rw [← hnext, ← nextAfter_lineBreak lineBreak]; rfl, hat⟩
    | word w =>
      obtain ⟨hstands, hrest⟩ := h
      have hlength := hrest.length_le
      refine ⟨_, by rw [charsOf_word, List.append_assoc, nextAfter_word hstands], ?_⟩
      rw [wordsOf_word]
      refine ⟨⟨rfl, rfl, rfl, fun hw => ?_⟩, ?_, ih hrest Bool.false_ne_true.elim _⟩
      · cases lineBreak with
        | false => rfl
        | true => cases hw.symm.trans (hopens rfl)
      · simp only [List.length_append]
        omega

/-- Moving through a legible line meets its words. -/
lemma exists_nextAfter {ps : List (PieceOf ω)} (h : Legible ps ['\n']) {lineBreak : Bool}
    (hopens : lineBreak = true → OpensLine ps) (offset : Nat) :
    ∃ c, nextAfter lineBreak offset (charsOf ps ++ ['\n']) = some (c, none) ∧
      c.At (wordsOf ps) :=
  exists_nextAfter_of_end nextAfter_end h hopens offset

end Cursor

end BindingProxy
