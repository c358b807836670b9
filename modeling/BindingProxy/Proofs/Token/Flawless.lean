import BindingProxy.Proofs.Token.Moves
import BindingProxy.Tree.Node

/-!
# Tokens without a flaw

The grammar stops at the first flaw, so every token that it uses was read without one.  `Flawless`
holds of the cursors at such tokens.  What a tree takes over from its text are the values of names and
the texts of literals; `IsName` and `IsSpelling` say of a string that it comes from a token of the
kind.

A name whose last escape is cut short by the end of the text has no end of its own: printed in
another place, it takes in what follows it.  All other names are `Whole`.
-/

namespace BindingProxy

open Relation (ReflTransGen)

namespace Cursor

/-- A cursor whose token was read without a flaw. -/
inductive Flawless : Cursor → Prop where
  | next {c c' : Cursor} (h : c.next? = some (c', none)) : Flawless c'
  /-- A slash that was read again. -/
  | slash {c c' : Cursor} (hc : Flawless c) (h : c.rereadSlash = (c', none))
    (hkind : c.token.kind = .punctuator .slash ∨ c.token.kind = .punctuator .slashAssign) :
    Flawless c'
  /-- A closing brace that was read again. -/
  | brace {c c' : Cursor} (hc : Flawless c) (h : c.rereadBrace = (c', none))
    (hkind : c.token.kind = .punctuator .closeBrace) : Flawless c'

variable {c c' : Cursor}

lemma rereadSlash_of_not (h : ¬ (c.token.kind = .punctuator .slash ∨
    c.token.kind = .punctuator .slashAssign)) : c.rereadSlash = (c, none) := by
  unfold rereadSlash
  split
  · next hkind => exact absurd (.inl hkind) h
  · next hkind => exact absurd (.inr hkind) h
  · rfl

lemma rereadBrace_of_not (h : c.token.kind ≠ .punctuator .closeBrace) :
    c.rereadBrace = (c, none) := by
  unfold rereadBrace
  split
  · next hkind => exact absurd hkind h
  · rfl

/-- A move leads from a token without a flaw to another one. -/
lemma Flawless.move (hc : c.Flawless) (h : c.Moves c') : c'.Flawless := by
  cases h with
  | next h => exact .next h
  | slash h =>
    by_cases hkind : c.token.kind = .punctuator .slash ∨ c.token.kind = .punctuator .slashAssign
    · exact .slash hc h hkind
    · rw [rereadSlash_of_not hkind] at h
      cases h
      exact hc
  | brace h =>
    by_cases hkind : c.token.kind = .punctuator .closeBrace
    · exact .brace hc h hkind
    · rw [rereadBrace_of_not hkind] at h
      cases h
      exact hc

lemma Flawless.moves (hc : c.Flawless) (h : ReflTransGen Moves c c') : c'.Flawless := by
  induction h with
  | refl => exact hc
  | tail _ hmove ih => exact ih.move hmove

lemma Flawless.atToken (hc : c.Flawless) : c.AtToken := by
  induction hc with
  | next h => exact atToken_of_next? h
  | slash _ h _ ih => exact (rereads_of_rereadSlash ih h).atToken
  | brace _ h _ ih => exact (rereads_of_rereadBrace ih h).atToken

/-! ### Which move has led to a token -/

lemma kind_of_rereadSlash (h : c.rereadSlash = (c', none))
    (hkind : c.token.kind = .punctuator .slash ∨ c.token.kind = .punctuator .slashAssign) :
    c' = ofLexeme c.token.start c.token.afterLineBreak (Lexeme.regExp c.token.start c.tail) ∧
      (Lexeme.regExp c.token.start c.tail).flaw = none ∧ c'.token.kind = .regExp := by
  have hread : (ofLexeme c.token.start c.token.afterLineBreak
      (Lexeme.regExp c.token.start c.tail), (Lexeme.regExp c.token.start c.tail).flaw) =
        (c', none) := by
    rw [← h, rereadSlash]
    rcases hkind with hkind | hkind <;> rw [hkind]
  obtain ⟨rfl, hflaw⟩ := Prod.mk.inj hread
  refine ⟨rfl, hflaw, ?_⟩
  simp only [ofLexeme, Lexeme.regExp]
  split <;> rfl

lemma isTemplate_of_rereadBrace (h : c.rereadBrace = (c', none))
    (hkind : c.token.kind = .punctuator .closeBrace) :
    c'.token.kind = .templateMiddle ∨ c'.token.kind = .templateTail := by
  rw [rereadBrace, hkind] at h
  obtain ⟨rfl, _⟩ := Prod.mk.inj h
  simp only [ofLexeme, Lexeme.chunk, Lexeme.chunkKind]
  split <;> simp

/-- What was not read again comes from a lexeme that was read after a gap. -/
lemma Flawless.exists_read (hc : c.Flawless) (hkind : c.token.kind ≠ .regExp ∧
    c.token.kind ≠ .templateMiddle ∧ c.token.kind ≠ .templateTail) :
    ∃ (d : Cursor) (l : Lexeme), Lexeme.read (Gap.read d.offset d.rest).offset
        (Gap.read d.offset d.rest).rest = some l ∧ l.flaw = none ∧
      c = ofLexeme (Gap.read d.offset d.rest).offset (Gap.read d.offset d.rest).lineBreak l := by
  cases hc with
  | @next d _ h =>
    obtain ⟨l, hread, heq⟩ := Option.map_eq_some_iff.1 h
    obtain ⟨rfl, hflaw⟩ := Prod.mk.inj heq
    exact ⟨d, l, hread, (Option.or_eq_none_iff.1 hflaw).2, rfl⟩
  | slash _ h hslash => exact absurd (kind_of_rereadSlash h hslash).2.2 hkind.1
  | brace _ h hbrace =>
    rcases isTemplate_of_rereadBrace h hbrace with hmiddle | htail
    · exact absurd hmiddle hkind.2.1
    · exact absurd htail hkind.2.2

/-- After all that is left there is the end of the text. -/
lemma kind_of_rest_eq_nil {flaw : Option Flaw} (h : c.rest = [])
    (hnext : c.next? = some (c', flaw)) : c'.token.kind = .endOfText := by
  have hgap : Gap.read c.offset c.rest = ⟨c.offset, false, none, []⟩ := by
    rw [h]
    rfl
  rw [next?, hgap] at hnext
  cases hnext
  rfl

end Cursor

/-! ### Names -/

/-- A string that begins as names do. -/
def BeginsName (w : String) : Prop :=
  ∃ x xs, w.toList = x :: xs ∧ (isNameStart x = true ∨ x = '\\')

/-- A string that a name token stands for. -/
def IsName (w : String) : Prop :=
  ∃ c : Cursor, c.Flawless ∧ c.token.kind.isName = true ∧ c.token.value = w

/-- A name that has an end of its own: it does not take in a semicolon after it. -/
def Whole (w : String) : Prop :=
  Lexeme.nameRun .parts 0 (w.toList ++ [';']) = some (w.toList, none, [';'])

instance (w : String) : Decidable (Whole w) := inferInstanceAs (Decidable (_ = _))

namespace Cursor

variable {c : Cursor}

/-- How a name or a word of the language was read. -/
structure ReadsWord (c : Cursor) : Prop where
  value : c.token.value = c.token.text
  kind : c.token.kind = (TokenKind.ofWord? c.token.text).getD .identifier
  head : BeginsName c.token.text
  run : ∃ start, Lexeme.nameRun .parts start (c.token.text.toList ++ c.rest) =
    some (c.token.text.toList, none, c.rest)

lemma Flawless.readsWord (hc : c.Flawless) (hkind : c.token.kind.isWord = true) :
    c.ReadsWord := by
  have hother : c.token.kind ≠ .regExp ∧ c.token.kind ≠ .templateMiddle ∧
      c.token.kind ≠ .templateTail := by
    refine ⟨?_, ?_, ?_⟩ <;> intro h <;> rw [h] at hkind <;> cases hkind
  obtain ⟨d, l, hread, hflaw, rfl⟩ := hc.exists_read hother
  obtain ⟨x, rest, htext, hx, hname⟩ := Lexeme.word_of_read hread hkind
  obtain ⟨⟨taken, flaw, after⟩, hrun, rfl⟩ := Option.map_eq_some_iff.1 hname
  obtain rfl : flaw = none := hflaw
  have hsplit := Lexeme.nameRun_split hrun
  have hne := Lexeme.nameRun_ne_nil hx hrun
  have htaken : (String.ofList taken).toList = taken := String.toList_ofList
  refine ⟨rfl, rfl, ?_, ?_⟩
  · obtain ⟨y, ys, rfl⟩ := List.exists_cons_of_ne_nil hne
    obtain rfl : y = x := (List.cons.inj hsplit).1
    exact ⟨y, ys, htaken, hx⟩
  · refine ⟨(Gap.read d.offset d.rest).offset, ?_⟩
    simp only [ofLexeme, Lexeme.plain, htaken, hsplit]
    exact hrun

/-- Only at the end of the text a name may be cut short. -/
lemma ReadsWord.whole (h : c.ReadsWord) (hrest : c.rest ≠ []) : Whole c.token.value := by
  obtain ⟨start, hrun⟩ := h.run
  obtain ⟨stop, after, hafter⟩ := List.exists_cons_of_ne_nil hrest
  rw [hafter] at hrun
  rw [Whole, h.value]
  exact Lexeme.nameRun_append rfl hrun 0 ⟨by decide, by decide⟩

end Cursor

lemma TokenKind.isWord_of_isName {k : TokenKind} (h : k.isName = true) : k.isWord = true := by
  cases k <;> first | rfl | cases h

namespace IsName

variable {w : String}

lemma head (h : IsName w) : BeginsName w := by
  obtain ⟨c, hc, hkind, rfl⟩ := h
  have hword := hc.readsWord (TokenKind.isWord_of_isName hkind)
  rw [hword.value]
  exact hword.head

lemma isName_kind (h : IsName w) : ((TokenKind.ofWord? w).getD .identifier).isName = true := by
  obtain ⟨c, hc, hkind, rfl⟩ := h
  have hword := hc.readsWord (TokenKind.isWord_of_isName hkind)
  rw [hword.value, ← hword.kind]
  exact hkind

end IsName

/-! ### Literals -/

/-- The value of a number token is its text. -/
lemma Cursor.Flawless.value_number {c : Cursor} (hc : c.Flawless) (hkind : c.token.kind = .number) :
    c.token.value = c.token.text := by
  obtain ⟨d, l, hread, _, rfl⟩ := hc.exists_read (by simp [hkind])
  obtain ⟨x, rest, _, _, rfl⟩ := Lexeme.number_of_read hread hkind
  rfl

/-- The kinds of tokens that a literal can be. -/
def LiteralKind.tokenKinds : LiteralKind → List TokenKind
  | null => [.reserved .kwNull]
  | boolean => [.reserved .kwTrue, .reserved .kwFalse]
  | number | bigInt => [.number]
  | string => [.string]
  | regExp => [.regExp]

/-- A text that is a token for a kind of literals. -/
def IsSpelling (kind : LiteralKind) (raw : String) : Prop :=
  ∃ c : Cursor, c.Flawless ∧ c.token.kind ∈ kind.tokenKinds ∧ c.token.text = raw

/-- A text that stands in a template between two of its delimiters. -/
def IsChunk (value : String) : Prop :=
  ∃ text stop rest, Lexeme.chunkRun text = (value.toList, stop, rest) ∧ stop ≠ .unclosed

lemma isChunk_ofLexeme {start offset : Nat} {first afterLineBreak : Bool} {opening : Char}
    {text : List Char} (h : (Lexeme.chunk start first opening text).flaw = none) :
    IsChunk (Cursor.ofLexeme offset afterLineBreak
      (Lexeme.chunk start first opening text)).token.value := by
  refine ⟨text, (Lexeme.chunkRun text).2.1, (Lexeme.chunkRun text).2.2, ?_, ?_⟩
  · rw [Cursor.ofLexeme, String.toList_ofList]
    rfl
  · intro hopen
    simp [Lexeme.chunk, hopen] at h

/-- The value of a part of a template. -/
lemma Cursor.Flawless.isChunk {c : Cursor} (hc : c.Flawless) (hkind : c.token.kind.openingWidth = 1) :
    IsChunk c.token.value := by
  cases hc with
  | next h =>
    obtain ⟨l, hread, heq⟩ := Option.map_eq_some_iff.1 h
    obtain ⟨rfl, hflaw⟩ := Prod.mk.inj heq
    obtain ⟨rest, _, rfl⟩ := Lexeme.chunk_of_read hread hkind
    exact isChunk_ofLexeme (Option.or_eq_none_iff.1 hflaw).2
  | slash _ h hslash =>
    rw [(kind_of_rereadSlash h hslash).2.2] at hkind
    cases hkind
  | brace _ h hbrace =>
    rw [rereadBrace, hbrace] at h
    obtain ⟨rfl, hflaw⟩ := Prod.mk.inj h
    exact isChunk_ofLexeme hflaw

end BindingProxy
