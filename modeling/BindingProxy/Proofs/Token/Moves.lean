import BindingProxy.Proofs.Token.Bounds
import Mathlib.Logic.Relation

/-!
# Moving through a script

The grammar moves a cursor in three ways: to the next token, and to another reading of a slash or of
a closing brace.  A move that meets a flaw is an error, so only moves without one count here.
`Reached` holds of the cursors that such moves lead to from the beginning of a text.

Not every move goes forwards: reading a token again stays where the token starts.  `Passes` says that
a cursor is past the token of another one; then it starts at a greater offset.
-/

namespace BindingProxy

namespace Cursor

/-- The text from the current token on. -/
def ahead (c : Cursor) : List Char := c.token.text.toList ++ c.rest

/-- A move that meets no flaw. -/
inductive Moves (c c' : Cursor) : Prop where
  | next (h : c.next? = some (c', none))
  | slash (h : c.rereadSlash = (c', none))
  | brace (h : c.rereadBrace = (c', none))

/-- A cursor that stands at a token: only the end of the text is empty, and a punctuator is spelled as
it should be. -/
structure AtToken (c : Cursor) : Prop where
  at_end : c.token.kind = .endOfText → c.ahead = []
  text_ne : c.token.kind ≠ .endOfText → c.token.text ≠ ""
  punctuator : ∀ p, c.token.kind = .punctuator p → c.token.text = p.text

/-- The cursors that are reached from the first token of a text without meeting a flaw. -/
def Reached (text : String) (c : Cursor) : Prop :=
  ∃ first, (start text).next? = some (first, none) ∧ Relation.ReflTransGen Moves first c

variable {c c' : Cursor}

/-! ### Single moves -/

lemma ahead_ofLexeme {l : Lexeme} {full : List Char} (hl : l.Takes full) (offset : Nat)
    (lineBreak : Bool) : (ofLexeme offset lineBreak l).ahead = full := by
  rw [ahead, ofLexeme, String.toList_ofList, hl.split]

lemma atToken_of_next? {flaw : Option Flaw} (h : c.next? = some (c', flaw)) : c'.AtToken where
  at_end hkind := by
    obtain ⟨_, _, _, ⟨_, htext, hrest, _⟩ | ⟨hend, _⟩⟩ := exists_gap_of_next? h
    · rw [ahead, htext, hrest]
      rfl
    · exact absurd hkind hend
  text_ne hkind := by
    obtain ⟨_, _, _, ⟨hend, _⟩ | ⟨_, htext, _⟩⟩ := exists_gap_of_next? h
    · exact absurd hend hkind
    · exact htext
  punctuator p hp := by
    obtain ⟨l, hread, heq⟩ := Option.map_eq_some_iff.1 h
    obtain ⟨rfl, rfl⟩ := Prod.mk.inj heq
    rw [ofLexeme, (Lexeme.takes_read hread).punctuator p hp, String.ofList_toList]

/-- The next token stands in the rest. -/
lemma ahead_suffix_of_next? {flaw : Option Flaw} (h : c.next? = some (c', flaw)) :
    c'.ahead <:+ c.rest ∧ c'.token.start + byteWidth c'.ahead = c.offset + byteWidth c.rest := by
  obtain ⟨gap, hsplit, hstart, _⟩ := exists_gap_of_next? h
  refine ⟨⟨gap, hsplit.symm⟩, ?_⟩
  rw [hsplit, hstart, byteWidth_append, ahead, Nat.add_assoc]

/-- A punctuator has no flaw. -/
lemma flaw_of_read_punctuator {start : Nat} {text : List Char} {l : Lexeme} {p : Punctuator}
    (h : Lexeme.read start text = some l) (hkind : l.kind = .punctuator p) : l.flaw = none := by
  cases Lexeme.reading_of_read h with
  | endOfText | punctuator => rfl
  | chunk => exact absurd hkind (Lexeme.chunkKind_ne rfl _ _)
  | name _ hname => exact absurd hkind (Lexeme.kind_ne_of_name hname rfl)
  | string | number | unknown => cases hkind

/-- No flaw is met on the way to a punctuator: a gap with a flaw goes to the end of the text. -/
lemma flaw_of_next?_punctuator {flaw : Option Flaw} {p : Punctuator}
    (h : c.next? = some (c', flaw)) (hkind : c'.token.kind = .punctuator p) : flaw = none := by
  obtain ⟨l, hread, heq⟩ := Option.map_eq_some_iff.1 h
  obtain ⟨gap, _, hcovers⟩ := Gap.skips_read c.offset c.rest
  obtain ⟨rfl, rfl⟩ := Prod.mk.inj heq
  rw [flaw_of_read_punctuator hread hkind]
  cases hflaw : (Gap.read c.offset c.rest).flaw with
  | none => rfl
  | some flaw =>
    have hitems := hcovers.items
    rw [hflaw] at hitems
    rw [hitems.eq_nil_of_flaw] at hread
    cases hread
    cases hkind

/-- A token that is read again from its second character on. -/
lemma ahead_reread {l : Lexeme} {first : Char} (hfirst : c.token.text.toList.head? = some first)
    (hl : l.Takes (first :: c.tail)) :
    (ofLexeme c.token.start c.token.afterLineBreak l).ahead = c.ahead := by
  obtain ⟨tail, htail⟩ := List.head?_eq_some_iff.1 hfirst
  rw [ahead_ofLexeme hl, ahead, Cursor.tail, htail]
  rfl

/-- What another reading of the current token keeps. -/
structure Rereads (c c' : Cursor) : Prop where
  start_eq : c'.token.start = c.token.start
  ahead_eq : c'.ahead = c.ahead
  rest_suffix : c'.rest <:+ c.rest
  atToken : c'.AtToken

lemma Rereads.refl (hc : c.AtToken) : c.Rereads c := ⟨rfl, rfl, List.suffix_refl _, hc⟩

/-- The flags of a regular expression are taken from what its body leaves. -/
lemma regExp_rest_suffix (offset : Nat) (text : List Char) :
    (Lexeme.regExp offset text).rest <:+ (Lexeme.regExpRun false text).2.2 := by
  unfold Lexeme.regExp
  simp only
  split
  · simp only [Lexeme.plain, List.span_eq_takeWhile_dropWhile]
    exact List.dropWhile_suffix _
  · exact List.suffix_refl _

lemma regExpRun_suffix (text : List Char) : (Lexeme.regExpRun false text).2.2 <:+ text :=
  ⟨_, Lexeme.regExpRun_split false text⟩

/-- A regular expression that begins with `/=` takes at least these two characters. -/
lemma regExpRun_assign (text : List Char) :
    (Lexeme.regExpRun false ('=' :: text)).2.2 = (Lexeme.regExpRun false text).2.2 := by
  rw [Lexeme.regExpRun]
  · simp [isLineTerminator]
  · simp

/-- A lexeme that takes something is a token. -/
lemma atToken_ofLexeme {l : Lexeme} {full : List Char} (hl : l.Takes full) (hne : l.text ≠ [])
    (hkind : l.kind ≠ .endOfText) (offset : Nat) (lineBreak : Bool) :
    (ofLexeme offset lineBreak l).AtToken where
  at_end hend := absurd hend hkind
  text_ne _ hempty := hne <| by
    rw [← String.toList_ofList (l := l.text)]
    exact congrArg String.toList hempty
  punctuator p hp := by rw [ofLexeme, hl.punctuator p hp, String.ofList_toList]

lemma regExp_ne_end (offset : Nat) (text : List Char) :
    (Lexeme.regExp offset text).text ≠ [] ∧ (Lexeme.regExp offset text).kind ≠ .endOfText := by
  unfold Lexeme.regExp
  simp only
  split <;> simp [Lexeme.plain]

lemma chunk_ne_end (offset : Nat) (first : Bool) (opening : Char) (text : List Char) :
    (Lexeme.chunk offset first opening text).text ≠ [] ∧
      (Lexeme.chunk offset first opening text).kind ≠ .endOfText := by
  exact ⟨by simp [Lexeme.chunk], Lexeme.chunkKind_ne rfl _ _⟩

lemma rereads_of_rereadSlash (hc : c.AtToken) {flaw : Option Flaw}
    (h : c.rereadSlash = (c', flaw)) : c.Rereads c' := by
  obtain rfl : c.rereadSlash.1 = c' := congrArg Prod.fst h
  unfold Cursor.rereadSlash
  have htoken := atToken_ofLexeme (Lexeme.takes_regExp c.token.start c.tail)
    (regExp_ne_end _ _).1 (regExp_ne_end _ _).2 c.token.start c.token.afterLineBreak
  split
  · next hkind =>
    have htext := hc.punctuator _ hkind
    refine ⟨rfl, ahead_reread (by rw [htext]; rfl) (Lexeme.takes_regExp _ _), ?_, htoken⟩
    have htail : c.tail = c.rest := by rw [tail, htext]; rfl
    exact (regExp_rest_suffix _ _).trans (htail ▸ regExpRun_suffix _)
  · next hkind =>
    have htext := hc.punctuator _ hkind
    refine ⟨rfl, ahead_reread (by rw [htext]; rfl) (Lexeme.takes_regExp _ _), ?_, htoken⟩
    have htail : c.tail = '=' :: c.rest := by rw [tail, htext]; rfl
    refine (regExp_rest_suffix _ _).trans ?_
    rw [htail, regExpRun_assign]
    exact regExpRun_suffix _
  · exact .refl hc

lemma rereads_of_rereadBrace (hc : c.AtToken) {flaw : Option Flaw}
    (h : c.rereadBrace = (c', flaw)) : c.Rereads c' := by
  obtain rfl : c.rereadBrace.1 = c' := congrArg Prod.fst h
  unfold Cursor.rereadBrace
  split
  · next hkind =>
    have htext := hc.punctuator _ hkind
    have htakes := Lexeme.takes_chunk c.token.start false (show '\x7d'.utf8Size = 1 from rfl) c.tail
    have htail : c.tail = c.rest := by rw [tail, htext]; rfl
    refine ⟨rfl, ahead_reread (by rw [htext]; rfl) htakes, ?_,
      atToken_ofLexeme htakes (chunk_ne_end _ _ _ _).1 (chunk_ne_end _ _ _ _).2 _ _⟩
    rw [← htail]
    exact ⟨_, Lexeme.chunkRun_split c.tail⟩
  · exact .refl hc

/-! ### Sequences of moves -/

/-- What a move keeps: it goes back behind neither the token nor the rest. -/
structure Follows (c c' : Cursor) : Prop where
  atToken : c'.AtToken
  ahead_suffix : c'.ahead <:+ c.ahead
  rest_suffix : c'.rest <:+ c.rest
  stop_eq : c'.token.start + byteWidth c'.ahead = c.token.start + byteWidth c.ahead

lemma Rereads.follows (h : c.Rereads c') : c.Follows c' where
  atToken := h.atToken
  ahead_suffix := h.ahead_eq ▸ List.suffix_refl _
  rest_suffix := h.rest_suffix
  stop_eq := by rw [h.start_eq, h.ahead_eq]

lemma follows_of_next? {flaw : Option Flaw} (h : c.next? = some (c', flaw)) : c.Follows c' := by
  obtain ⟨hsuffix, hstop⟩ := ahead_suffix_of_next? h
  refine ⟨atToken_of_next? h, hsuffix.trans (List.suffix_append _ _),
    (List.suffix_append _ _).trans hsuffix, ?_⟩
  rw [hstop, ahead, byteWidth_append, ← Nat.add_assoc]
  rfl

lemma AtToken.follows (hc : c.AtToken) (h : Relation.ReflTransGen Moves c c') : c.Follows c' := by
  induction h with
  | refl => exact (Rereads.refl hc).follows
  | @tail d d' _ hmove ih =>
    have hlast : d.Follows d' := by
      cases hmove with
      | next h => exact follows_of_next? h
      | slash h => exact (rereads_of_rereadSlash ih.atToken h).follows
      | brace h => exact (rereads_of_rereadBrace ih.atToken h).follows
    exact ⟨hlast.atToken, hlast.ahead_suffix.trans ih.ahead_suffix,
      hlast.rest_suffix.trans ih.rest_suffix, hlast.stop_eq.trans ih.stop_eq⟩

lemma Reached.atToken {text : String} (h : Reached text c) : c.AtToken := by
  obtain ⟨first, hfirst, hmoves⟩ := h
  exact ((atToken_of_next? hfirst).follows hmoves).atToken

lemma Reached.moves {text : String} (h : Reached text c)
    (hmoves : Relation.ReflTransGen Moves c c') : Reached text c' := by
  obtain ⟨first, hfirst, hc⟩ := h
  exact ⟨first, hfirst, hc.trans hmoves⟩

/-- The moves from the beginning of a text lead to its first token first. -/
lemma reached_of_moves_start {text : String} (h : Relation.ReflTransGen Moves (start text) c) :
    c = start text ∨ Reached text c := by
  induction h with
  | refl => exact .inl rfl
  | tail _ hmove ih =>
    rcases ih with rfl | hreached
    · cases hmove with
      | next h => exact .inr ⟨_, h, .refl⟩
      | slash h => exact .inl (congrArg Prod.fst h).symm
      | brace h => exact .inl (congrArg Prod.fst h).symm
    · exact .inr (hreached.moves (.single hmove))

/-- The cursor `c'` is past the token of `c`. -/
structure Passes (c c' : Cursor) : Prop where
  not_end : c.token.kind ≠ .endOfText
  moves : Relation.ReflTransGen Moves c c'
  beyond : c'.ahead <:+ c.rest

namespace Passes

variable {c'' : Cursor}

lemma atToken (h : c.Passes c') (hc : c.AtToken) : c'.AtToken := (hc.follows h.moves).atToken

lemma next? (hc : c.token.kind ≠ .endOfText) (h : c.next? = some (c', none)) : c.Passes c' :=
  ⟨hc, .single (.next h), (ahead_suffix_of_next? h).1⟩

/-- Going on after a token has been passed. -/
lemma then_moves (h : c.Passes c') (hc : c.AtToken) (hmoves : Relation.ReflTransGen Moves c' c'') :
    c.Passes c'' where
  not_end := h.not_end
  moves := h.moves.trans hmoves
  beyond := ((h.atToken hc).follows hmoves).ahead_suffix.trans h.beyond

/-- Passing a token after some moves.  From the end of the text there is nothing to pass. -/
lemma of_moves (hc : c.AtToken) (hmoves : Relation.ReflTransGen Moves c c') (h : c'.Passes c'') :
    c.Passes c'' := by
  have hfollows := hc.follows hmoves
  refine ⟨fun hend => ?_, hmoves.trans h.moves, h.beyond.trans hfollows.rest_suffix⟩
  have hnil : c'.ahead = [] := List.suffix_nil.1 (hc.at_end hend ▸ hfollows.ahead_suffix)
  exact hfollows.atToken.text_ne h.not_end
    (String.toList_eq_nil_iff.1 (List.append_eq_nil_iff.1 hnil).1)

lemma start_lt (h : c.Passes c') (hc : c.AtToken) : c.token.start < c'.token.start := by
  obtain ⟨gap, hgap⟩ := h.beyond
  have hstop := (hc.follows h.moves).stop_eq
  have hlt := Tiles.start_lt_stop (hc.text_ne h.not_end)
  rw [ahead.eq_def c, byteWidth_append, ← hgap, byteWidth_append] at hstop
  rw [Token.stop] at hlt
  omega

end Passes

end Cursor

end BindingProxy
