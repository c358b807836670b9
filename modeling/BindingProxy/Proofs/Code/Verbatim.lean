import BindingProxy.Proofs.Grammar.Genuine
import BindingProxy.Proofs.Grammar.WellFormed
import BindingProxy.Proofs.Token.Openings

/-!
# Literals in other places

The printer writes literals and the parts of templates as they stand in the script, but not always
before the same text.  Where a literal ends does not depend on this: what was read as one token is
read as the same token before every delimiter, and a part of a template between any two of them.
-/

namespace BindingProxy

/-- The characters before which literals are read again. -/
def literalDelimiters : List Char := [' ', '\n', ')', ']', '\x7d', ',', ';', ':']

lemma endsNumber_of_delimiter {d : Char} (h : d ∈ literalDelimiters) (tail : List Char) :
    Lexeme.EndsNumber (d :: tail) := by
  simp only [literalDelimiters, List.mem_cons, List.not_mem_nil, or_false] at h
  rcases h with rfl | rfl | rfl | rfl | rfl | rfl | rfl | rfl <;> constructor

lemma endsName_of_delimiter {d : Char} (h : d ∈ literalDelimiters) :
    isNamePart d = false ∧ d ≠ '\\' := by
  have hall : literalDelimiters.all (fun d => decide (isNamePart d = false ∧ d ≠ '\\')) = true := by
    decide
  exact of_decide_eq_true (List.all_eq_true.1 hall d h)

namespace Cursor

/-- The next token, read a second time by `again`, is that of the cursor `c'`, and there is no flaw
in it. -/
def ReadsBy (again : Cursor → Cursor × Option Flaw) (c c' : Cursor) : Prop :=
  ∃ between, c.next? = some (between, none) ∧ again between = (c', none)

variable {c : Cursor}

lemma readsBy_word {again : Cursor → Cursor × Option Flaw} {c' : Cursor} {w : Word}
    {tail : List Char} (hw : w.Stands tail) (hrest : c.rest = w.text.toList ++ tail)
    (hagain : again ⟨⟨w.kind, c.offset, w.text, w.text, false⟩, tail⟩ = (c', none)) :
    c.ReadsBy again c' := by
  refine ⟨_, ?_, hagain⟩
  rw [next?_eq, hrest, nextAfter_word hw]

/-! ### Regular expressions -/

/-- A slash stands before what makes no comment of it, and as one mark with an equals sign. -/
lemma stands_slash {x : Char} (hx : x ≠ '/' ∧ x ≠ '*') (tail : List Char) :
    ∃ p tail', (p = .slash ∨ p = .slashAssign) ∧ (Word.punctuator p).Stands tail' ∧
      (Word.punctuator p).text.toList ++ tail' = '/' :: x :: tail := by
  have hcomment : ∀ rest, x :: tail ≠ '/' :: rest ∧ x :: tail ≠ '*' :: rest := by
    intro rest
    simp [hx.1, hx.2]
  by_cases hassign : x = '='
  · subst hassign
    refine ⟨.slashAssign, tail, .inr rfl, ⟨?_, ?_, fun start => rfl⟩, rfl⟩
    · exact Word.text_punctuator_ne_nil _
    · exact Word.gap_punctuator (by rintro ⟨⟩)
  · refine ⟨.slash, x :: tail, .inl rfl, ⟨?_, ?_, fun start => ?_⟩, rfl⟩
    · exact Word.text_punctuator_ne_nil _
    · exact Word.gap_punctuator fun _ => hcomment
    · have hassign' : '=' ≠ x := fun h => hassign h.symm
      exact Lexeme.read_eq_punctuator '/' [.slashAssign, .slash] rfl
        (by simp [Lexeme.punctuatorFits, Punctuator.text, hassign']) (by simp) start

/-- Flags end where no character of names follows. -/
lemma span_flags (after : List Char) {d : Char} (hd : isNamePart d = false) (tail : List Char) :
    ((after.span isNamePart).1 ++ d :: tail).span isNamePart =
      ((after.span isNamePart).1, d :: tail) := by
  simp only [List.span_eq_takeWhile_dropWhile]
  have hall : ∀ c ∈ after.takeWhile isNamePart, isNamePart c = true := fun c =>
    List.mem_takeWhile_imp (p := isNamePart)
  rw [List.takeWhile_append_of_pos hall, List.dropWhile_append_of_pos hall]
  simp [hd]

/-- A regular expression is read again from its slash. -/
lemma readsBy_regExp {d : Cursor} (hd : d.Flawless) (hkind : d.token.kind = .regExp) {x : Char}
    (hx : isNamePart x = false) {tail : List Char}
    (hrest : c.rest = d.token.text.toList ++ x :: tail) :
    c.ReadsBy rereadSlash
      ⟨⟨.regExp, c.offset, d.token.text, d.token.text, false⟩, x :: tail⟩ := by
  obtain ⟨text, y, ys, after, hrun, hy, htext⟩ := hd.exists_regExp hkind
  obtain ⟨-, hclosed⟩ := Lexeme.regExpRun_taken hrun
  have hread : ∀ start, Lexeme.regExp start (y :: ys ++ ((after.span isNamePart).1 ++ x :: tail)) =
      .plain .regExp d.token.text.toList (x :: tail) none := by
    intro start
    rw [Lexeme.regExp_of_run (hclosed _), if_pos rfl, span_flags after hx, htext]
  obtain ⟨p, tail', hp, hstands, hsplit⟩ :=
    stands_slash hy (ys ++ ((after.span isNamePart).1 ++ x :: tail))
  refine readsBy_word hstands (by rw [hrest, htext, hsplit]; simp) ?_
  have htail : (Word.punctuator p).text.toList.drop 1 ++ tail' =
      y :: ys ++ ((after.span isNamePart).1 ++ x :: tail) := by
    rw [← List.drop_append_of_le_length
      (List.length_pos_iff.2 (Word.text_punctuator_ne_nil p)), hsplit]
    rfl
  have hreread : ∀ text, rereadSlash ⟨⟨.punctuator p, c.offset, text, text, false⟩, tail'⟩ =
      (ofLexeme c.offset false (Lexeme.regExp c.offset (text.toList.drop 1 ++ tail')),
        (Lexeme.regExp c.offset (text.toList.drop 1 ++ tail')).flaw) := by
    intro text
    rcases hp with rfl | rfl <;> rfl
  refine (hreread _).trans ?_
  rw [htail, hread, ofLexeme, Lexeme.plain, String.ofList_toList]

/-! ### Other literals -/

lemma stands_of_flawless {d : Cursor} (hd : d.Flawless) {kind : LiteralKind}
    (hkind : d.token.kind ∈ kind.tokenKinds) (hregExp : kind ≠ .regExp) {x : Char}
    (hx : x ∈ literalDelimiters) (tail : List Char) :
    Word.Stands ⟨d.token.kind, d.token.text⟩ (x :: tail) := by
  have hword : ∀ r, d.token.kind = .reserved r →
      Word.Stands ⟨d.token.kind, d.token.text⟩ (x :: tail) := by
    intro r hr
    rw [hd.text_reserved hr, hr]
    exact (Word.isToken_reserved r).stands_of_isWord rfl (endsName_of_delimiter hx)
  have hnumber : d.token.kind = .number → Word.Stands ⟨d.token.kind, d.token.text⟩ (x :: tail) := by
    intro hnumber
    obtain ⟨start, hread⟩ := hd.read_scalar (.inl hnumber)
    exact Word.stands_of_number (w := ⟨d.token.kind, d.token.text⟩) hread hnumber
      (endsNumber_of_delimiter hx tail)
  cases kind with
  | null => exact hword .kwNull (List.mem_singleton.1 hkind)
  | boolean =>
    rcases List.mem_pair.1 hkind with hkind | hkind
    · exact hword _ hkind
    · exact hword _ hkind
  | number => exact hnumber (List.mem_singleton.1 hkind)
  | bigInt => exact hnumber (List.mem_singleton.1 hkind)
  | string =>
    obtain ⟨start, hread⟩ := hd.read_scalar (.inr (List.mem_singleton.1 hkind))
    exact Word.stands_of_string (w := ⟨d.token.kind, d.token.text⟩) hread
      (List.mem_singleton.1 hkind) _
  | regExp => exact absurd rfl hregExp

end Cursor

/-- How the token of a literal is read a second time. -/
def LiteralKind.rereading : LiteralKind → Cursor → Cursor × Option Flaw
  | regExp => Cursor.rereadSlash
  | _ => fun c => (c, none)

/-- The spelling of a literal is read again as the same token, up to the delimiter. -/
lemma IsSpelling.readsBy {kind : LiteralKind} {raw : String} (h : IsSpelling kind raw) {x : Char}
    (hx : x ∈ literalDelimiters) {c : Cursor} {tail : List Char}
    (hrest : c.rest = raw.toList ++ x :: tail) :
    ∃ k ∈ kind.tokenKinds,
      c.ReadsBy kind.rereading ⟨⟨k, c.offset, raw, raw, false⟩, x :: tail⟩ := by
  obtain ⟨d, hd, hkind, rfl⟩ := h
  refine ⟨d.token.kind, hkind, ?_⟩
  by_cases hregExp : kind = .regExp
  · subst hregExp
    rw [List.mem_singleton.1 hkind]
    exact Cursor.readsBy_regExp hd (List.mem_singleton.1 hkind) (endsName_of_delimiter hx).1 hrest
  · refine Cursor.readsBy_word (Cursor.stands_of_flawless hd hkind hregExp hx tail) hrest ?_
    cases kind <;> first | rfl | exact absurd rfl hregExp

/-! ### Parts of templates -/

/-- The kinds of tokens for the parts of templates, with the delimiters that they stand between. -/
def chunkPlaces : List (TokenKind × Char × List Char) :=
  [(.templateWhole, '\x60', ['\x60']), (.templateHead, '\x60', ['$', '\x7b']),
    (.templateMiddle, '\x7d', ['$', '\x7b']), (.templateTail, '\x7d', ['\x60'])]

/-- How the token after the first delimiter of a part is read a second time. -/
def rereadingAfter (opening : Char) : Cursor → Cursor × Option Flaw :=
  if opening = '\x7d' then Cursor.rereadBrace else fun c => (c, none)

section

variable {value : String} {stop : Lexeme.ChunkEnd} {c : Cursor} {tail : List Char}

lemma IsChunk.chunk_eq (h : IsChunk value) (hstop : stop ≠ .unclosed) (start : Nat) (first : Bool)
    (opening : Char) : Lexeme.chunk start first opening (value.toList ++ stop.text ++ tail) =
      ⟨Lexeme.chunkKind first stop, opening :: value.toList ++ stop.text, value.toList, none, tail⟩ := by
  obtain ⟨text, stop', rest, hrun, hstop'⟩ := h
  simp only [Lexeme.chunk, Lexeme.chunkRun_taken hrun hstop' hstop, if_neg hstop]

lemma IsChunk.readsBy_first (h : IsChunk value) (hstop : stop ≠ .unclosed)
    (hrest : c.rest = '\x60' :: value.toList ++ stop.text ++ tail) :
    c.ReadsBy (rereadingAfter '\x60') ⟨⟨Lexeme.chunkKind true stop, c.offset,
      String.ofList ('\x60' :: value.toList ++ stop.text), value, false⟩, tail⟩ := by
  have hgap := Word.gap_read (c := '\x60') (by decide) (by decide) (by decide) c.offset
    (value.toList ++ stop.text ++ tail)
  have hread : Lexeme.read c.offset ('\x60' :: (value.toList ++ stop.text ++ tail)) =
      some (Lexeme.chunk c.offset true '\x60' (value.toList ++ stop.text ++ tail)) := rfl
  refine ⟨_, ?_, rfl⟩
  rw [Cursor.next?, hrest, List.cons_append, List.cons_append, hgap, hread, h.chunk_eq hstop]
  simp [Cursor.ofLexeme]

lemma IsChunk.readsBy_further (h : IsChunk value) (hstop : stop ≠ .unclosed)
    (hrest : c.rest = '\x7d' :: value.toList ++ stop.text ++ tail) :
    c.ReadsBy (rereadingAfter '\x7d') ⟨⟨Lexeme.chunkKind false stop, c.offset,
      String.ofList ('\x7d' :: value.toList ++ stop.text), value, false⟩, tail⟩ := by
  have hstands : (Word.punctuator .closeBrace).Stands (value.toList ++ stop.text ++ tail) :=
    Word.stands_punctuator_final rfl _
  have hreread : ∀ after, Cursor.rereadBrace ⟨⟨.punctuator .closeBrace, c.offset, "\x7d", "\x7d",
      false⟩, after⟩ = (Cursor.ofLexeme c.offset false (Lexeme.chunk c.offset false '\x7d' after),
        (Lexeme.chunk c.offset false '\x7d' after).flaw) := fun after => by
    simp [Cursor.rereadBrace, Cursor.tail]
  refine Cursor.readsBy_word hstands hrest ((hreread _).trans ?_)
  rw [h.chunk_eq hstop, Cursor.ofLexeme, String.ofList_toList]

/-- A part of a template is read again between any two delimiters. -/
lemma IsChunk.readsBy (h : IsChunk value) {kind : TokenKind} {opening : Char} {closing : List Char}
    (hplace : (kind, opening, closing) ∈ chunkPlaces)
    (hrest : c.rest = opening :: value.toList ++ closing ++ tail) :
    c.ReadsBy (rereadingAfter opening)
      ⟨⟨kind, c.offset, String.ofList (opening :: value.toList ++ closing), value, false⟩, tail⟩ := by
  have hclosed : Lexeme.ChunkEnd.closed ≠ .unclosed := by decide
  have hsubstitution : Lexeme.ChunkEnd.substitution ≠ .unclosed := by decide
  simp only [chunkPlaces, List.mem_cons, List.not_mem_nil, or_false, Prod.mk.injEq] at hplace
  rcases hplace with ⟨rfl, rfl, rfl⟩ | ⟨rfl, rfl, rfl⟩ | ⟨rfl, rfl, rfl⟩ | ⟨rfl, rfl, rfl⟩
  · exact h.readsBy_first hclosed hrest
  · exact h.readsBy_first hsubstitution hrest
  · exact h.readsBy_further hsubstitution hrest
  · exact h.readsBy_further hclosed hrest

end

/-- Literals do not depend on what follows them.  Whatever literal is in the tree of a script, its
text is read without a flaw as one token of its kind, and not further, from wherever it begins and
before any delimiter; a regular expression is read again from its slash.  Every part of a template is
read back from between any two delimiters, as the part that these make of it. -/
theorem literals_stand_anywhere {text : String} {n : Node} (h : parse text = .ok n) :
    (∀ kind raw, .literal kind raw ∈ n.walk → ∀ x ∈ literalDelimiters, ∀ (c : Cursor) (tail),
      c.rest = raw.toList ++ x :: tail →
        ∃ c', c.ReadsBy kind.rereading c' ∧ c'.token.kind ∈ kind.tokenKinds ∧
          c'.token.start = c.offset ∧ c'.token.text = raw ∧ c'.rest = x :: tail) ∧
      ∀ quasis es, .template quasis es ∈ n.walk → ∀ quasi ∈ quasis,
        ∀ kind opening closing, (kind, opening, closing) ∈ chunkPlaces → ∀ (c : Cursor) (tail),
          c.rest = opening :: quasi.toList ++ closing ++ tail →
            ∃ c', c.ReadsBy (rereadingAfter opening) c' ∧ c'.token.kind = kind ∧
              c'.token.start = c.offset ∧ c'.token.value = quasi ∧ c'.rest = tail := by
  have hgenuine : n.Everywhere fun m => ∃ s, m.Genuine s :=
    ((genuineIn_of_parse h).mono fun s _ hm => ⟨s, hm⟩).everywhere
  refine ⟨fun kind raw hmem x hx c tail hrest => ?_, ?_⟩
  · obtain ⟨s, hspelling⟩ := hgenuine _ hmem
    obtain ⟨k, hk, hreads⟩ := IsSpelling.readsBy hspelling hx hrest
    exact ⟨_, hreads, hk, rfl, rfl, rfl⟩
  · intro quasis es hmem quasi hquasi kind opening closing hplace c tail hrest
    obtain ⟨s, hchunks⟩ := hgenuine _ hmem
    exact ⟨_, (hchunks quasi hquasi).readsBy hplace hrest, rfl, rfl, rfl, rfl⟩

/-- A template around a regular expression that has a slash in a class. -/
def Node.isSlashScript : Node → Bool
  | .program [.expressionStatement (.template ["a", ""] [.literal .regExp "/[/]/g"])] => true
  | _ => false

theorem literals_stand_anywhere_template :
    ∃ n c c', parse "\x60a$\x7b/[/]/g\x7d\x60;" = .ok n ∧
      (Cursor.start "/[/]/g]").ReadsBy Cursor.rereadSlash c ∧ c.token.text = "/[/]/g" ∧
      (Cursor.start "\x7da$\x7b").ReadsBy Cursor.rereadBrace c' ∧
      c'.token.kind = .templateMiddle ∧ c'.token.value = "a" := by
  obtain ⟨n, hparse, hscript⟩ := exists_of_parse_any (show
    (parse "\x60a$\x7b/[/]/g\x7d\x60;").toOption.any Node.isSlashScript = true by
      rw [parse_ofList]
      decide)
  obtain ⟨hliterals, hparts⟩ := literals_stand_anywhere hparse
  unfold Node.isSlashScript at hscript
  split at hscript
  · obtain ⟨c, hc, -, -, htext, -⟩ := hliterals .regExp "/[/]/g"
      (by simp [Node.walk_eq, Node.children]) ']' (by decide) (.start "/[/]/g]") [] (by decide)
    obtain ⟨c', hc', hkind, -, hvalue, -⟩ := hparts ["a", ""] _
      (by simp [Node.walk_eq, Node.children]; rfl) "a" List.mem_cons_self .templateMiddle
      '\x7d' ['$', '\x7b'] (by decide) (.start "\x7da$\x7b") [] (by decide)
    exact ⟨_, c, c', hparse, hc, htext, hc', hkind, hvalue⟩
  · cases hscript

end BindingProxy
