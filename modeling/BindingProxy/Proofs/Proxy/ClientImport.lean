import BindingProxy.Proofs.Code.RoundTrip
import BindingProxy.Proofs.Grammar.DeclaredPattern
import BindingProxy.Proofs.Grammar.Leads
import BindingProxy.Proofs.Grammar.WellFormed
import BindingProxy.Proofs.Token.Openings
import BindingProxy.Proxy.Fragment

/-!
# The import of the proxy types

A script imports the namespace of the proxy types with `const namespace = require('module')`.  The
module is quoted in such a way that no text of it ends the literal early, whatever follows, and
undoing the escapes gives it back.  The namespace stands as it is.  A name whose last escape is cut
short is read as a name when nothing follows it, but it takes in what follows; such a namespace, and
no other, spoils the import.
-/

namespace BindingProxy

open Word

/-! ### Quoted texts -/

/-- The characters that stand for one character of a quoted text. -/
def escape : Char → List Char
  | '\x27' => ['\\', '\x27']
  | '\\' => ['\\', '\\']
  | '\n' => ['\\', 'n']
  | '\r' => ['\\', 'r']
  | c => [c]

/-- The characters that some characters stand for: the four escapes are undone. -/
def unescape : List Char → List Char
  | [] => []
  | '\\' :: '\x27' :: rest => '\x27' :: unescape rest
  | '\\' :: '\\' :: rest => '\\' :: unescape rest
  | '\\' :: 'n' :: rest => '\n' :: unescape rest
  | '\\' :: 'r' :: rest => '\r' :: unescape rest
  | c :: rest => c :: unescape rest

/-- The text between the quotes of a literal, with its escapes undone. -/
def unquoted (literal : String) : String :=
  .ofList (unescape (literal.toList.drop 1).dropLast)

lemma toList_quoted (text : String) :
    (quoted text).toList = '\x27' :: (text.toList.flatMap escape ++ ['\x27']) := by
  have hescaped : (String.ofList (text.toList.flatMap escape)).toList =
      text.toList.flatMap escape := String.toList_ofList
  change ("'" ++ String.ofList (text.toList.flatMap escape) ++ "'").toList = _
  rw [String.toList_append, String.toList_append, hescaped]
  rfl

/-- A character that is escaped, or stands for itself. -/
lemma escape_cases (c : Char) :
    (∃ d, escape c = ['\\', d] ∧ d ≠ '\r' ∧ ∀ rest, unescape ('\\' :: d :: rest) = c :: unescape rest) ∨
      (escape c = [c] ∧ c ≠ '\\' ∧ c ≠ '\x27' ∧ isLineFeed c = false) := by
  unfold escape
  split
  case h_1 | h_2 | h_3 | h_4 => exact .inl ⟨_, rfl, by decide, fun _ => by rw [unescape]⟩
  · next hquote hbackslash hline hreturn =>
    refine .inr ⟨rfl, hbackslash, hquote, ?_⟩
    rw [isLineFeed, beq_eq_false_iff_ne.2 hline, beq_eq_false_iff_ne.2 hreturn]
    rfl

lemma unescape_escape (text : List Char) : unescape (text.flatMap escape) = text := by
  induction text with
  | nil => rfl
  | cons c text ih =>
    rw [List.flatMap_cons]
    rcases escape_cases c with ⟨d, hescape, _, hundo⟩ | ⟨hescape, hbackslash, _, _⟩
    · rw [hescape]
      exact (hundo _).trans (congrArg _ ih)
    · rw [hescape, List.singleton_append, unescape.eq_6 _ _ (by simp [hbackslash])
        (by simp [hbackslash]) (by simp [hbackslash]) (by simp [hbackslash]), ih]

lemma unquoted_quoted (text : String) : unquoted (quoted text) = text := by
  rw [unquoted, toList_quoted, List.drop_one, List.tail_cons, List.dropLast_concat, unescape_escape,
    String.ofList_toList]

/-- A quoted text ends at its last quote. -/
lemma stringRun_escape (text rest : List Char) :
    Lexeme.stringRun '\x27' (text.flatMap escape ++ '\x27' :: rest) =
      (text.flatMap escape ++ ['\x27'], true, rest) := by
  induction text with
  | nil =>
    rw [List.flatMap_nil, List.nil_append,
      Lexeme.stringRun.eq_4 _ _ _ (by rintro _ ⟨⟩) (by rintro _ _ ⟨⟩), if_pos rfl]
    rfl
  | cons c text ih =>
    rw [List.flatMap_cons, List.append_assoc]
    rcases escape_cases c with ⟨d, hescape, hreturn, _⟩ | ⟨hescape, hbackslash, hquote, hline⟩
    · rw [hescape, List.cons_append, List.cons_append, List.nil_append,
        Lexeme.stringRun.eq_3 _ _ _ (fun _ heq => absurd heq hreturn), ih]
      rfl
    · rw [hescape, List.singleton_append,
        Lexeme.stringRun.eq_4 _ _ _ (fun _ heq => absurd heq hbackslash)
          (fun _ _ heq => absurd heq hbackslash),
        if_neg hquote, hline, if_neg (by simp), ih]
      rfl

/-- A quoted text is a string token. -/
lemma isToken_quoted (text : String) : Word.IsToken ⟨.string, quoted text⟩ := by
  have htext : (quoted text).toList ++ [';'] =
      '\x27' :: (text.toList.flatMap escape ++ '\x27' :: [';']) := by
    rw [toList_quoted, List.cons_append, List.append_assoc]
    rfl
  rw [IsToken, htext, Lexeme.read, if_pos (.inr rfl), Lexeme.string_eq, stringRun_escape, toList_quoted]
  rfl

/-- A quoted text is read as one token, whatever follows it. -/
lemma next?_quoted (text rest : String) : (Cursor.start (quoted text ++ rest)).next? =
    some (⟨⟨.string, 0, quoted text, quoted text, false⟩, rest.toList⟩, none) := by
  rw [Cursor.next?_eq, Cursor.start, String.toList_append]
  exact Cursor.nextAfter_word (stands_of_string (isToken_quoted text) rfl _) false 0

/-! ### Declarations of a constant -/

namespace Grammar

open Parse

lemma reads_target {F : SyntaxCause → Prop} {n : Nat} {name : String} {ws : List Word} :
    Reads F ((level (n + 1)).target {}) (Word.name name :: ws) (.identifier name) ws := by
  refine Runs.kind ?_
  exact Runs.name rfl Runs.value

/-- A constant with a value that the words spell. -/
lemma reads_constant {F : SyntaxCause → Prop} {n : Nat} {name : String} {e : Node} {ws : List Word}
    (h : Derives .assignment e ws) (hlevels : 3 * ws.length + 2 ≤ n + 1) :
    Reads F ((level (n + 2)).statement {})
      (reserved .kwConst :: Word.name name :: punctuator .assign :: (ws ++ [punctuator .semicolon]))
      (.declare .constant name (some e)) [] := by
  have htame : Tame (ws ++ [punctuator .semicolon]) := h.tame (.cons rfl trivial) fun _ => rfl
  have hvalue : Reads F ((level (n + 1)).assignment {}) (ws ++ [punctuator .semicolon]) e
      [punctuator .semicolon] :=
    (readsBack_level (n + 1)).assignment h rfl htame (.inr hlevels)
  have hdeclarator : Reads F (declarator (level (n + 1)) {})
      (Word.name name :: punctuator .assign :: (ws ++ [punctuator .semicolon]))
      (.declarator (.identifier name) (some e)) [punctuator .semicolon] :=
    Runs.seq reads_target (Runs.accept_true rfl (Runs.seq hvalue Runs.value))
  have hend : Reads F endStatement [punctuator .semicolon] () [] :=
    Runs.accept_true rfl Runs.value
  have hdeclaration : Reads F (declaration (level (n + 1)) {})
      (reserved .kwConst :: Word.name name :: punctuator .assign :: (ws ++ [punctuator .semicolon]))
      (.declare .constant name (some e)) [punctuator .semicolon] := by
    refine Runs.kind (Runs.advance ?_)
    refine Runs.bind (Q := fun found vs =>
      found = [.declarator (.identifier name) (some e)] ∧ vs = [punctuator .semicolon])
      (Loops.repeatFrom (Loops.done ?_ ⟨rfl, rfl⟩)) ?_
    · exact Runs.seq hdeclarator (Runs.accept_false (by decide) Runs.value)
    · rintro _ _ ⟨rfl, rfl⟩
      exact Runs.value
  refine Runs.kind ?_
  exact Runs.seq hdeclaration (Runs.seq hend Runs.value)

end Grammar

/-! ### The words of the import -/

/-- The words of the call that loads a module. -/
def requireWords (module : String) : List Word :=
  [Word.name "require", punctuator .openParen, ⟨.string, quoted module⟩, punctuator .closeParen]

lemma derives_require (module : String) :
    Derives .assignment (.call (.identifier "require") [.literal .string (quoted module)] false)
      (requireWords module) := by
  have hliteral : Derives .primary (.literal .string (quoted module)) [⟨.string, quoted module⟩] :=
    .literal (w := ⟨.string, quoted module⟩) rfl
  have hitems : ∀ e ws, (e, ws) ∈ [(Node.literal .string (quoted module),
      [(⟨.string, quoted module⟩ : Word)])] → Derives .item e ws := by
    intro e ws h
    cases List.mem_singleton.1 h
    exact .item (.value (.test (.single (.operand (.head hliteral)))))
  have hcallee : Derives (.linked true) (.identifier "require") [Word.name "require"] :=
    .head (.name (w := Word.name "require") rfl)
  have hcall : Derives (.linked true)
      (.call (.identifier "require") [.literal .string (quoted module)] false) (requireWords module) :=
    .call hcallee hitems
  exact .value (.test (.single (.operand hcall)))

namespace ProxyNames

variable (names : ProxyNames)

/-- The pieces of the import from the `=` on. -/
def valuePieces : List Piece :=
  .word (punctuator .assign) :: .blank ::
    ((requireWords names.clientModule).map PieceOf.word ++ [PieceOf.word (punctuator .semicolon)])

/-- The pieces of the import. -/
def importPieces : List Piece :=
  .word (reserved .kwConst) :: .blank :: .word (Word.name names.namespaceName) :: .blank ::
    names.valuePieces

lemma toList_code_clientImport (layout : Layout) :
    (names.clientImport.code layout).toList = charsOf names.importPieces := by
  have hcode : names.clientImport.code layout = "" ++ "const" ++ " " ++ names.namespaceName ++ " = " ++
      "require" ++ "(" ++ quoted names.clientModule ++ ")" ++ ";" := rfl
  have hpieces : charsOf names.importPieces = "const".toList ++ (" ".toList ++
      (names.namespaceName.toList ++ (" = require(".toList ++
        ((quoted names.clientModule).toList ++ ");".toList)))) := rfl
  rw [hcode, hpieces]
  simp only [String.toList_append, List.append_assoc]
  rfl

variable {names}

/-- The words of the import can be told apart if the namespace can be told from a blank. -/
lemma legible_importPieces (h : (Word.name names.namespaceName).IsToken) :
    Legible names.importPieces [] := by
  have hword : ∀ {w : Word} (tail : List Char), w.IsToken → w.kind.isWord = true →
      w.Stands (' ' :: tail) := fun tail hw hkind => hw.stands_of_isWord hkind ⟨by decide, by decide⟩
  have hrequire : ∀ tail, (Word.name "require").Stands ('(' :: tail) := fun tail =>
    IsToken.stands_of_isWord (by decide) rfl ⟨by decide, by decide⟩
  refine ⟨hword _ (isToken_reserved _) rfl, hword _ h rfl, stands_punctuator_blank _ _, hrequire _,
    stands_punctuator_final rfl _, stands_of_string (isToken_quoted _) rfl _,
    stands_punctuator_final rfl _, stands_punctuator_final rfl _, trivial⟩

end ProxyNames

/-! ### Reading the import back -/

/-- A name that has an end of its own too is a token before whatever cannot go on with it. -/
lemma ScansAsName.isToken {w : String} (h : ScansAsName w) (hwhole : Whole w) :
    (Word.name w).IsToken := by
  have hword := (Cursor.Flawless.next h).readsWord rfl
  have htoken := hwhole.isToken hword.head
  rwa [nameWord, ← hword.kind] at htoken

namespace Grammar

open Parse

/-- A name that is declared was read to its end, or nothing follows it. -/
lemma readsTo_target {n : Nat} (ctx : Context) {c : Cursor} (hc : c.Flawless) :
    ReadsTo ((level (n + 1)).target ctx) c fun t c' =>
      ∀ w, t = .identifier w → Whole w ∨ c'.token.kind = .endOfText := by
  have hpattern : ∀ {p : Parse Node}, Yields p (fun t => ∀ w, t ≠ .identifier w) →
      ReadsTo p c fun t c' => ∀ w, t = .identifier w → Whole w ∨ c'.token.kind = .endOfText :=
    fun h => (ReadsTo.of_yields h).mono fun t _ ht w hw => absurd hw (ht w)
  refine ReadsTo.kind ?_
  split
  · exact hpattern (.after fun _ => .after fun _ => .after fun _ => .pure (by rintro _ ⟨⟩))
  · exact hpattern (.after fun _ => .after fun _ => .after fun _ => .pure (by rintro _ ⟨⟩))
  · refine (readsTo_name hc).bind fun w c' hw => .pure ?_
    rintro _ ⟨⟩
    exact hw.2.2

end Grammar

namespace ProxyNames

open Grammar Parse

variable {names : ProxyNames}

/-- The import is read back if its namespace is a token before whatever follows. -/
lemma parse_clientImport {namespaceName module : String} (h : (Word.name namespaceName).IsToken)
    (layout : Layout) :
    parse ((ProxyNames.mk namespaceName module).clientImport.code layout) =
      .ok (.program [(ProxyNames.mk namespaceName module).clientImport]) := by
  let names : ProxyNames := ⟨namespaceName, module⟩
  have hlegible : Legible names.importPieces [] := by
    apply legible_importPieces
    exact h
  have hend : ∀ lineBreak offset, ∃ c, Cursor.nextAfter lineBreak offset [] = some (c, none) ∧
      c.At ([] : List Word) := fun _ _ => ⟨_, rfl, rfl⟩
  obtain ⟨c, hnext, hat⟩ : ∃ c, Cursor.nextAfter false 0 (charsOf names.importPieces ++ []) =
      some (c, none) ∧ c.At (wordsOf names.importPieces) :=
    Cursor.exists_nextAfter_of_end hend hlegible (by rintro ⟨⟩) 0
  rw [List.append_nil, ← toList_code_clientImport names layout] at hnext
  have hstatement : Reads (fun _ => False) ((level maxNesting).statement {})
      (wordsOf names.importPieces) names.clientImport [] :=
    reads_constant (n := 510) (derives_require names.clientModule) (by simp [requireWords])
  have hstart : (Cursor.start (names.clientImport.code layout)).next? = some (c, none) := by
    rw [Cursor.next?_start, hnext]
  have hconst : headKind (wordsOf names.importPieces) ≠ .endOfText := by
    change TokenKind.reserved .kwConst ≠ .endOfText
    simp
  rcases program_of_reads hstatement hconst hstart hat with ⟨next, hok⟩ | ⟨_, _, _, hfalse⟩
  · rw [parse, hok]
  · exact hfalse.elim

/-- An import that is read back has a namespace with an end of its own. -/
lemma whole_of_parse_clientImport {layout : Layout}
    (h : parse (names.clientImport.code layout) = .ok (.program [names.clientImport])) :
    Whole names.namespaceName := by
  let c : Cursor := ⟨⟨.reserved .kwConst, 0, "const", "const", false⟩,
    charsOf (names.importPieces.drop 1)⟩
  have hconst : (Cursor.start (names.clientImport.code layout)).next? = some (c, none) := by
    have hstands : (reserved .kwConst).Stands (charsOf (names.importPieces.drop 1)) :=
      IsToken.stands_of_isWord (by decide) rfl ⟨by decide, by decide⟩
    rw [Cursor.next?_eq, Cursor.start, toList_code_clientImport]
    exact Cursor.nextAfter_word hstands false 0
  cases hprogram : (level maxNesting).program (Cursor.start (names.clientImport.code layout)) with
  | fail failure =>
    rw [parse, hprogram] at h
    cases h
  | ok program c' =>
  rw [parse, hprogram] at h
  cases h
  obtain ⟨first, last, hnext, hstatement, _⟩ := statement_of_program hprogram
  cases hconst.symm.trans hnext
  have hvariable : variableStatement (level 511) {} c = .ok names.clientImport last := hstatement
  obtain ⟨declared, _, hdeclaration, hvariable⟩ := exists_of_bind_eq_ok hvariable
  obtain ⟨_, _, _, hvariable⟩ := exists_of_bind_eq_ok hvariable
  cases hvariable
  obtain ⟨c₀, c₁, _, hnext₀, htarget, hassign, _⟩ := declarator_of_declaration hdeclaration
  have hread := readsTo_target {} (.next hnext₀) _ _ htarget _ rfl
  refine hread.resolve_right fun hend => ?_
  rw [hassign] at hend
  cases hend

/-- Quoting is faithful: a quoted text is read as one string literal, whatever follows it, and undoing
the escapes gives the text back.  The import of a namespace that is read as a name is read back as
the declaration that it is, unless the name is cut short and so takes in what follows it. -/
theorem parse_clientImport_iff (module namespaceName rest : String) (layout : Layout) :
    (Cursor.start (quoted module ++ rest)).next? =
        some (⟨⟨.string, 0, quoted module, quoted module, false⟩, rest.toList⟩, none) ∧
      unquoted (quoted module) = module ∧
      (ScansAsName namespaceName →
        (parse ((ProxyNames.mk namespaceName module).clientImport.code layout) =
            .ok (.program [(ProxyNames.mk namespaceName module).clientImport]) ↔
          Whole namespaceName)) :=
  ⟨next?_quoted module rest, unquoted_quoted module, fun hname =>
    ⟨whole_of_parse_clientImport, fun hwhole => parse_clientImport (hname.isToken hwhole) layout⟩⟩

/-- A namespace with an escape, from a module with all that is escaped in it. -/
theorem parse_clientImport_escapes :
    ScansAsName "Pr\\u\x7b6f\x7dxy" ∧ Whole "Pr\\u\x7b6f\x7dxy" ∧
      quoted "it's\\a\r\n'); evil(); //\\" = "'it\\'s\\\\a\\r\\n\\'); evil(); //\\\\'" ∧
      parse ((ProxyNames.mk "Pr\\u\x7b6f\x7dxy" "it's\\a\r\n'); evil(); //\\").clientImport.code {}) =
        .ok (.program
          [(ProxyNames.mk "Pr\\u\x7b6f\x7dxy" "it's\\a\r\n'); evil(); //\\").clientImport]) := by
  have hname : ScansAsName "Pr\\u\x7b6f\x7dxy" := by rfl
  have hwhole : Whole "Pr\\u\x7b6f\x7dxy" := by decide
  exact ⟨hname, hwhole, by decide, ((parse_clientImport_iff _ _ "" {}).2.2 hname).2 hwhole⟩

/-- The namespace `\u{` is read as a name, but in the import it takes in all up to a brace of the
module, and what follows the brace is run. -/
theorem clientImport_runs_module :
    ScansAsName "\\u\x7b" ∧
      parse ((ProxyNames.mk "\\u\x7b" "\x7d; evil(); //").clientImport.code {}) ≠
        .ok (.program [(ProxyNames.mk "\\u\x7b" "\x7d; evil(); //").clientImport]) ∧
      ∃ n, parse ((ProxyNames.mk "\\u\x7b" "\x7d; evil(); //").clientImport.code {}) = .ok n ∧
        n.code {} = "const \\u\x7b = require('\x7d;\nevil();\n" := by
  have hname : ScansAsName "\\u\x7b" := by rfl
  have hcut : ¬ Whole "\\u\x7b" := by decide
  obtain ⟨n, hparse, hcode⟩ := exists_of_parse_any
    (show (parse ((ProxyNames.mk "\\u\x7b" "\x7d; evil(); //").clientImport.code {})).toOption.any
      (fun n => n.code {} == "const \\u\x7b = require('\x7d;\nevil();\n") = true by decide +kernel)
  exact ⟨hname, fun h => hcut (whole_of_parse_clientImport h), n, hparse, beq_iff_eq.1 hcode⟩

end ProxyNames

end BindingProxy
