import BindingProxy.Proofs.Grammar.Statements
import BindingProxy.Proofs.Grammar.Turns

/-!
# The height of a script

The levels of the grammar bound the number of turns in the tree of a script, and so the height up to
the length of the longest run.  They do not bound the height: the script `a.a.a;` with any number of
links is read on the same few levels, and its tree is higher than the number of its links.
-/

namespace BindingProxy

open Word

/-! ### Scripts with many links -/

/-- A number of links after an operand. -/
def linked : Nat → Node → Node
  | 0, owner => owner
  | links + 1, owner => linked links (.dot owner "a")

lemma le_height_linked (links : Nat) (owner : Node) :
    links + owner.height ≤ (linked links owner).height := by
  induction links generalizing owner with
  | zero => exact (Nat.zero_add _).le
  | succ links ih =>
    have howner : owner.height < (Node.dot owner "a").height :=
      Node.height_lt_of_mem_children List.mem_cons_self
    have hlinks := ih (.dot owner "a")
    rw [linked]
    omega

lemma lt_height_script (links : Nat) :
    links < (Node.program [.expressionStatement (linked links (.identifier "a"))]).height :=
  calc links
      ≤ links + (Node.identifier "a").height := Nat.le_add_right _ _
    _ ≤ (linked links (.identifier "a")).height := le_height_linked links _
    _ < (Node.expressionStatement (linked links (.identifier "a"))).height :=
      Node.height_lt_of_mem_children List.mem_cons_self
    _ < _ := Node.height_lt_of_mem_children List.mem_cons_self

/-- The pieces of a number of links and of the semicolon after them. -/
def linkPieces : Nat → List LinePiece
  | 0 => [mark .semicolon]
  | links + 1 => mark .dot :: inLine (Word.name "a") :: linkPieces links

/-- The pieces of an operand with a number of links. -/
def linkedPieces (links : Nat) : List LinePiece := inLine (Word.name "a") :: linkPieces links

/-- The script of an operand with a number of links. -/
def linkedText (links : Nat) : String := String.ofList (charsOf (linkedPieces links))

example : linkedText 3 = "a.a.a.a;" := by decide

/-- A name ends before each link and before the semicolon. -/
lemma endsName_linkPieces (links : Nat) : Lexeme.EndsName (charsOf (linkPieces links)) := by
  cases links with
  | zero => exact ⟨by decide, by decide⟩
  | succ links => exact ⟨by decide, by decide⟩

/-- What follows a name is no arrow and no colon. -/
lemma headKind_linkPieces (links : Nat) :
    headKind (wordsOf (linkPieces links)) ≠ .punctuator .arrow ∧
      headKind (wordsOf (linkPieces links)) ≠ .punctuator .colon := by
  cases links with
  | zero => exact ⟨by rintro ⟨⟩, by rintro ⟨⟩⟩
  | succ links => exact ⟨by rintro ⟨⟩, by rintro ⟨⟩⟩

lemma stands_link {links : Nat} : (Word.name "a").Stands (charsOf (linkPieces links) ++ []) := by
  rw [List.append_nil]
  exact IsToken.stands_of_isWord (by decide) rfl (endsName_linkPieces links)

lemma legible_linkPieces (links : Nat) : Legible (linkPieces links) [] := by
  induction links with
  | zero => exact ⟨stands_punctuator_final rfl _, trivial⟩
  | succ links ih => exact ⟨stands_dot (by decide) (by decide) _, stands_link, ih⟩

/-- The words of the script are the first ones that are read from its text. -/
lemma exists_next?_linkedText (links : Nat) :
    ∃ c, (Cursor.start (linkedText links)).next? = some (c, none) ∧
      c.At (wordsOf (linkedPieces links)) := by
  have hend : ∀ lineBreak offset, ∃ c, Cursor.nextAfter lineBreak offset [] = some (c, none) ∧
      c.At ([] : List LineWord) := fun _ _ => ⟨_, rfl, rfl⟩
  have hlegible : Legible (linkedPieces links) [] := ⟨stands_link, legible_linkPieces links⟩
  obtain ⟨c, hnext, hat⟩ := Cursor.exists_nextAfter_of_end hend hlegible Bool.false_ne_true.elim 0
  refine ⟨c, ?_, hat⟩
  rw [Cursor.next?_start, linkedText, String.toList_ofList, ← hnext, List.append_nil]

namespace Grammar

open Parse

variable {F : SyntaxCause → Prop} {g : Grammar} {ctx : Context}

/-- The links are read one after the other by the same rule. -/
lemma loops_links (links : Nat) (owner : Node) :
    Loops F (link g ctx true) owner (wordsOf (linkPieces links)) fun e rest =>
      e = linked links owner ∧ rest = [⟨punctuator .semicolon, false⟩] := by
  induction links generalizing owner with
  | zero => exact Loops.done (reads_link_end rfl true owner) ⟨rfl, rfl⟩
  | succ links ih =>
    have hlink : Reads F (link g ctx true owner) (wordsOf (linkPieces (links + 1)))
        (.again (.dot owner "a")) (wordsOf (linkPieces links)) :=
      Runs.kind (Runs.advance (Runs.word rfl Runs.value))
    exact Loops.again hlink (Nat.lt_succ_of_lt (Nat.lt_succ_self _)) (ih _)

/-- The reader takes the script up to its semicolon. -/
abbrev ReadsLinks (F : SyntaxCause → Prop) (links : Nat) (p : Parse Node) : Prop :=
  Reads F p (wordsOf (linkedPieces links)) (linked links (.identifier "a"))
    [⟨punctuator .semicolon, false⟩]

lemma reads_leftHandSide_linked (links : Nat) : ReadsLinks F links (leftHandSide g ctx) := by
  intro c hc
  have hread : ReadsLinks F links (leftHandSideWithin g ctx (tokenBound c)) :=
    Runs.isAt_false (by rintro ⟨⟩)
      (Runs.seq (reads_primaryWith_name _) (loops_links links _).repeatFrom)
  exact hread c hc

/-- Three levels are enough, whatever the number of links. -/
lemma reads_statement_linked (links : Nat) :
    Reads F (g.above.above.above.statement {}) (wordsOf (linkedPieces links))
      (.expressionStatement (linked links (.identifier "a"))) [] := by
  have hunary : ReadsLinks F links (g.above.unary {}) :=
    reads_unaryExpression_of_name (reads_leftHandSide_linked links) rfl
  have hassignment : ReadsLinks F links (g.above.above.assignment {}) :=
    reads_assignmentExpression_of_name hunary (headKind_linkPieces links).1 rfl
  have hexpression : ReadsLinks F links (expression g.above.above {}) :=
    Runs.seq hassignment (Runs.isAt_false (by rintro ⟨⟩) Runs.value)
  exact Runs.kind (reads_nameStatement_of_name hexpression (headKind_linkPieces links).2)

end Grammar

open Grammar in
lemma parse_linkedText (links : Nat) :
    parse (linkedText links) =
      .ok (.program [.expressionStatement (linked links (.identifier "a"))]) := by
  obtain ⟨c, hnext, hat⟩ := exists_next?_linkedText links
  have hstatement : Parse.Reads (fun _ => False) ((level maxNesting).statement {})
      (wordsOf (linkedPieces links)) (.expressionStatement (linked links (.identifier "a"))) [] :=
    reads_statement_linked (g := level 509) links
  rw [parse]
  rcases program_of_reads hstatement (by rintro ⟨⟩) hnext hat with ⟨next, hok⟩ | ⟨_, _, _, hfalse⟩
  · rw [hok]
  · exact hfalse.elim

/-! ### The bound -/

/-- The tree of a script takes at most five turns for each level that the grammar has, and one for
the script.  Its height is the length of a run up to this factor. -/
theorem height_le_of_parse {text : String} {n : Node} (h : parse text = .ok n) :
    n.turns ≤ 5 * Grammar.maxNesting + 1 ∧ n.longestChain ≤ n.height ∧
      n.height ≤ (5 * Grammar.maxNesting + 1) * n.longestChain := by
  have hturns : n.turns ≤ 5 * Grammar.maxNesting + 1 := by
    unfold parse at h
    split at h
    · next program c' hok =>
      cases h
      exact Grammar.turns_program (Grammar.builds_level _) _ _ _ hok
    · cases h
  exact ⟨hturns, n.longestChain_le_height, Node.height_le hturns⟩

/-- Three thousand links make a tree that is higher than the bound for its turns. -/
theorem height_le_of_parse_linked :
    ∃ n, parse (linkedText 3000) = .ok n ∧ 5 * Grammar.maxNesting + 1 < n.height ∧
      n.turns ≤ 5 * Grammar.maxNesting + 1 ∧ n.longestChain ≤ n.height ∧
      n.height ≤ (5 * Grammar.maxNesting + 1) * n.longestChain := by
  refine ⟨_, parse_linkedText 3000, ?_, height_le_of_parse (parse_linkedText 3000)⟩
  have hlinks := lt_height_script 3000
  unfold Grammar.maxNesting
  omega

/-- No height is enough for all scripts, although three levels are enough for these. -/
theorem no_height_bound :
    ¬ ∃ bound, ∀ (text : String) (n : Node), parse text = .ok n → n.height ≤ bound := by
  rintro ⟨bound, h⟩
  exact absurd (h _ _ (parse_linkedText bound)) (lt_height_script bound).not_ge

end BindingProxy
