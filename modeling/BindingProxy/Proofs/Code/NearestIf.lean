import BindingProxy.Code.Printer
import BindingProxy.Proofs.Proxy.Scoped

/-!
# An `else` belongs to the nearest `if`

The code of a branch or loop is its head followed by the code of its body, without braces around it.
So the code of a statement is a row of marks: heads, the word `else`, and statements that end by
themselves.  Whoever reads such a row gives an `else` to the nearest `if` before it that can take one
(`Attaches`), and there is only one way to read it.  It gives the statement back, because no `else`
follows a consequent that would take it: the grammar reads no such statement, and instrumenting makes
none.
-/

namespace BindingProxy

namespace Node

/-! ### Marks -/

/-- What stands before the body of a statement that ends where its body ends. -/
inductive Head where
  | whileLoop (test : Node)
  | forLoop (init test step : Option Node)
  | forEach (iteration : Iteration) (left right : Node)
  | labeled (label : String)

/-- The statement with the given head and body. -/
def Head.node : Head → Node → Node
  | whileLoop test, body => .whileLoop test body
  | forLoop init test step, body => .forLoop init test step body
  | forEach iteration left right, body => .forEach iteration left right body
  | labeled label, body => .labeled label body

/-- What the code of a statement is made of. -/
inductive Mark where
  | ifHead (test : Node)
  | elseWord
  | head (h : Head)
  /-- A statement that ends by itself. -/
  | whole (n : Node)

/-- The marks of a statement in their order. -/
def marks : Node → List Mark
  | conditionalStatement test consequent none => .ifHead test :: consequent.marks
  | conditionalStatement test consequent (some alternate) =>
    .ifHead test :: (consequent.marks ++ .elseWord :: alternate.marks)
  | whileLoop test body => .head (.whileLoop test) :: body.marks
  | forLoop init test step body => .head (.forLoop init test step) :: body.marks
  | forEach iteration left right body => .head (.forEach iteration left right) :: body.marks
  | labeled label body => .head (.labeled label) :: body.marks
  | n => [.whole n]

/-- The steps that write a mark.  A head is written as before an empty statement, which is a single
semicolon. -/
def Mark.steps : Mark → List CodeStep
  | ifHead test => (conditionalStatement test .empty none).steps.dropLast
  | elseWord => [.text " else "]
  | head h => (h.node .empty).steps.dropLast
  | whole n => n.steps

/-- The last step before an empty statement stays when its semicolon is dropped. -/
lemma dropLast_before_empty (front : List CodeStep) (last : CodeStep) :
    (front ++ last :: Node.empty.steps).dropLast = front ++ [last] := by
  have hempty : front ++ last :: Node.empty.steps = (front ++ [last]) ++ [.text ";"] := by
    rw [List.append_assoc]
    rfl
  rw [hempty, List.dropLast_concat]

lemma steps_ifOnly (test consequent : Node) : (conditionalStatement test consequent none).steps =
    .text "if (" :: test.steps ++ .text ") " :: consequent.steps :=
  List.append_nil _

lemma Mark.steps_ifHead (test : Node) :
    (Mark.ifHead test).steps = .text "if (" :: test.steps ++ [.text ") "] := by
  rw [Mark.steps, steps_ifOnly, dropLast_before_empty]

/-- The code of a statement is its head and the code of its body. -/
lemma Head.steps_node (h : Head) (body : Node) :
    (h.node body).steps = (Mark.head h).steps ++ body.steps := by
  obtain ⟨front, last, hsteps⟩ : ∃ front last, ∀ body : Node,
      (h.node body).steps = front ++ last :: body.steps := by
    cases h with
    | whileLoop => exact ⟨_, _, fun _ => rfl⟩
    -- How a head with a declaration is written depends on what it holds.
    | forLoop init =>
      cases init with
      | none => exact ⟨_, _, fun _ => rfl⟩
      | some init => cases init <;> exact ⟨_, _, fun _ => rfl⟩
    | forEach _ left => cases left <;> exact ⟨_, _, fun _ => rfl⟩
    | labeled label => exact ⟨[.text label], _, fun _ => rfl⟩
  rw [Mark.steps, hsteps, hsteps, dropLast_before_empty, List.append_assoc]
  rfl

/-- The code of a statement is that of its marks. -/
lemma steps_eq_marks (n : Node) : n.steps = n.marks.flatMap Mark.steps := by
  fun_induction marks n with
  | case1 test consequent ih =>
    rw [List.flatMap_cons, ← ih, Mark.steps_ifHead, steps_ifOnly, List.append_assoc]
    rfl
  | case2 test consequent alternate ihconsequent ihalternate =>
    have hsteps : (conditionalStatement test consequent (some alternate)).steps =
        .text "if (" :: test.steps ++ .text ") " :: consequent.steps ++
          .text " else " :: alternate.steps := rfl
    rw [hsteps, List.flatMap_cons, List.flatMap_append, List.flatMap_cons, ← ihconsequent,
      ← ihalternate, Mark.steps_ifHead, List.append_assoc, List.append_assoc]
    rfl
  | case3 test body ih =>
    rw [List.flatMap_cons, ← ih]
    exact (Head.whileLoop test).steps_node body
  | case4 init test step body ih =>
    rw [List.flatMap_cons, ← ih]
    exact (Head.forLoop init test step).steps_node body
  | case5 iteration left right body ih =>
    rw [List.flatMap_cons, ← ih]
    exact (Head.forEach iteration left right).steps_node body
  | case6 label body ih =>
    rw [List.flatMap_cons, ← ih]
    exact (Head.labeled label).steps_node body
  | case7 n => exact (List.append_nil _).symm

/-! ### Reading marks -/

/-- The front of a row of marks as a statement, with the marks that are left.  An `if` takes the
`else` that follows its consequent. -/
inductive Attaches : List Mark → Node → List Mark → Prop where
  | whole (n : Node) (rest : List Mark) : Attaches (.whole n :: rest) n rest
  | head {ms rest : List Mark} {body : Node} (h : Head) (hbody : Attaches ms body rest) :
    Attaches (.head h :: ms) (h.node body) rest
  | ifElse {ms ms' rest : List Mark} {test consequent alternate : Node}
    (hconsequent : Attaches ms consequent (.elseWord :: ms')) (halternate : Attaches ms' alternate rest) :
    Attaches (.ifHead test :: ms) (conditionalStatement test consequent (some alternate)) rest
  | ifOnly {ms rest : List Mark} {test consequent : Node} (hconsequent : Attaches ms consequent rest)
    (hrest : rest.head? ≠ some .elseWord) :
    Attaches (.ifHead test :: ms) (conditionalStatement test consequent none) rest

/-- There is only one way to read a row of marks. -/
lemma Attaches.unique {ms rest rest' : List Mark} {n n' : Node} (h : Attaches ms n rest)
    (h' : Attaches ms n' rest') : n = n' ∧ rest = rest' := by
  induction h generalizing n' rest' with
  | whole n rest =>
    cases h'
    exact ⟨rfl, rfl⟩
  | head h _ ih =>
    cases h' with
    | head _ hbody =>
      obtain ⟨rfl, rfl⟩ := ih hbody
      exact ⟨rfl, rfl⟩
  | ifElse _ _ ihconsequent ihalternate =>
    cases h' with
    | ifElse hconsequent halternate =>
      obtain ⟨rfl, heq⟩ := ihconsequent hconsequent
      cases heq
      obtain ⟨rfl, rfl⟩ := ihalternate halternate
      exact ⟨rfl, rfl⟩
    | ifOnly hconsequent hrest =>
      obtain ⟨_, rfl⟩ := ihconsequent hconsequent
      exact absurd rfl hrest
  | ifOnly _ hrest ih =>
    cases h' with
    | ifElse hconsequent _ =>
      obtain ⟨_, rfl⟩ := ih hconsequent
      exact absurd rfl hrest
    | ifOnly hconsequent _ =>
      obtain ⟨rfl, rfl⟩ := ih hconsequent
      exact ⟨rfl, rfl⟩

/-- The marks of a statement are read as the statement, unless they end before an `else` that it would
take. -/
lemma attaches_marks {n : Node} (h : n.Everywhere KeepsElse) {rest : List Mark}
    (hrest : n.endsOpen = true → rest.head? ≠ some .elseWord) : Attaches (n.marks ++ rest) n rest := by
  fun_induction marks n generalizing rest with
  | case1 test consequent ih =>
    have hconsequent := h.child (c := consequent) (by simp [children])
    have hfree := hrest rfl
    exact .ifOnly (ih hconsequent fun _ => hfree) hfree
  | case2 test consequent alternate ihconsequent ihalternate =>
    have hclosed : consequent.endsOpen = false := h.root
    have hconsequent := h.child (c := consequent) (by simp [children])
    have halternate := h.child (c := alternate) (by simp [children])
    rw [List.cons_append, List.append_assoc, List.cons_append]
    refine .ifElse (ihconsequent hconsequent fun hopen => ?_) (ihalternate halternate hrest)
    exact absurd (hclosed.symm.trans hopen) Bool.false_ne_true
  | case3 test body ih =>
    exact .head (.whileLoop test) (ih (h.child (by simp [children])) hrest)
  | case4 init test step body ih =>
    exact .head (.forLoop init test step) (ih (h.child (by simp [children])) hrest)
  | case5 iteration left right body ih =>
    exact .head (.forEach iteration left right) (ih (h.child (by simp [children])) hrest)
  | case6 label body ih =>
    exact .head (.labeled label) (ih (h.child (by simp [children])) hrest)
  | case7 n => exact .whole n rest

end Node

open Node

/-- In a script, as it is read and as it is instrumented, no `else` follows a consequent that would take
it. -/
lemma keepsElse_versions {text : String} {n : Node} (h : parse text = .ok n) (o : Options) {tree : Node}
    (htree : tree ∈ o.versions n) : tree.Everywhere KeepsElse := by
  refine ((placedIn_versions h o tree htree).mono fun s m hm => ?_).everywhere
  cases m with
  | conditionalStatement => exact hm
  | _ => trivial

/-- No `else` dangles.  In every script that is read, and after it is instrumented, no `else` follows a
consequent whose last statement is an `if` without one.  So the code of every statement, which adds no
braces, can be read in one way only, and every `else` in it belongs to the same `if` as in the tree. -/
theorem else_belongs_to_nearest_if {text : String} {n : Node} (h : parse text = .ok n) (o : Options)
    {tree : Node} (htree : tree ∈ o.versions n) {m : Node} (hm : m ∈ tree.walk) :
    (∀ test consequent alternate, m = .conditionalStatement test consequent (some alternate) →
        consequent.endsOpen = false) ∧
      m.steps = m.marks.flatMap Mark.steps ∧
      ∀ statement rest, Attaches m.marks statement rest ↔ statement = m ∧ rest = [] := by
  have hkeeps : m.Everywhere KeepsElse := (keepsElse_versions h o htree).below m hm
  have hattaches : Attaches m.marks m [] := by
    have hmarks : Attaches (m.marks ++ []) m [] := attaches_marks hkeeps fun _ => by simp
    rwa [List.append_nil] at hmarks
  refine ⟨?_, steps_eq_marks m, fun statement rest => ⟨fun hread => hread.unique hattaches, ?_⟩⟩
  · rintro test consequent alternate rfl
    exact hkeeps.root
  · rintro ⟨rfl, rfl⟩
    exact hattaches

/-- Three conditional statements inside each other.  The first `else` belongs to the second one, and the
last one takes none. -/
def nestedElseScript : String :=
  "if (a) x: while (b) if (c) d = 1; else function f() \x7b\x7d else for (e of f) if (e) g();"

/-- A conditional statement with an `else` after a labeled consequent. -/
def Node.isElseAfterLabel : Node → Bool
  | .conditionalStatement _ (.labeled _ _) (some _) => true
  | _ => false

theorem else_belongs_to_nearest_if_nested :
    ∃ n, parse nestedElseScript = .ok n ∧ ∃ m ∈ (({} : Options).instrumentTree n).1.walk,
      (∃ test label body alternate,
        m = .conditionalStatement test (.labeled label body) (some alternate) ∧
          (Node.labeled label body).endsOpen = false) ∧
      ∀ statement rest, Attaches m.marks statement rest ↔ statement = m ∧ rest = [] := by
  obtain ⟨n, hparse, hcheck⟩ := exists_of_parse_any
    (show (parse nestedElseScript).toOption.any (fun n =>
      (({} : Options).instrumentTree n).1.walk.any Node.isElseAfterLabel) = true by
        rw [show parse nestedElseScript = _ from parse_ofList _]
        decide +kernel)
  obtain ⟨m, hm, hlabel⟩ := List.any_eq_true.1 hcheck
  have htree : (({} : Options).instrumentTree n).1 ∈ ({} : Options).versions n := by
    simp [Options.versions]
  obtain ⟨hclosed, _, hread⟩ := else_belongs_to_nearest_if hparse {} htree hm
  refine ⟨n, hparse, m, hm, ?_, hread⟩
  unfold Node.isElseAfterLabel at hlabel
  split at hlabel
  · exact ⟨_, _, _, _, rfl, hclosed _ _ _ rfl⟩
  · cases hlabel

end BindingProxy
