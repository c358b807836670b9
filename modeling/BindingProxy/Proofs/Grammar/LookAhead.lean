import BindingProxy.Proofs.Grammar.Progress
import BindingProxy.Proofs.Grammar.Yields

/-!
# Looking ahead

Looking ahead leaves no trace.  The cursor stays where it is, whether what is read on trial succeeds
or is refused, and at whatever depth it is refused; on the level of single steps, going back to a
saved cursor and dropping the flaw undoes everything in between.  The rules of a depth call those of
the next one in the same way before and after looking ahead, and at the greatest depth nothing is
read at all.

The trial and what is read after it agree.  Where an arrow function is found ahead, its parameters
are read, and they end at an arrow on the same line; so the errors that could be reported between
the parameters and the body never are.
-/

namespace BindingProxy

/-! ### Steps between saving and going back -/

namespace ReadSession

/-- Steps that go back to every place that they save, and to no other. -/
inductive Balanced : List ReadStep → Prop where
  | nil : Balanced []
  | step {step : ReadStep} (hsave : step ≠ .save) (hrestore : step ≠ .restore) : Balanced [step]
  | lookAhead {steps : List ReadStep} (h : Balanced steps) : Balanced (.save :: steps ++ [.restore])
  | append {steps later : List ReadStep} (h : Balanced steps) (hlater : Balanced later) :
    Balanced (steps ++ later)

/-- The session after some steps. -/
def after (s : ReadSession) (steps : List ReadStep) : Option ReadSession :=
  steps.foldlM (fun s step => (s.step step).map Prod.fst) s

lemma after_cons (s : ReadSession) (step : ReadStep) (steps : List ReadStep) :
    s.after (step :: steps) = ((s.step step).map Prod.fst).bind fun s' => s'.after steps := rfl

lemma after_append (s : ReadSession) (steps later : List ReadStep) :
    s.after (steps ++ later) = (s.after steps).bind fun s' => s'.after later :=
  List.foldlM_append

/-- Balanced steps leave the saved cursors as they are. -/
lemma saved_of_after {steps : List ReadStep} (h : Balanced steps) {s s' : ReadSession}
    (hafter : s.after steps = some s') : s'.saved = s.saved := by
  induction h generalizing s s' with
  | nil =>
    cases hafter
    rfl
  | @step step hsave hrestore =>
    rw [after_cons] at hafter
    obtain ⟨s'', hmap, hnil⟩ := Option.bind_eq_some_iff.1 hafter
    obtain ⟨⟨_, flaw⟩, hstep, rfl⟩ := Option.map_eq_some_iff.1 hmap
    cases hnil
    cases step with
    | save => exact absurd rfl hsave
    | restore => exact absurd rfl hrestore
    | next =>
      obtain ⟨_, _, heq⟩ := Option.map_eq_some_iff.1 hstep
      cases heq
      rfl
    | _ =>
      cases hstep
      rfl
  | lookAhead _ ih =>
    rw [List.cons_append, after_cons, ReadSession.step, Option.map_some, Option.bind_some,
      after_append] at hafter
    obtain ⟨s'', hsteps, hback⟩ := Option.bind_eq_some_iff.1 hafter
    rw [after_cons, ReadSession.step, ih hsteps] at hback
    cases hback
    rfl
  | append _ _ ih ihlater =>
    rw [after_append] at hafter
    obtain ⟨s'', hsteps, hlater⟩ := Option.bind_eq_some_iff.1 hafter
    rw [ihlater hlater, ih hsteps]

/-- Looking ahead from a session without a flaw ends in that session. -/
lemma eq_of_after_lookAhead {steps : List ReadStep} (h : Balanced steps) {s s' : ReadSession}
    (hflaw : s.flaw = none)
    (hafter : s.after (.save :: steps ++ [.restore, .takeFlaw]) = some s') : s' = s := by
  rw [List.cons_append, after_cons, ReadSession.step, Option.map_some, Option.bind_some,
      after_append] at hafter
  obtain ⟨s'', hsteps, hback⟩ := Option.bind_eq_some_iff.1 hafter
  rw [after_cons, ReadSession.step, saved_of_after h hsteps] at hback
  cases hback
  cases s
  cases hflaw
  rfl

end ReadSession

/-! ### Readers that stay where they are -/

namespace Parse

variable {α β : Type} {p q : Parse α} {f : α → Parse β}

/-- Wherever `p` begins, it ends at the same cursor, and it refuses nothing. -/
def Stays (p : Parse α) : Prop :=
  ∀ c, (∃ a, p c = .ok a c) ∨ ∃ failure, p c = .fail failure ∧ ∀ e, failure ≠ .refused e

namespace Stays

lemma pure (a : α) : Stays (Pure.pure a) := fun _ => .inl ⟨a, rfl⟩

lemma bind (hp : Stays p) (hf : ∀ a, Stays (f a)) : Stays (p >>= f) := by
  intro c
  change (∃ b, andThen p f c = .ok b c) ∨ ∃ failure, andThen p f c = .fail failure ∧ _
  unfold andThen
  rcases hp c with ⟨a, hok⟩ | ⟨failure, hfail, hrefused⟩
  · rw [hok]
    exact hf a c
  · rw [hfail]
    exact .inr ⟨failure, rfl, hrefused⟩

lemma ite {b : Prop} [Decidable b] (hp : Stays p) (hq : Stays q) : Stays (if b then p else q) := by
  by_cases h : b
  · rwa [if_pos h]
  · rwa [if_neg h]

lemma kind : Stays Parse.kind := fun _ => .inl ⟨_, rfl⟩

lemma isAt (k : TokenKind) : Stays (Parse.isAt k) := fun _ => .inl ⟨_, rfl⟩

lemma peek : Stays Parse.peek := by
  intro c
  unfold Parse.peek
  cases c.next? with
  | none => exact .inr ⟨.unreadable, rfl, by rintro e ⟨⟩⟩
  | some reached => exact .inl ⟨_, rfl⟩

/-- Whatever is read on trial. -/
lemma lookAhead (p : Parse Bool) : Stays (Parse.lookAhead p) := by
  intro c
  unfold Parse.lookAhead
  cases p c with
  | ok answer c' => exact .inl ⟨answer, rfl⟩
  | fail failure =>
    cases failure with
    | refused e => exact .inl ⟨false, rfl⟩
    | unreadable => exact .inr ⟨.unreadable, rfl, by rintro e ⟨⟩⟩
    | stalled => exact .inr ⟨.stalled, rfl, by rintro e ⟨⟩⟩

end Stays

/-- From every cursor that is reached in a text, `p` gives an answer and stays there, or comes to a
token that cannot be read. -/
def StaysIn (text : String) (p : Parse α) : Prop :=
  ∀ c, Cursor.Reached text c →
    (∃ a, p c = .ok a c) ∨
      (p c = .fail .unreadable ∧ ∃ c', Cursor.Reached text c' ∧ c'.next? = none)

lemma Stays.staysIn (h : Stays p) (hp : Follows p) (text : String) : StaysIn text p := by
  intro c hc
  rcases h c with hok | ⟨failure, hfail, hrefused⟩
  · exact .inl hok
  · rcases hp.endsIn text c hc with ⟨a, c', hok, _⟩ | ⟨e, hrefuses⟩ | hstuck
    · rw [hok] at hfail
      cases hfail
    · rw [hrefuses] at hfail
      cases hfail
      exact absurd rfl (hrefused e)
    · exact .inr hstuck

end Parse

namespace Grammar

open Parse

variable {g : Grammar} (ctx : Context) {c c' : Cursor}

lemma stays_isModifier : Stays isModifier := Stays.peek.bind fun _ => .pure _

lemma stays_isFunctionAhead : Stays isFunctionAhead := Stays.peek.bind fun _ => .pure _

lemma stays_isLetDeclaration : Stays isLetDeclaration := Stays.peek.bind fun _ => .pure _

lemma stays_isDeclaration : Stays isDeclaration := by
  refine Stays.kind.bind fun k => ?_
  split
  · exact .pure _
  · exact .pure _
  · exact stays_isLetDeclaration
  · exact .pure _

lemma stays_isArrowAhead : Stays (isArrowAhead g ctx) :=
  Stays.kind.bind fun _ => .ite (Stays.peek.bind fun _ => .pure _)
    (.ite (.lookAhead _) (.pure _))

lemma stays_isAsyncArrowAhead : Stays (isAsyncArrowAhead g ctx) :=
  (Stays.isAt _).bind fun _ => .ite (.lookAhead _) (.pure _)

/-! ### What is found ahead is read -/

/-- An arrow at the cursor, on the line of the token before it. -/
def AtArrow (c : Cursor) : Prop :=
  c.token.kind = .punctuator .arrow ∧ c.token.afterLineBreak = false

/-- An arrow function from its body on. -/
def arrowBody (g : Grammar) (ctx : Context) (isAsync : Bool) (params : List Node) : Parse Node := do
  let inner := ctx.ofArrow isAsync
  if ← isAt (.punctuator .openBrace) then
    return .arrow params (← block g inner.allowIn) false isAsync
  else
    return .arrow params (← g.assignment inner) true isAsync

/-- The answer of a trial that ends at a token. -/
lemma atArrow_of_answer {answer : Bool} (h : answer = true)
    (heq : (c.token.kind == .punctuator .arrow && !c.token.afterLineBreak) = answer) : AtArrow c := by
  rw [h, Bool.and_eq_true, beq_iff_eq, Bool.not_eq_true'] at heq
  exact heq

/-- A trial that says yes has come to its end. -/
lemma exists_of_lookAhead {p : Parse Bool} (h : lookAhead p c = .ok true c') :
    c' = c ∧ ∃ next, p c = .ok true next := by
  unfold lookAhead at h
  split at h
  · next hok =>
    cases h
    exact ⟨rfl, _, hok⟩
  · cases h
  · cases h

/-- A name before a punctuator is read. -/
lemma name_eq_ok {next : Cursor} {flaw : Option Flaw} {p : Punctuator}
    (hname : c.token.kind.isName = true) (hnext : c.next? = some (next, flaw))
    (hkind : next.token.kind = .punctuator p) : name c = .ok c.token.value next := by
  rw [Cursor.flaw_of_next?_punctuator hnext hkind] at hnext
  change (if c.token.kind.isName = true then advance >>= fun _ => pure c.token.value
    else reject .nameExpected : Parse String) c = _
  rw [if_pos hname]
  exact bind_of_ok (advance_of_next? hnext)

/-- Where an arrow is found ahead, the parameters before it are read. -/
lemma exists_arrowParameters (h : isArrowAhead g ctx c = .ok true c') :
    c' = c ∧ ∃ params next, arrowParameters g ctx c = .ok params next ∧ AtArrow next := by
  obtain ⟨_, _, hkind, h⟩ := exists_of_bind_eq_ok h
  cases hkind
  by_cases hname : c.token.kind.isName = true
  · rw [if_pos hname] at h
    obtain ⟨t, _, hpeek, h⟩ := exists_of_bind_eq_ok h
    unfold peek at hpeek
    split at hpeek
    · cases hpeek
    next reached hnext =>
    cases hpeek
    obtain ⟨next, flaw⟩ := reached
    injection h with hanswer hcursor
    have harrow : AtArrow next := atArrow_of_answer rfl hanswer
    refine ⟨hcursor.symm, [.identifier c.token.value], next, ?_, harrow⟩
    change (if c.token.kind.isName = true then name >>= fun x => pure [.identifier x]
      else parameters g ctx : Parse (List Node)) c = _
    rw [if_pos hname, bind_of_ok (name_eq_ok hname hnext harrow.1)]
    rfl
  · rw [if_neg hname] at h
    have hparameters : arrowParameters g ctx c = parameters g ctx c := by
      change (if c.token.kind.isName = true then name >>= fun x => pure [.identifier x]
        else parameters g ctx : Parse (List Node)) c = _
      rw [if_neg hname]
    split at h
    · obtain ⟨hcursor, next, htrial⟩ := exists_of_lookAhead h
      obtain ⟨params, d, hread, htrial⟩ := exists_of_bind_eq_ok htrial
      obtain ⟨t, _, htoken, htrial⟩ := exists_of_bind_eq_ok htrial
      cases htoken
      injection htrial with hanswer
      exact ⟨hcursor, params, d, hparameters.trans hread, atArrow_of_answer rfl hanswer⟩
    · cases h

/-- Where an async arrow function is found ahead, `async` is passed and the parameters are read. -/
lemma exists_asyncArrowParameters (h : isAsyncArrowAhead g ctx c = .ok true c') :
    c' = c ∧ ∃ start params next, c.next? = some (start, none) ∧
      arrowParameters g ctx start = .ok params next ∧ AtArrow next := by
  obtain ⟨_, _, hat, h⟩ := exists_of_bind_eq_ok h
  cases hat
  split at h
  · obtain ⟨hcursor, next, htrial⟩ := exists_of_lookAhead h
    obtain ⟨_, start, hadvance, htrial⟩ := exists_of_bind_eq_ok htrial
    obtain ⟨_, _, hbreak, htrial⟩ := exists_of_bind_eq_ok htrial
    cases hbreak
    split at htrial
    · cases htrial
    · obtain ⟨_, params, next, hread, harrow⟩ := exists_arrowParameters ctx htrial
      exact ⟨hcursor, start, params, next, (Goes.advance.of_ok hadvance).2, hread, harrow⟩
  · cases h

/-- After its parameters and the arrow, an arrow function is read from its body on. -/
lemma arrowFunction_eq {params : List Node} {next : Cursor} (isAsync : Bool)
    (hread : arrowParameters g ctx c = .ok params next) (harrow : AtArrow next) :
    arrowFunction g ctx isAsync c =
      (advance >>= fun _ => arrowBody g ctx isAsync params) next := by
  rw [arrowFunction, bind_of_ok hread]
  change (if next.token.afterLineBreak = true then _ else expect .arrow >>= _ : Parse Node) next = _
  rw [harrow.2, if_neg (by simp)]
  cases hadvance : advance next with
  | ok _ body =>
    rw [bind_of_ok ((expect_of_at harrow.1).trans hadvance), bind_of_ok hadvance]
    rfl
  | fail failure =>
    rw [bind_of_fail ((expect_of_at harrow.1).trans hadvance), bind_of_fail hadvance]

/-- What is decided at a cursor: no arrow function begins here and the cursor stays, or a token ahead
cannot be read, or the parameters are read up to an arrow on their line and the body follows it. -/
lemma arrowFunction?_cases (c : Cursor) :
    arrowFunction? g ctx c = .ok none c ∨
      (∃ failure, arrowFunction? g ctx c = .fail failure ∧ ∀ e, failure ≠ .refused e) ∨
      ∃ isAsync start params next,
        (if isAsync = true then c.next? = some (start, none) else start = c) ∧
        arrowParameters g ctx start = .ok params next ∧ AtArrow next ∧
        arrowFunction? g ctx c =
          (some <$> (advance >>= fun _ => arrowBody g ctx isAsync params)) next := by
  rcases stays_isAsyncArrowAhead (g := g) ctx c with ⟨answer, hasync⟩ | ⟨failure, hfail, hrefused⟩
  swap
  · exact .inr (.inl ⟨failure, bind_of_fail hfail, hrefused⟩)
  rw [arrowFunction?, bind_of_ok hasync]
  cases answer with
  | true =>
    obtain ⟨_, start, params, next, hnext, hread, harrow⟩ := exists_asyncArrowParameters ctx hasync
    refine .inr (.inr ⟨true, start, params, next, hnext, hread, harrow, ?_⟩)
    rw [if_pos rfl, bind_of_ok (advance_of_next? hnext)]
    exact bind_eq_of_eq (arrowFunction_eq ctx true hread harrow) _
  | false =>
    rw [if_neg (by simp)]
    rcases stays_isArrowAhead (g := g) ctx c with ⟨answer, hahead⟩ | ⟨failure, hfail, hrefused⟩
    swap
    · exact .inr (.inl ⟨failure, bind_of_fail hfail, hrefused⟩)
    rw [bind_of_ok hahead]
    cases answer with
    | true =>
      obtain ⟨_, params, next, hread, harrow⟩ := exists_arrowParameters ctx hahead
      refine .inr (.inr ⟨false, c, params, next, rfl, hread, harrow, ?_⟩)
      rw [if_pos rfl]
      exact bind_eq_of_eq (arrowFunction_eq ctx false hread harrow) _
    | false => exact .inl rfl

/-! ### Depths -/

/-- The rules at a depth of nesting; a script is read at depth zero. -/
def atDepth (depth : Nat) : Grammar := level (maxNesting - depth)

lemma atDepth_eq_above {depth : Nat} (h : depth < maxNesting) :
    atDepth depth = (atDepth (depth + 1)).above := by
  obtain ⟨n, hn⟩ : ∃ n, maxNesting - depth = n + 1 := ⟨maxNesting - depth - 1, by omega⟩
  rw [atDepth, atDepth, hn, Nat.sub_add_eq, hn]
  rfl

lemma atDepth_eq_exhausted {depth : Nat} (h : maxNesting ≤ depth) : atDepth depth = exhausted := by
  rw [atDepth, Nat.sub_eq_zero_of_le h]
  rfl

end Grammar

end BindingProxy
