import BindingProxy.Grammar.Parse
import BindingProxy.Proofs.Token.Moves
import Mathlib.Tactic.Lemma

/-!
# Readers that advance

`Goes p c Q` says what the reader `p` can come to from a cursor: a value and a cursor that satisfy
`Q` together, or a failure, but never for want of turns.  It gets stuck only where a token that it
moves to cannot be read, and what it refuses is a token that it moves to or a flaw that it meets
there.  Two cases are used.  A reader that `Follows` ends where some moves lead
from its beginning, and a reader that `Advances` is past the token that it began at.

A repetition has two more turns than there are characters left.  If every turn that asks for another
one advances, they are enough.
-/

namespace BindingProxy

open Relation (ReflTransGen)

/-- The tokens that an expression can end with, as far as it matters here. -/
def TokenKind.CanClose (k : TokenKind) : Prop := k ≠ .punctuator .semicolon ∧ k ≠ .endOfText

instance (k : TokenKind) : Decidable k.CanClose := inferInstanceAs (Decidable (_ ∧ _))

lemma TokenKind.canClose_of_isName {k : TokenKind} (h : k.isName = true) : k.CanClose := by
  constructor <;> rintro rfl <;> cases h

lemma TokenKind.canClose_of_isWord {k : TokenKind} (h : k.isWord = true) : k.CanClose := by
  constructor <;> rintro rfl <;> cases h

namespace Cursor

/-- An error about what is met at a cursor: its token, or a flaw in the next token or in the current
one as it is read again. -/
inductive Refuses (c : Cursor) : SyntaxError → Prop where
  | token (cause : SyntaxCause) : Refuses c ⟨cause, c.token.span⟩
  | next {c' : Cursor} {flaw : Flaw} (h : c.next? = some (c', some flaw)) :
    Refuses c ⟨.flawed flaw.cause, .point flaw.offset⟩
  | slash {c' : Cursor} {flaw : Flaw} (h : c.rereadSlash = (c', some flaw)) :
    Refuses c ⟨.flawed flaw.cause, .point flaw.offset⟩
  | brace {c' : Cursor} {flaw : Flaw} (h : c.rereadBrace = (c', some flaw)) :
    Refuses c ⟨.flawed flaw.cause, .point flaw.offset⟩

/-- A failure to which moves from a cursor lead: never for want of turns, only where the next token
cannot be read, and with an error about what is met. -/
def Fails (c : Cursor) : ParseFailure → Prop
  | .stalled => False
  | .unreadable => ∃ c', ReflTransGen Moves c c' ∧ c'.next? = none
  | .refused e => ∃ c', ReflTransGen Moves c c' ∧ c'.Refuses e

lemma Fails.of_moves {c c' : Cursor} {failure : ParseFailure} (h : c'.Fails failure)
    (hmoves : ReflTransGen Moves c c') : c.Fails failure := by
  cases failure with
  | stalled => exact h
  | unreadable =>
    obtain ⟨d, hd, hstuck⟩ := h
    exact ⟨d, hmoves.trans hd, hstuck⟩
  | refused e =>
    obtain ⟨d, hd, hrefuses⟩ := h
    exact ⟨d, hmoves.trans hd, hrefuses⟩

/-- On a way from `b`, a token that can close an expression stands just before `c`. -/
def Closed (b c : Cursor) : Prop :=
  ∃ before, ReflTransGen Moves b before ∧ before.next? = some (c, none) ∧ before.token.kind.CanClose

namespace Closed

variable {b b' c : Cursor}

lemma moves (h : b.Closed c) : ReflTransGen Moves b c := by
  obtain ⟨before, hmoves, hnext, _⟩ := h
  exact hmoves.tail (.next hnext)

lemma passes (h : b.Closed c) (hb : b.AtToken) : b.Passes c := by
  obtain ⟨before, hmoves, hnext, hkind⟩ := h
  exact .of_moves hb hmoves (.next? hkind.2 hnext)

lemma of_moves (hmoves : ReflTransGen Moves b b') (h : b'.Closed c) : b.Closed c := by
  obtain ⟨before, hmoves', hnext, hkind⟩ := h
  exact ⟨before, hmoves.trans hmoves', hnext, hkind⟩

end Closed

end Cursor

namespace Parse

variable {α β σ ρ : Type}

/-- A sequence whose first part gives a value. -/
lemma bind_of_ok {p : Parse α} {f : α → Parse β} {c c' : Cursor} {a : α} (h : p c = .ok a c') :
    (p >>= f) c = f a c' := by
  change andThen p f c = f a c'
  rw [andThen, h]

/-- A sequence whose first part fails. -/
lemma bind_of_fail {p : Parse α} {f : α → Parse β} {c : Cursor} {failure : ParseFailure}
    (h : p c = .fail failure) : (p >>= f) c = .fail failure := by
  change andThen p f c = .fail failure
  rw [andThen, h]

/-- A sequence depends on its first part only through what it comes to. -/
lemma bind_eq_of_eq {p q : Parse α} {c d : Cursor} (h : p c = q d) (f : α → Parse β) :
    (p >>= f) c = (q >>= f) d := by
  change andThen p f c = andThen q f d
  rw [andThen, andThen, h]

instance : LawfulMonad Parse := LawfulMonad.mk' Parse
  (fun p => by
    funext c
    cases hread : p c with
    | ok a c' => exact bind_of_ok hread
    | fail failure => exact bind_of_fail hread)
  (fun _ _ => rfl)
  (fun p f g => by
    funext c
    cases hread : p c with
    | ok a c' => rw [bind_eq_of_eq (bind_of_ok hread : (p >>= f) c = f a c'), bind_of_ok hread]
    | fail failure => rw [bind_of_fail (bind_of_fail hread), bind_of_fail hread])

lemma advance_of_next? {c c' : Cursor} (h : c.next? = some (c', none)) : advance c = .ok () c' := by
  rw [advance, h]
  rfl

lemma token_bind {f : Token → Parse β} (c : Cursor) : (token >>= f) c = f c.token c := rfl

lemma kind_bind {f : TokenKind → Parse β} (c : Cursor) : (kind >>= f) c = f c.token.kind c := rfl

section

variable {p : Punctuator} {f : Bool → Parse β} {c : Cursor}

lemma afterLineBreak_bind (c : Cursor) :
    (afterLineBreak >>= f) c = f c.token.afterLineBreak c := rfl

lemma isAt_bind {k : TokenKind} (c : Cursor) :
    (isAt k >>= f) c = f (c.token.kind == k) c := rfl

lemma accept_of_at (h : c.token.kind = .punctuator p) :
    accept p c = (advance >>= fun _ => pure true) c := by
  rw [accept, isAt_bind, h, beq_self_eq_true, if_pos rfl]

lemma accept_of_not (h : c.token.kind ≠ .punctuator p) : accept p c = .ok false c := by
  rw [accept, isAt_bind, beq_eq_false_iff_ne.2 h]
  rfl

lemma accept_bind_of_at (h : c.token.kind = .punctuator p) :
    (accept p >>= f) c = (advance >>= fun _ => f true) c := by
  rw [bind_eq_of_eq (accept_of_at h), bind_assoc]
  rfl

lemma accept_bind_of_not (h : c.token.kind ≠ .punctuator p) : (accept p >>= f) c = f false c :=
  bind_of_ok (accept_of_not h)

lemma expect_of_at (h : c.token.kind = .punctuator p) : expect p c = advance c := by
  cases hadvance : advance c with
  | ok _ c' =>
    have haccept : accept p c = .ok true c' := (accept_of_at h).trans (bind_of_ok hadvance)
    exact bind_of_ok haccept
  | fail failure => exact bind_of_fail ((accept_of_at h).trans (bind_of_fail hadvance))

lemma expect_of_not (h : c.token.kind ≠ .punctuator p) :
    expect p c = .fail (.refused ⟨.expected p.text, c.token.span⟩) :=
  bind_of_ok (accept_of_not h)

end

/-- From `c`, `p` moves to a cursor that satisfies `Q` together with the value that it gives, or it
fails. -/
def Goes (p : Parse α) (c : Cursor) (Q : α → Cursor → Prop) : Prop :=
  match p c with
  | .ok a c' => ReflTransGen Cursor.Moves c c' ∧ Q a c'
  | .fail failure => c.Fails failure

/-- From every token, `p` makes some moves. -/
def Follows (p : Parse α) : Prop :=
  ∀ c : Cursor, c.AtToken → Goes p c fun _ c' => ReflTransGen Cursor.Moves c c'

/-- From the token at `c`, `p` moves past it. -/
abbrev AdvancesAt (p : Parse α) (c : Cursor) : Prop := Goes p c fun _ c' => c.Passes c'

/-- From every token, `p` moves past it. -/
def Advances (p : Parse α) : Prop := ∀ c : Cursor, c.AtToken → AdvancesAt p c

namespace Goes

variable {p : Parse α} {f : α → Parse β} {c : Cursor} {Q Q' : α → Cursor → Prop}
  {R : β → Cursor → Prop} {cause : SyntaxCause} {k : TokenKind} {q r : Parse β}

/-- Only what a reader does at the cursor matters. -/
lemma congr {q : Parse α} (h : p c = q c) (hq : Goes q c Q) : Goes p c Q := by
  rw [Goes, h]
  exact hq

lemma of_ok (h : Goes p c Q) {a : α} {c' : Cursor} (hok : p c = .ok a c') :
    ReflTransGen Cursor.Moves c c' ∧ Q a c' := by
  rw [Goes, hok] at h
  exact h

lemma fails (h : Goes p c Q) {failure : ParseFailure} (hfail : p c = .fail failure) :
    c.Fails failure := by
  rw [Goes, hfail] at h
  exact h

lemma of_fail (h : Goes p c Q) {failure : ParseFailure} (hfail : p c = .fail failure) :
    (∃ e, failure = .refused e) ∨
      failure = .unreadable ∧ ∃ c', ReflTransGen Cursor.Moves c c' ∧ c'.next? = none := by
  cases failure with
  | refused e => exact .inl ⟨e, rfl⟩
  | unreadable => exact .inr ⟨rfl, h.fails hfail⟩
  | stalled => exact (h.fails hfail).elim

lemma ne_stalled (h : Goes p c Q) : p c ≠ .fail .stalled := h.fails

lemma mono (h : Goes p c Q) (hQ : ∀ a c', Q a c' → Q' a c') : Goes p c Q' := by
  unfold Goes
  split
  · next hok => exact ⟨(h.of_ok hok).1, hQ _ _ (h.of_ok hok).2⟩
  · next hfail => exact h.fails hfail

lemma and_moves (h : Goes p c Q) : Goes p c fun a c' => ReflTransGen Cursor.Moves c c' ∧ Q a c' := by
  unfold Goes
  split
  · next hok => exact ⟨(h.of_ok hok).1, h.of_ok hok⟩
  · next hfail => exact h.fails hfail

lemma pure {a : α} (h : Q a c) : Goes (Pure.pure a) c Q := ⟨.refl, h⟩

lemma reject : Goes (Parse.reject cause) c Q := ⟨c, .refl, .token cause⟩

lemma bind (hp : Goes p c Q) (hf : ∀ a c', Q a c' → Goes (f a) c' R) : Goes (p >>= f) c R := by
  change Goes (andThen p f) c R
  unfold Goes andThen
  cases hread : p c with
  | fail failure => exact hp.fails hread
  | ok a c' =>
    obtain ⟨hmoves, hQ⟩ := hp.of_ok hread
    have hlater := hf a c' hQ
    split
    · next hok => exact ⟨hmoves.trans (hlater.of_ok hok).1, (hlater.of_ok hok).2⟩
    · next hfail => exact (hlater.fails hfail).of_moves hmoves

lemma map {f : α → β} (hp : Goes p c fun a c' => R (f a) c') : Goes (f <$> p) c R :=
  bind hp fun _ _ h => pure h

lemma ite {b : Prop} [Decidable b] {q : Parse α} (hp : b → Goes p c Q) (hq : ¬ b → Goes q c Q) :
    Goes (if b then p else q) c Q := by
  by_cases h : b
  · rw [if_pos h]
    exact hp h
  · rw [if_neg h]
    exact hq h

/-- A sequence that fails in its first part. -/
lemma rejectThen : Goes (Parse.reject cause >>= f) c R :=
  bind (Q := fun _ _ => False) reject fun _ _ h => h.elim

/-! ### Readers that look at the current token -/

lemma kind {f : TokenKind → Parse β} (h : Goes (f c.token.kind) c R) : Goes (Parse.kind >>= f) c R :=
  h

lemma token {f : Token → Parse β} (h : Goes (f c.token) c R) : Goes (Parse.token >>= f) c R := h

lemma isAt {f : Bool → Parse β} (h : Goes (f (c.token.kind == k)) c R) :
    Goes (Parse.isAt k >>= f) c R := h

/-- A choice by whether the current token is of a kind. -/
lemma ifAt (hq : c.token.kind = k → Goes q c R)
    (hr : c.token.kind ≠ k → Goes r c R) :
    Goes (Parse.isAt k >>= fun b => if b = true then q else r) c R :=
  isAt (ite (fun h => hq (beq_iff_eq.1 h)) fun h => hr fun hkind => h (beq_iff_eq.2 hkind))

lemma moveTo (reached : Cursor × Option Flaw) (h : ∀ c', reached = (c', none) → c.Moves c')
    (hflaw : ∀ c' flaw, reached = (c', some flaw) →
      c.Refuses ⟨.flawed flaw.cause, .point flaw.offset⟩) :
    Goes (Parse.moveTo reached) c fun _ c' => reached = (c', none) := by
  obtain ⟨c', flaw⟩ := reached
  cases flaw with
  | none => exact ⟨.single (h c' rfl), rfl⟩
  | some flaw => exact ⟨c, .refl, hflaw c' flaw rfl⟩

lemma advance : Goes Parse.advance c fun _ c' => c.next? = some (c', none) := by
  unfold Goes Parse.advance
  cases hnext : c.next? with
  | none => exact ⟨c, .refl, hnext⟩
  | some reached =>
    have hmove : ∀ c', reached = (c', none) → c.Moves c' := fun c' h => .next (h ▸ hnext)
    have hrefuse : ∀ c' flaw, reached = (c', some flaw) →
        c.Refuses ⟨.flawed flaw.cause, .point flaw.offset⟩ := fun c' flaw h => .next (h ▸ hnext)
    exact (moveTo reached hmove hrefuse).mono fun _ _ h => congrArg some h

lemma rereadSlash : Goes Parse.rereadSlash c fun _ c' => c.rereadSlash = (c', none) :=
  moveTo c.rereadSlash (fun _ => .slash) fun _ _ => .slash

lemma rereadBrace : Goes Parse.rereadBrace c fun _ c' => c.rereadBrace = (c', none) :=
  moveTo c.rereadBrace (fun _ => .brace) fun _ _ => .brace

/-- Taking a token of a kind if it stands here. -/
lemma take (hk : k ≠ .endOfText) :
    Goes (Parse.isAt k >>= fun b =>
      if b = true then Parse.advance >>= fun _ => Pure.pure true else Pure.pure false) c
      fun taken c' => if taken = true then c.Passes c' else c' = c := by
  refine ifAt (fun hkind => bind advance fun _ c' hnext => pure ?_) fun _ => pure (by simp)
  rw [if_pos rfl]
  exact .next? (hkind ▸ hk) hnext

/-- A choice by whether a token has been taken. -/
lemma ifTaken {p : Parse Bool}
    (hp : Goes p c fun taken c' => if taken = true then c.Passes c' else c' = c)
    (hq : ∀ c', c.Passes c' → Goes q c' R) (hr : Goes r c R) :
    Goes (p >>= fun b => if b = true then q else r) c R := by
  refine hp.bind fun taken c' h => ?_
  cases taken with
  | true => exact hq c' h
  | false =>
    obtain rfl : c' = c := h
    exact hr

lemma ifAccept {p : Punctuator} (hq : ∀ c', c.Passes c' → Goes q c' R) (hr : Goes r c R) :
    Goes (Parse.accept p >>= fun b => if b = true then q else r) c R :=
  ifTaken (take (by rintro ⟨⟩)) hq hr

lemma ifAcceptWord {w : ReservedWord} (hq : ∀ c', c.Passes c' → Goes q c' R) (hr : Goes r c R) :
    Goes (Parse.acceptWord w >>= fun b => if b = true then q else r) c R :=
  ifTaken (take (by rintro ⟨⟩)) hq hr

end Goes

/-! ### Following and advancing -/

section

variable {p q : Parse α} {f : α → Parse β} {c : Cursor} {cause : SyntaxCause} {b : Prop}
  [Decidable b]

lemma Advances.follows (h : Advances p) : Follows p :=
  fun c hc => (h c hc).mono fun _ _ hpasses => hpasses.moves

namespace Follows

lemma pure (a : α) : Follows (Pure.pure a) := fun _ _ => Goes.pure .refl

lemma reject : Follows (Parse.reject cause : Parse α) :=
  fun _ _ => Goes.reject

lemma bind (hp : Follows p) (hf : ∀ a, Follows (f a)) : Follows (p >>= f) := fun c hc =>
  (hp c hc).bind fun a c' hmoves =>
    (hf a c' (hc.follows hmoves).atToken).mono fun _ _ hlater => hmoves.trans hlater

lemma map {f : α → β} (hp : Follows p) : Follows (f <$> p) := hp.bind fun _ => .pure _

lemma thenPure {f : α → β} (hp : Follows p) : Follows (p >>= fun a => Pure.pure (f a)) := hp.map

lemma ite (hp : Follows p) (hq : Follows q) : Follows (if b then p else q) :=
  fun c hc => .ite (fun _ => hp c hc) fun _ => hq c hc

lemma kind : Follows Parse.kind := fun _ _ => ⟨.refl, .refl⟩

lemma token : Follows Parse.token := fun _ _ => ⟨.refl, .refl⟩

lemma afterLineBreak : Follows Parse.afterLineBreak := fun _ _ => ⟨.refl, .refl⟩

lemma isAt (k : TokenKind) : Follows (Parse.isAt k) := fun _ _ => ⟨.refl, .refl⟩

lemma advance : Follows Parse.advance :=
  fun _ _ => Goes.advance.mono fun _ _ hnext => .single (.next hnext)

lemma canEnd : Follows Parse.canEnd := fun _ _ => ⟨.refl, .refl⟩

lemma accept (p : Punctuator) : Follows (Parse.accept p) :=
  (isAt _).bind fun _ => .ite advance.thenPure (.pure _)

lemma acceptWord (w : ReservedWord) : Follows (Parse.acceptWord w) :=
  (isAt _).bind fun _ => .ite advance.thenPure (.pure _)

lemma endStatement : Follows Parse.endStatement :=
  (accept _).bind fun _ => .ite (.pure _) (canEnd.bind fun _ => .ite (.pure _) .reject)

lemma rereadBrace : Follows Parse.rereadBrace := fun _ _ =>
  Goes.rereadBrace.mono fun _ _ h => .single (.brace h)

lemma peek : Follows Parse.peek := by
  intro c _
  unfold Goes Parse.peek
  cases hnext : c.next? with
  | none => exact ⟨c, .refl, hnext⟩
  | some reached => exact ⟨.refl, .refl⟩

lemma lookAhead {p : Parse Bool} (hp : Follows p) : Follows (Parse.lookAhead p) := by
  intro c hc
  unfold Goes Parse.lookAhead
  cases hread : p c with
  | ok answer c' => exact ⟨.refl, .refl⟩
  | fail failure =>
    cases failure with
    | refused => exact ⟨.refl, .refl⟩
    | unreadable => exact (hp c hc).fails hread
    | stalled => exact (hp c hc).fails hread

end Follows

/-- What follows after the current token has been passed. -/
lemma Follows.past {c' : Cursor} (hp : Follows p) (hc : c.AtToken) (h : c.Passes c') :
    Goes p c' fun _ c'' => c.Passes c'' :=
  (hp c' (h.atToken hc)).mono fun _ _ hmoves => h.then_moves hc hmoves

/-- What advances first may do what it likes afterwards. -/
lemma advancesAt_bind (hp : AdvancesAt p c) (hc : c.AtToken) (hf : ∀ a, Follows (f a)) :
    AdvancesAt (p >>= f) c :=
  hp.bind fun a _ hpasses => (hf a).past hc hpasses

namespace Advances

lemma reject : Advances (Parse.reject cause : Parse α) :=
  fun _ _ => Goes.reject

lemma bind (hp : Advances p) (hf : ∀ a, Follows (f a)) : Advances (p >>= f) :=
  fun c hc => advancesAt_bind (hp c hc) hc hf

lemma thenPure {f : α → β} (hp : Advances p) : Advances (p >>= fun a => Pure.pure (f a)) :=
  hp.bind fun _ => .pure _

/-- What advances in the end may do what it likes before. -/
lemma after (hp : Follows p) (hf : ∀ a, Advances (f a)) : Advances (p >>= f) := fun c hc =>
  (hp c hc).bind fun a c' hmoves =>
    (hf a c' (hc.follows hmoves).atToken).mono fun _ _ hpasses => .of_moves hc hmoves hpasses

lemma ite (hp : Advances p) (hq : Advances q) :
    Advances (if b then p else q) :=
  fun c hc => .ite (fun _ => hp c hc) fun _ => hq c hc

end Advances

/-- Passing the current token, whatever follows. -/
lemma advancesAt_advance {f : Unit → Parse β} (hc : c.AtToken) (hkind : c.token.kind ≠ .endOfText)
    (hf : Follows (f ())) : AdvancesAt (advance >>= f) c :=
  Goes.advance.bind fun _ _ hnext => hf.past hc (.next? hkind hnext)

lemma advances_expect (p : Punctuator) : Advances (expect p) := fun _ _ =>
  .ifAccept (fun _ hpasses => .pure hpasses) .reject

lemma Follows.expect (p : Punctuator) : Follows (expect p) := (advances_expect p).follows

lemma advances_expectWord (w : ReservedWord) : Advances (expectWord w) := fun _ _ =>
  .ifAcceptWord (fun _ hpasses => .pure hpasses) .reject

lemma Follows.expectWord (w : ReservedWord) : Follows (expectWord w) :=
  (advances_expectWord w).follows

end

/-! ### Closing an expression -/

/-- What `p` reads from `c` ends just after a token that can close an expression. -/
abbrev ClosesAt (p : Parse α) (c : Cursor) : Prop := Goes p c fun _ c' => c.Closed c'

/-- What `p` reads ends just after a token that can close an expression. -/
def Closes (p : Parse α) : Prop := ∀ c : Cursor, c.AtToken → ClosesAt p c

/-- After such a token, what `p` reads ends after such a token too. -/
def StaysClosed (p : Parse α) : Prop :=
  ∀ b c : Cursor, b.AtToken → b.Closed c → Goes p c fun _ c' => b.Closed c'

section

variable {p q : Parse α} {f : α → Parse β} {c : Cursor} {cause : SyntaxCause} {b : Prop}
  [Decidable b]

lemma closesAt_bind (hp : ClosesAt p c) (hc : c.AtToken) (hf : ∀ a, StaysClosed (f a)) :
    ClosesAt (p >>= f) c :=
  hp.bind fun a c' hclosed => hf a c c' hc hclosed

/-- A token that is passed at the end. -/
lemma closesAt_advance {f : Unit → Parse β} (hc : c.AtToken) (hkind : c.token.kind.CanClose)
    (hf : StaysClosed (f ())) : ClosesAt (advance >>= f) c :=
  Goes.advance.bind fun _ c' hnext => hf c c' hc ⟨c, .refl, hnext, hkind⟩

namespace Closes

lemma advances (h : Closes p) : Advances p :=
  fun c hc => (h c hc).mono fun _ _ hclosed => hclosed.passes hc

lemma follows (h : Closes p) : Follows p := h.advances.follows

lemma staysClosed (h : Closes p) : StaysClosed p := fun _ c hb hclosed =>
  (h c (hb.follows hclosed.moves).atToken).mono fun _ _ => .of_moves hclosed.moves

lemma reject : Closes (Parse.reject cause : Parse α) :=
  fun _ _ => Goes.reject

lemma unexpected : Closes (Parse.unexpected : Parse α) := fun _ _ =>
  .token (.ite (fun _ => .reject) fun _ => .reject)

lemma bind (hp : Closes p) (hf : ∀ a, StaysClosed (f a)) : Closes (p >>= f) :=
  fun c hc => closesAt_bind (hp c hc) hc hf

lemma thenPure {f : α → β} (hp : Closes p) : Closes (p >>= fun a => Pure.pure (f a)) :=
  hp.bind fun _ _ _ _ hclosed => .pure hclosed

/-- What only moves may come first. -/
lemma after (hp : Follows p) (hf : ∀ a, Closes (f a)) : Closes (p >>= f) := fun c hc =>
  (hp c hc).bind fun a c' hmoves =>
    (hf a c' (hc.follows hmoves).atToken).mono fun _ _ => .of_moves hmoves

lemma ite (hp : Closes p) (hq : Closes q) : Closes (if b then p else q) :=
  fun c hc => .ite (fun _ => hp c hc) fun _ => hq c hc

end Closes

namespace StaysClosed

lemma pure (a : α) : StaysClosed (Pure.pure a) := fun _ _ _ hclosed => .pure hclosed

lemma reject : StaysClosed (Parse.reject cause : Parse α) :=
  fun _ _ _ _ => .reject

lemma bind (hp : StaysClosed p) (hf : ∀ a, StaysClosed (f a)) : StaysClosed (p >>= f) :=
  fun b c hb hclosed => (hp b c hb hclosed).bind fun a c' => hf a b c' hb

lemma ite (hp : StaysClosed p) (hq : StaysClosed q) : StaysClosed (if b then p else q) :=
  fun b c hb hclosed => .ite (fun _ => hp b c hb hclosed) fun _ => hq b c hb hclosed

/-- What follows a token that is accepted closes the expression anew. -/
lemma ifAccept {k : Punctuator} (hp : Closes p) (hq : StaysClosed q) :
    StaysClosed (do if ← accept k then p else q) := fun b c hb hclosed =>
  have hc := (hb.follows hclosed.moves).atToken
  .ifAccept (fun c' hpasses => (hp c' (hpasses.atToken hc)).mono fun _ _ =>
    .of_moves (hclosed.moves.trans hpasses.moves)) (hq b c hb hclosed)

lemma kind {f : TokenKind → Parse β} (h : ∀ k, StaysClosed (f k)) : StaysClosed (Parse.kind >>= f) :=
  fun b c hb hclosed => .kind (h _ b c hb hclosed)

lemma isAt {k : TokenKind} {f : Bool → Parse β} (h : ∀ a, StaysClosed (f a)) :
    StaysClosed (Parse.isAt k >>= f) :=
  fun b c hb hclosed => .isAt (h _ b c hb hclosed)

/-- A token that is passed, after what is closed already. -/
lemma advance {b : Cursor} (hb : b.AtToken) (hclosed : b.Closed c) (hkind : c.token.kind.CanClose)
    {f : Unit → Parse β} (hf : StaysClosed (f ())) :
    Goes (Parse.advance >>= f) c fun _ c' => b.Closed c' :=
  (closesAt_advance (hb.follows hclosed.moves).atToken hkind hf).mono fun _ _ => .of_moves hclosed.moves

end StaysClosed

lemma closes_expect {p : Punctuator} (hp : p ≠ .semicolon) : Closes (expect p) := by
  intro c _
  by_cases hkind : c.token.kind = .punctuator p
  · refine .congr (expect_of_at hkind) (Goes.advance.mono fun _ c' hnext => ⟨c, .refl, hnext, ?_⟩)
    rw [hkind]
    exact ⟨by simpa using hp, by rintro ⟨⟩⟩
  · exact .congr (expect_of_not hkind) .reject

lemma closes_name : Closes name := fun _ hc =>
  .token (.ite (fun h => closesAt_advance hc (TokenKind.canClose_of_isName h) (.pure _)) fun _ => .reject)

lemma closes_word : Closes word := fun _ hc =>
  .token (.ite (fun h => closesAt_advance hc (TokenKind.canClose_of_isWord h) (.pure _)) fun _ => .reject)

lemma advances_name : Advances name := closes_name.advances

lemma advances_word : Advances word := closes_word.advances

lemma advances_unexpected : Advances (unexpected : Parse α) := Closes.unexpected.advances

end

/-! ### Repetition -/

/-- What a turn has to do: it is past its first token, or it is the last one. -/
def Turn.Onward (c : Cursor) : Turn σ ρ → Cursor → Prop
  | .again _, c' => c.Passes c'
  | .done _, c' => ReflTransGen Cursor.Moves c c'

/-- A turn that advances. -/
lemma AdvancesAt.onward {p : Parse (Turn σ ρ)} {c : Cursor} (h : AdvancesAt p c) :
    Goes p c (Turn.Onward c) := by
  refine h.mono fun t c' hpasses => ?_
  cases t with
  | again => exact hpasses
  | done => exact hpasses.moves

/-- A turn that is the last one. -/
lemma Turn.onward_done {c : Cursor} (r : ρ) : (Turn.done r : Turn σ ρ).Onward c c := .refl

/-- A number of turns that is enough from a cursor on. -/
def Suffices (bound : List Char) (c : Cursor) : Prop :=
  1 ≤ bound.length ∧ (c.token.kind ≠ .endOfText → c.rest.length + 2 ≤ bound.length)

lemma suffices_tokenBound (c : Cursor) : Suffices (tokenBound c) c := by
  simp [Suffices, tokenBound]

/-- Past the current token one turn less is enough. -/
lemma Suffices.passes {x : Char} {bound : List Char} {c c' : Cursor} (h : Suffices (x :: bound) c)
    (hc : c.AtToken) (hpasses : c.Passes c') : Suffices bound c' := by
  have hbound := h.2 hpasses.not_end
  have hbeyond := hpasses.beyond.length_le
  simp only [List.length_cons] at hbound
  refine ⟨by omega, fun hkind => ?_⟩
  have htext : c'.token.text.toList ≠ [] :=
    fun hnil => (hpasses.atToken hc).text_ne hkind (String.toList_eq_nil_iff.1 hnil)
  have hpos := List.length_pos_iff.2 htext
  rw [Cursor.ahead, List.length_append] at hbeyond
  omega

variable {turn : σ → Parse (Turn σ ρ)}

/-- What a turn has to do that keeps `I` and ends with `D`. -/
def Turn.GoesOn (I D : Cursor → Prop) (c : Cursor) : Turn σ ρ → Cursor → Prop
  | .again _, c' => c.Passes c' ∧ I c'
  | .done _, c' => D c'

/-- If every turn goes onward, enough turns lead to an end. -/
lemma goes_repeatWithin {I D : Cursor → Prop}
    (hturn : ∀ s c, c.AtToken → I c → Goes (turn s) c (Turn.GoesOn I D c)) {bound : List Char}
    {c : Cursor} (hc : c.AtToken) (hI : I c) (hbound : Suffices bound c) (s : σ) :
    Goes (repeatWithin turn bound s) c fun _ c' => D c' := by
  induction bound generalizing c s with
  | nil => exact absurd hbound.1 (by simp)
  | cons x bound ih =>
    refine (hturn s c hc hI).bind fun t c' ht => ?_
    cases t with
    | again s' =>
      obtain ⟨hpasses, hI'⟩ : c.Passes c' ∧ I c' := ht
      exact ih (hpasses.atToken hc) hI' (hbound.passes hc hpasses) s'
    | done r => exact Goes.pure ht

lemma Turn.Onward.goesOn {t : Turn σ ρ} {c c' : Cursor} (h : t.Onward c c') :
    t.GoesOn (fun _ => True) (fun _ => True) c c' := by
  cases t with
  | again => exact ⟨h, trivial⟩
  | done => trivial

lemma Follows.repeatFrom {s : σ} (hturn : ∀ s c, c.AtToken → Goes (turn s) c (Turn.Onward c)) :
    Follows (Parse.repeatFrom s turn) := fun c hc =>
  (goes_repeatWithin (fun s c hc _ => (hturn s c hc).mono fun _ _ => Turn.Onward.goesOn) hc trivial
    (suffices_tokenBound c) s).and_moves.mono fun _ _ h => h.1

/-- A repetition whose turns all advance does so too. -/
lemma Advances.repeatFrom {s : σ} (hturn : ∀ s, Advances (turn s)) :
    Advances (Parse.repeatFrom s turn) := by
  intro c hc
  refine (hturn s c hc).bind fun t c' hpasses => ?_
  cases t with
  | again s' =>
    exact (goes_repeatWithin (fun s c hc _ => (hturn s c hc).onward.mono fun _ _ => Turn.Onward.goesOn)
      (hpasses.atToken hc) trivial ((suffices_tokenBound c).passes hc hpasses) s').and_moves.mono
        fun _ _ h => hpasses.then_moves hc h.1
  | done r => exact Goes.pure hpasses

/-- What a turn has to do that carries an expression on: it closes it anew, or it is the last one
and stays. -/
def Turn.Extends (c : Cursor) : Turn σ ρ → Cursor → Prop
  | .again _, c' => c.Closed c'
  | .done _, c' => c' = c ∨ c.Closed c'

lemma ClosesAt.extends {p : Parse (Turn σ ρ)} {c : Cursor} (h : ClosesAt p c) :
    Goes p c (Turn.Extends c) := by
  refine h.mono fun t c' hclosed => ?_
  cases t with
  | again => exact hclosed
  | done => exact .inr hclosed

lemma Turn.extends_done {c : Cursor} (r : ρ) : (Turn.done r : Turn σ ρ).Extends c c := .inl rfl

lemma Turn.Extends.onward {t : Turn σ ρ} {c c' : Cursor} (h : t.Extends c c') (hc : c.AtToken) :
    t.Onward c c' := by
  cases t with
  | again => exact Cursor.Closed.passes h hc
  | done =>
    rcases h with rfl | h
    · exact .refl
    · exact h.moves

lemma StaysClosed.repeatFrom {s : σ}
    (hturn : ∀ s c, c.AtToken → Goes (turn s) c (Turn.Extends c)) :
    StaysClosed (Parse.repeatFrom s turn) := by
  intro b c hb hclosed
  refine goes_repeatWithin (I := fun c => b.Closed c) (fun s c hc hclosed => ?_)
    (hb.follows hclosed.moves).atToken hclosed (suffices_tokenBound c) s
  refine (hturn s c hc).mono fun t c' ht => ?_
  cases t with
  | again => exact ⟨Cursor.Closed.passes ht hc, .of_moves hclosed.moves ht⟩
  | done =>
    rcases ht with rfl | ht
    · exact hclosed
    · exact .of_moves hclosed.moves ht

/-- A repetition that is done at a token that can close an expression, which is passed then. -/
lemma Closes.repeatThen {s : σ} {f : ρ → β}
    (hturn : ∀ s c, c.AtToken →
      Goes (turn s) c (Turn.GoesOn (fun _ => True) (fun c' => c'.token.kind.CanClose) c)) :
    Closes (Parse.repeatFrom s turn >>= fun r => Parse.advance >>= fun _ => Pure.pure (f r)) := by
  intro c hc
  have hrepeat := goes_repeatWithin (fun s c hc _ => hturn s c hc) hc trivial (suffices_tokenBound c) s
  refine hrepeat.and_moves.bind fun r c' ⟨hmoves, hkind⟩ => ?_
  have hlast : ClosesAt (Parse.advance >>= fun _ => Pure.pure (f r)) c' :=
    closesAt_advance (hc.follows hmoves).atToken hkind (.pure _)
  exact hlast.mono fun _ _ => .of_moves hmoves

end Parse

end BindingProxy
