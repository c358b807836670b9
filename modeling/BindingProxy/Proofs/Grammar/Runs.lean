import BindingProxy.Grammar.Parse
import BindingProxy.Proofs.Token.Stream

/-!
# Reading from a stream of words

`Runs F p ws Q` says what the reader `p` does when the words `ws` are before it: it gives a value
and leaves words that satisfy `Q` together, or it refuses for a cause in `F`.  It never gives up for
want of turns or on unreadable text.  The rules follow the way a reader is put together, so that a
reader is carried through its words step by step.

Two cases are used.  `Reads` fixes the value and the words that are left, and `Settles` allows any
refusal, which is all that looking ahead needs.
-/

namespace BindingProxy

variable {ω : Type} [Written ω]

/-- The kind of the first of some words; after the last one stands the end of the text. -/
def headKind : List ω → TokenKind
  | [] => .endOfText
  | w :: _ => (Written.word w).kind

lemma headKind_word (w : Word) (ws : List Word) : headKind (w :: ws) = w.kind := rfl

lemma Cursor.At.kind_eq {ws : List ω} {c : Cursor} (h : c.At ws) :
    c.token.kind = headKind ws := by
  cases ws with
  | nil => exact h
  | cons w ws => exact h.1.1

namespace Parse

variable {α β σ ρ : Type} {F G : SyntaxCause → Prop} {ws vs : List ω} {w : ω}

/-- From every cursor with the words `ws` before it, `p` gives a value and leaves words that satisfy
`Q`, or refuses for a cause in `F`. -/
def Runs (F : SyntaxCause → Prop) (p : Parse α) (ws : List ω) (Q : α → List ω → Prop) : Prop :=
  ∀ c : Cursor, c.At ws →
    (∃ a next vs, p c = .ok a next ∧ next.At vs ∧ Q a vs) ∨
      ∃ cause span, p c = .fail (.refused ⟨cause, span⟩) ∧ F cause

/-- From the words `ws`, `p` reads the value `a` and leaves `vs`, or refuses for a cause in `F`. -/
abbrev Reads (F : SyntaxCause → Prop) (p : Parse α) (ws : List ω) (a : α) (vs : List ω) : Prop :=
  Runs F p ws fun b us => b = a ∧ us = vs

/-- From the words `ws`, `p` ends in one way or another. -/
abbrev Settles (p : Parse α) (ws : List ω) (Q : α → List ω → Prop) : Prop :=
  Runs (fun _ => True) p ws Q

/-- Moving on to a token without a flaw. -/
lemma advance_bind {f : Unit → Parse β} {c c' : Cursor} (h : c.next? = some (c', none)) :
    (Parse.advance >>= f) c = f () c' := by
  change andThen Parse.advance f c = f () c'
  simp only [andThen, Parse.advance, h, moveTo]

namespace Runs

variable {p : Parse α} {f : α → Parse β} {Q Q' : α → List ω → Prop} {R : β → List ω → Prop}

lemma mono (h : Runs F p ws Q) (hF : ∀ cause, F cause → G cause) (hQ : ∀ a vs, Q a vs → Q' a vs) :
    Runs G p ws Q' := by
  intro c hc
  rcases h c hc with ⟨a, next, vs, hok, hat, hvs⟩ | ⟨cause, span, hfail, hcause⟩
  · exact .inl ⟨a, next, vs, hok, hat, hQ a vs hvs⟩
  · exact .inr ⟨cause, span, hfail, hF cause hcause⟩

lemma pure {a : α} (h : Q a ws) : Runs F (Pure.pure a) ws Q :=
  fun c hc => .inl ⟨a, c, ws, rfl, hc, h⟩

lemma value {a : α} : Reads F (Pure.pure a) ws a ws := pure ⟨rfl, rfl⟩

lemma reject {cause : SyntaxCause} (h : F cause) : Runs F (Parse.reject cause) ws Q :=
  fun _ _ => .inr ⟨cause, _, rfl, h⟩

lemma bind (hp : Runs F p ws Q) (hf : ∀ a vs, Q a vs → Runs F (f a) vs R) :
    Runs F (p >>= f) ws R := by
  intro c hc
  change (∃ a next vs, andThen p f c = _ ∧ _) ∨ ∃ cause span, andThen p f c = _ ∧ _
  unfold andThen
  rcases hp c hc with ⟨a, next, vs, hok, hat, hvs⟩ | ⟨cause, span, hfail, hcause⟩
  · rw [hok]
    exact hf a vs hvs next hat
  · rw [hfail]
    exact .inr ⟨cause, span, rfl, hcause⟩

/-- A first part that reads a known value. -/
lemma seq {a : α} (hp : Reads F p ws a vs) (hf : Runs F (f a) vs R) : Runs F (p >>= f) ws R := by
  refine bind hp ?_
  rintro _ _ ⟨rfl, rfl⟩
  exact hf

lemma map {a : α} (f : α → β) (h : Reads F p ws a vs) : Reads F (f <$> p) ws (f a) vs :=
  seq h value

/-- What a reader comes to at a cursor. -/
lemma outcome {a : α} (h : Runs F p ws fun b _ => b = a) {c : Cursor} (hat : c.At ws) :
    (∃ next, p c = .ok a next) ∨ ∃ cause span, p c = .fail (.refused ⟨cause, span⟩) ∧ F cause := by
  rcases h c hat with ⟨_, next, vs, hok, _, rfl⟩ | hfail
  · exact .inl ⟨next, hok⟩
  · exact .inr hfail

/-! ### Single tokens -/

lemma advance {f : Unit → Parse β} (hf : Runs F (f ()) ws R) :
    Runs F (Parse.advance >>= f) (w :: ws) R := by
  intro c hc
  obtain ⟨_, _, c', hnext, hat⟩ := hc
  rw [advance_bind hnext]
  exact hf c' hat

/-- Only the kind of the current token matters. -/
lemma tokenOfKind {f : Token → Parse β}
    (hf : ∀ t : Token, t.kind = headKind ws → Runs F (f t) ws R) : Runs F (token >>= f) ws R :=
  fun c hc => hf c.token hc.kind_eq c hc

lemma tokenOnLine {f : Token → Parse β}
    (hf : ∀ t : Token, t.kind = (Written.word w).kind → t.text = (Written.word w).text →
      t.value = (Written.word w).text →
      (Written.mayOpenLine w = false → t.afterLineBreak = false) → Runs F (f t) (w :: ws) R) :
    Runs F (Parse.token >>= f) (w :: ws) R := by
  intro c hc
  obtain ⟨⟨hkind, htext, hvalue, hbreak⟩, _⟩ := id hc
  exact hf c.token hkind htext hvalue hbreak c hc

lemma token {w : Word} {ws : List Word} {R : β → List Word → Prop} {f : Token → Parse β}
    (hf : ∀ t : Token, t.kind = w.kind → t.text = w.text → t.value = w.text →
      t.afterLineBreak = false → Runs F (f t) (w :: ws) R) :
    Runs F (Parse.token >>= f) (w :: ws) R :=
  tokenOnLine fun t hkind htext hvalue hbreak => hf t hkind htext hvalue (hbreak rfl)

lemma kind {f : TokenKind → Parse β} (hf : Runs F (f (headKind ws)) ws R) :
    Runs F (Parse.kind >>= f) ws R := by
  intro c hc
  have := hf c hc
  rw [← hc.kind_eq] at this
  exact this

lemma afterLineBreak {f : Bool → Parse β} (hw : Written.mayOpenLine w = false)
    (hf : Runs F (f false) (w :: ws) R) : Runs F (Parse.afterLineBreak >>= f) (w :: ws) R := by
  intro c hc
  have := hf c hc
  rw [← hc.1.2.2.2 hw] at this
  exact this

lemma peek {f : Token → Parse β}
    (hf : ∀ t : Token, t.kind = headKind ws → Runs F (f t) (w :: ws) R) :
    Runs F (Parse.peek >>= f) (w :: ws) R := by
  refine bind (Q := fun t vs => t.kind = headKind ws ∧ vs = w :: ws) (fun c hc => ?_)
    (by rintro t _ ⟨ht, rfl⟩; exact hf t ht)
  obtain ⟨_, _, c', hnext, hat⟩ := id hc
  exact .inl ⟨c'.token, c, w :: ws, by simp only [Parse.peek, hnext], hc, hat.kind_eq, rfl⟩

lemma peekOnLine {w' : ω} {f : Token → Parse β}
    (hf : ∀ t : Token, t.kind = (Written.word w').kind →
      (Written.mayOpenLine w' = false → t.afterLineBreak = false) →
      Runs F (f t) (w :: w' :: ws) R) :
    Runs F (Parse.peek >>= f) (w :: w' :: ws) R := by
  intro c hc
  obtain ⟨_, _, c', hnext, ⟨hkind, _, _, hbreak⟩, _⟩ := id hc
  have hpeek : (Parse.peek >>= f) c = f c'.token c := by
    change andThen Parse.peek f c = f c'.token c
    simp only [andThen, Parse.peek, hnext]
  rw [hpeek]
  exact hf c'.token hkind hbreak c hc

section

variable {k : TokenKind} {p : Punctuator} {f : Bool → Parse β}

/-- The answer about the kind of the current token. -/
lemma isAt (hf : Runs F (f (headKind ws == k)) ws R) : Runs F (Parse.isAt k >>= f) ws R := by
  intro c hc
  have := hf c hc
  rw [← hc.kind_eq] at this
  exact this

lemma isAt_true (h : headKind ws = k) (hf : Runs F (f true) ws R) :
    Runs F (Parse.isAt k >>= f) ws R := by
  refine isAt ?_
  rw [beq_iff_eq.2 h]
  exact hf

lemma isAt_false (h : headKind ws ≠ k) (hf : Runs F (f false) ws R) :
    Runs F (Parse.isAt k >>= f) ws R := by
  refine isAt ?_
  rw [beq_eq_false_iff_ne.2 h]
  exact hf

lemma accept_true (h : (Written.word w).kind = .punctuator p) (hf : Runs F (f true) ws R) :
    Runs F (accept p >>= f) (w :: ws) R :=
  seq (isAt_true h (advance value)) hf

lemma accept_false (h : headKind ws ≠ .punctuator p) (hf : Runs F (f false) ws R) :
    Runs F (accept p >>= f) ws R :=
  seq (isAt_false h value) hf

lemma expect {f : Unit → Parse β} (h : (Written.word w).kind = .punctuator p)
    (hf : Runs F (f ()) ws R) : Runs F (Parse.expect p >>= f) (w :: ws) R :=
  seq (accept_true h value) hf

lemma acceptWord_true {k : ReservedWord} (h : (Written.word w).kind = .reserved k)
    (hf : Runs F (f true) ws R) : Runs F (acceptWord k >>= f) (w :: ws) R :=
  seq (isAt_true h (advance value)) hf

lemma acceptWord_false {k : ReservedWord} (h : headKind ws ≠ .reserved k)
    (hf : Runs F (f false) ws R) : Runs F (acceptWord k >>= f) ws R :=
  seq (isAt_false h value) hf

lemma expectWord {k : ReservedWord} {f : Unit → Parse β} (h : (Written.word w).kind = .reserved k)
    (hf : Runs F (f ()) ws R) : Runs F (Parse.expectWord k >>= f) (w :: ws) R :=
  seq (acceptWord_true h value) hf

end

/-- The value of a token of the right kind. -/
lemma tokenValue {test : TokenKind → Bool} {q : Parse String}
    (h : test (Written.word w).kind = true) : Reads F (do
      let t ← Parse.token
      if test t.kind then
        Parse.advance
        return t.value
      else q) (w :: ws) (Written.word w).text ws := by
  refine tokenOnLine fun t hkind _ hvalue _ => ?_
  rw [hkind, if_pos h]
  exact advance (pure ⟨hvalue, rfl⟩)

lemma name {f : String → Parse β} (h : (Written.word w).kind.isName = true)
    (hf : Runs F (f (Written.word w).text) ws R) : Runs F (Parse.name >>= f) (w :: ws) R :=
  seq (tokenValue h) hf

lemma word {f : String → Parse β} (h : (Written.word w).kind.isWord = true)
    (hf : Runs F (f (Written.word w).text) ws R) : Runs F (Parse.word >>= f) (w :: ws) R :=
  seq (tokenValue h) hf

/-! Readers that may meet a word or not. -/

lemma accept {p : Punctuator} {f : Bool → Parse β}
    (htrue : ∀ w vs, ws = w :: vs → (Written.word w).kind = .punctuator p →
      Runs F (f true) vs R)
    (hfalse : headKind ws ≠ .punctuator p → Runs F (f false) ws R) :
    Runs F (Parse.accept p >>= f) ws R := by
  by_cases h : headKind ws = .punctuator p
  · cases ws with
    | nil => cases h
    | cons w vs => exact accept_true h (htrue w vs rfl h)
  · exact accept_false h (hfalse h)

lemma expectOr {p : Punctuator} {f : Unit → Parse β} (hF : F (.expected p.text))
    (h : ∀ w vs, ws = w :: vs → Runs F (f ()) vs R) : Runs F (Parse.expect p >>= f) ws R := by
  refine bind (Q := fun _ vs => ∃ w, ws = w :: vs) ?_ (by rintro _ vs ⟨w, hws⟩; exact h w vs hws)
  exact accept (fun w vs hws _ => pure ⟨w, hws⟩) fun _ => reject hF

lemma nameOr {f : String → Parse β} (hF : F .nameExpected)
    (h : ∀ w vs, ws = w :: vs → Runs F (f (Written.word w).text) vs R) :
    Runs F (Parse.name >>= f) ws R := by
  cases ws with
  | nil =>
    refine bind (Q := fun _ _ => False) ?_ (fun _ _ h => h.elim)
    refine tokenOfKind fun t hkind => ?_
    rw [hkind]
    exact reject hF
  | cons w vs =>
    by_cases hname : (Written.word w).kind.isName = true
    · exact name hname (h w vs rfl)
    · refine bind (Q := fun _ _ => False) ?_ (fun _ _ h => h.elim)
      refine tokenOfKind fun t hkind => ?_
      rw [hkind, headKind, if_neg hname]
      exact reject hF

/-- Looking ahead for what is not there says no, however it ends. -/
lemma lookAhead {p : Parse Bool} (hp : Settles p ws fun answer _ => answer = false) :
    Reads F (Parse.lookAhead p) ws false ws := by
  intro c hc
  rcases hp c hc with ⟨a, next, vs, hok, _, rfl⟩ | ⟨cause, span, hfail, _⟩
  · exact .inl ⟨false, c, ws, by simp only [Parse.lookAhead, hok], hc, rfl, rfl⟩
  · exact .inl ⟨false, c, ws, by simp only [Parse.lookAhead, hfail], hc, rfl, rfl⟩

end Runs

/-! ### Repetition -/

variable {turn : σ → Parse (Turn σ ρ)} {Q : ρ → List ω → Prop}

/-- A repetition ends well from a state and the words before it, given as many turns as there are
words and one more. -/
def Loops (F : SyntaxCause → Prop) (turn : σ → Parse (Turn σ ρ)) (s : σ) (ws : List ω)
    (Q : ρ → List ω → Prop) : Prop :=
  ∀ bound : List Char, ws.length < bound.length → Runs F (repeatWithin turn bound s) ws Q

/-- What a turn has to come to: it has taken a word and the repetition goes on well, or it is done
with a good result. -/
def Turn.Leads (F : SyntaxCause → Prop) (turn : σ → Parse (Turn σ ρ)) (ws : List ω)
    (Q : ρ → List ω → Prop) : Turn σ ρ → List ω → Prop
  | .again s, vs => vs.length < ws.length ∧ Loops F turn s vs Q
  | .done r, vs => Q r vs

lemma Loops.step {s : σ} (h : Runs F (turn s) ws (Turn.Leads F turn ws Q)) :
    Loops F turn s ws Q := by
  intro bound hbound
  cases bound with
  | nil => simp at hbound
  | cons x bound =>
    refine Runs.bind h fun t vs ht => ?_
    cases t with
    | again s' => exact ht.2 bound (by have := ht.1; simp only [List.length_cons] at hbound; omega)
    | done r => exact Runs.pure ht

/-- A turn that is known to go on. -/
lemma Loops.again {s s' : σ} (h : Reads F (turn s) ws (.again s') vs)
    (hless : vs.length < ws.length) (hloop : Loops F turn s' vs Q) : Loops F turn s ws Q := by
  refine Loops.step (h.mono (fun _ hcause => hcause) ?_)
  rintro _ _ ⟨rfl, rfl⟩
  exact ⟨hless, hloop⟩

/-- A turn that is known to be the last one. -/
lemma Loops.done {s : σ} {r : ρ} (h : Reads F (turn s) ws (.done r) vs) (hQ : Q r vs) :
    Loops F turn s ws Q := by
  refine Loops.step (h.mono (fun _ hcause => hcause) ?_)
  rintro _ _ ⟨rfl, rfl⟩
  exact hQ

lemma Loops.mono {s : σ} {Q' : ρ → List ω → Prop} (h : Loops F turn s ws Q)
    (hQ : ∀ r vs, Q r vs → Q' r vs) : Loops F turn s ws Q' :=
  fun bound hbound => (h bound hbound).mono (fun _ hcause => hcause) hQ

lemma Loops.repeatFrom {s : σ} (h : Loops F turn s ws Q) :
    Runs F (Parse.repeatFrom s turn) ws Q := by
  intro c hc
  refine h (tokenBound c) ?_ c hc
  cases ws with
  | nil => simp [tokenBound]
  | cons w ws =>
    have := hc.2.1
    simp only [tokenBound, List.length_cons]
    omega

end Parse

end BindingProxy
