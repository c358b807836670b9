import BindingProxy.Grammar.Program
import BindingProxy.Proofs.Grammar.Advance

/-!
# Patterns read as expressions

A pattern can also be read as an expression: an array or object literal, with assignments for the
defaults.  Three readers are compared here from the same cursor: one of patterns, one of expressions,
and another one of patterns that has to come to the same as the first one wherever the reader of
expressions succeeds.  `Mirror` says how their results are related.  The reader of expressions needs
more levels, so it may be refused where the first one is not, unless this is ruled out by `strict`.
It may also end at a token where no list of expressions goes on, which is refused a little later.
-/

namespace BindingProxy

namespace Reply

variable {α : Type}

/-- The reading was refused. -/
def IsRefused (r : Reply α) : Prop := ∃ e, r = .fail (.refused e)

/-- The reading stopped early: it ran out of turns or, where this is not ruled out, it was refused
or came to one of the dead ends `D`. -/
def FallsShort (strict : Prop) (D : α → Cursor → Prop) (r : Reply α) : Prop :=
  r = .fail .stalled ∨ (¬ strict ∧ (r.IsRefused ∨ ∃ a c, r = .ok a c ∧ D a c))

end Reply

namespace Parse

variable {α α' β β' σ τ ρ ρ' : Type} {strict : Prop}

/-- No dead ends. -/
abbrev NoEnd : α → Cursor → Prop := fun _ _ => False

/-- The dead end of a list: no element goes on with `=` if it ended there. -/
abbrev AtAssign : α → Cursor → Prop := fun _ c => c.token.kind = .punctuator .assign

/-- What readers of a pattern, of an expression and again of the pattern come to: what the first one
reads up to an end that satisfies `A`, the others read up to the same end, or the reader of expressions
is refused or comes to one of the dead ends `D`.  Values of the first two are related by `V`. -/
def Mirror (strict : Prop) (D : β → Cursor → Prop) (A : α → Cursor → Prop) (V : α → β → Prop)
    (high : Reply α) (low : Reply β) (again : Reply α) : Prop :=
  match high with
  | .ok a c => A a c →
      low.FallsShort strict D ∨ c.AtToken ∧ ∃ b, low = .ok b c ∧ again = .ok a c ∧ V a b
  | .fail .unreadable => low.FallsShort strict D ∨ low = .fail .unreadable
  | .fail _ => True

namespace Mirror

variable {A : α → Cursor → Prop} {V : α → β → Prop} {D : β → Cursor → Prop}
  {A' : α' → Cursor → Prop} {V' : α' → β' → Prop} {D' : β' → Cursor → Prop}
  {high : Reply α} {low : Reply β} {again : Reply α} {p r : Parse α} {q : Parse β} {f f' : α → Parse α'}
  {g : β → Parse β'} {c : Cursor}

lemma of_refused (h : high.IsRefused) : Mirror strict D A V high low again := by
  obtain ⟨e, rfl⟩ := h
  trivial

/-- The reader of expressions may stop early. -/
lemma of_low (h : low.FallsShort strict D) : Mirror strict D A V high low again := by
  unfold Mirror
  split
  · exact fun _ => .inl h
  · exact .inl h
  · trivial

lemma ok {a : α} {b : β} (hc : c.AtToken) (h : A a c → V a b) :
    Mirror strict D A V (.ok a c) (.ok b c) (.ok a c) :=
  fun hA => .inr ⟨hc, b, rfl, rfl, h hA⟩

/-- A value that is not wanted with this end. -/
lemma unwanted {a : α} (h : ¬ A a c) : Mirror strict D A V (.ok a c) low again :=
  fun hA => absurd hA h

/-- With fewer ends and more values. -/
lemma mono {A₁ : α → Cursor → Prop} {V₁ : α → β → Prop} (h : Mirror strict D A V high low again)
    (hA : ∀ a c, A₁ a c → A a c) (hV : ∀ a b, V a b → V₁ a b) :
    Mirror strict D A₁ V₁ high low again := by
  unfold Mirror at h ⊢
  split
  · intro h₁
    refine (h (hA _ _ h₁)).imp_right fun ⟨hc, b, hlow, hagain, hab⟩ => ?_
    exact ⟨hc, b, hlow, hagain, hV _ _ hab⟩
  · exact h
  · trivial

/-- The same reader three times. -/
lemma same (hp : Follows p) (hc : c.AtToken) :
    Mirror strict NoEnd (fun _ _ => True) Eq (p c) (p c) (p c) := by
  cases hread : p c with
  | ok a c' => exact ok (hc.follows ((hp c hc).of_ok hread).1).atToken fun _ => rfl
  | fail failure =>
    cases failure with
    | refused | stalled => trivial
    | unreadable => exact .inr rfl

lemma bindDead (hp : Mirror strict D A V (p c) (q c) (r c))
    (hf : ∀ a b c', c'.AtToken → A a c' → V a b → Mirror strict D' A' V' (f a c') (g b c') (f' a c'))
    (hA : ∀ a c' low again, ¬ A a c' → Mirror strict D' A' V' (f a c') low again)
    (hD : ∀ b c', D b c' → ¬ strict → (g b c').FallsShort strict D') :
    Mirror strict D' A' V' ((p >>= f) c) ((q >>= g) c) ((r >>= f') c) := by
  have hshort : (q c).FallsShort strict D → ((q >>= g) c).FallsShort strict D' := by
    rintro (hstalled | ⟨hstrict, ⟨e, he⟩ | ⟨b, c', hok, hdead⟩⟩)
    · exact .inl (bind_of_fail hstalled)
    · exact .inr ⟨hstrict, .inl ⟨e, bind_of_fail he⟩⟩
    · rw [bind_of_ok hok]
      exact hD b c' hdead hstrict
  cases hread : p c with
  | ok a c' =>
    rw [hread] at hp
    rw [bind_of_ok hread]
    by_cases h : A a c'
    · rcases hp h with hlow | ⟨hc', b, hlow, hagain, hV⟩
      · exact of_low (hshort hlow)
      · rw [bind_of_ok hlow, bind_of_ok hagain]
        exact hf a b c' hc' h hV
    · exact hA a c' _ _ h
  | fail failure =>
    rw [hread] at hp
    rw [bind_of_fail hread]
    cases failure with
    | refused | stalled => trivial
    | unreadable =>
      rcases hp with hlow | hlow
      · exact .inl (hshort hlow)
      · exact .inr (bind_of_fail hlow)

lemma bind (hp : Mirror strict NoEnd A V (p c) (q c) (r c))
    (hf : ∀ a b c', c'.AtToken → A a c' → V a b → Mirror strict D' A' V' (f a c') (g b c') (f' a c'))
    (hA : ∀ a c' low again, ¬ A a c' → Mirror strict D' A' V' (f a c') low again) :
    Mirror strict D' A' V' ((p >>= f) c) ((q >>= g) c) ((r >>= f') c) :=
  hp.bindDead hf hA fun _ _ h => h.elim

/-- What the same reader does first. -/
lemma sameThen {ι : Type} {p : Parse ι} {f f' : ι → Parse α} {g : ι → Parse β} (hp : Follows p)
    (hc : c.AtToken)
    (hf : ∀ a c', c'.AtToken → p c = .ok a c' → Mirror strict D A V (f a c') (g a c') (f' a c')) :
    Mirror strict D A V ((p >>= f) c) ((p >>= g) c) ((p >>= f') c) := by
  cases hread : p c with
  | ok a c' =>
    rw [bind_of_ok hread, bind_of_ok hread, bind_of_ok hread]
    exact hf a c' (hc.follows ((hp c hc).of_ok hread).1).atToken hread
  | fail failure =>
    rw [bind_of_fail hread, bind_of_fail hread, bind_of_fail hread]
    cases failure with
    | refused | stalled => trivial
    | unreadable => exact .inr rfl

end Mirror

/-! ### Lists -/

/-- A list ends where its closing token stands. -/
def Turn.EndsAt (close : TokenKind) : Turn σ ρ → Cursor → Prop
  | .again _, _ => True
  | .done _, c => c.token.kind = close

/-- Turns that go on together and end together. -/
def Turn.Related (I : σ → τ → Prop) (R : ρ → ρ' → Prop) : Turn σ ρ → Turn τ ρ' → Prop
  | .again s, .again t => I s t
  | .done r, .done r' => R r r'
  | _, _ => False

/-- A turn that was the last one and ended at `=`. -/
def Turn.Stuck : Turn σ ρ → Cursor → Prop
  | .again _, _ => False
  | .done _, c => c.token.kind = .punctuator .assign

section

variable {turn turn'' : σ → Parse (Turn σ ρ)} {turn' : τ → Parse (Turn τ ρ')} {close : TokenKind}
  {I : σ → τ → Prop} {R : ρ → ρ' → Prop} {c : Cursor}

/-- Repetitions with turns that are mirrored, from states that are related. -/
lemma mirror_repeatWithin
    (hturn : ∀ s t c, c.AtToken → I s t →
      Mirror strict Turn.Stuck (Turn.EndsAt close) (Turn.Related I R) (turn s c) (turn' t c) (turn'' s c))
    (bound : List Char) {s : σ} {t : τ} (hc : c.AtToken) (hI : I s t) :
    Mirror strict AtAssign (fun _ c' => c'.token.kind = close) R (repeatWithin turn bound s c)
      (repeatWithin turn' bound t c) (repeatWithin turn'' bound s c) := by
  induction bound generalizing c s t with
  | nil => trivial
  | cons x bound ih =>
    refine (hturn s t c hc hI).bindDead (fun a b c' hc' hA hV => ?_) (fun a c' low again hA => ?_)
      fun b c' hdead hstrict => ?_
    · cases a with
      | again s' =>
        cases b with
        | again t' => exact ih hc' hV
        | done _ => exact hV.elim
      | done r =>
        cases b with
        | again _ => exact hV.elim
        | done r' => exact .ok hc' fun _ => hV
    · cases a with
      | again _ => exact absurd trivial hA
      | done r => exact .unwanted hA
    · cases b with
      | again _ => exact hdead.elim
      | done r' => exact .inr ⟨hstrict, .inr ⟨r', c', rfl, hdead⟩⟩

lemma mirror_repeatFrom (close : TokenKind) (I : σ → τ → Prop) (R : ρ → ρ' → Prop)
    (hturn : ∀ s t c, c.AtToken → I s t →
      Mirror strict Turn.Stuck (Turn.EndsAt close) (Turn.Related I R) (turn s c) (turn' t c) (turn'' s c))
    {s : σ} {t : τ} (hc : c.AtToken) (hI : I s t) :
    Mirror strict AtAssign (fun _ c' => c'.token.kind = close) R (repeatFrom s turn c) (repeatFrom t turn' c)
      (repeatFrom s turn'' c) :=
  mirror_repeatWithin hturn (tokenBound c) hc hI

/-- What follows a list: its closing token. -/
lemma Mirror.thenExpect {p r : Parse α} {q : Parse β} {V : α → β → Prop} {W : α' → β' → Prop}
    {close : Punctuator} {k : α → α'} {k' : β → β'}
    (hp : Mirror strict AtAssign (fun _ c' => c'.token.kind = .punctuator close) V (p c) (q c) (r c))
    (hclose : close ≠ .assign) (hW : ∀ a b, V a b → W (k a) (k' b)) :
    Mirror strict NoEnd (fun _ _ => True) W ((p >>= fun a => expect close >>= fun _ => Pure.pure (k a)) c)
      ((q >>= fun b => expect close >>= fun _ => Pure.pure (k' b)) c)
      ((r >>= fun a => expect close >>= fun _ => Pure.pure (k a)) c) := by
  refine hp.bindDead (fun a b c' hc' _ hV => ?_) (fun a c' low again h => ?_)
    fun b c' hdead hstrict => ?_
  · refine .sameThen (.expect _) hc' fun _ c'' hc'' _ => ?_
    exact .ok hc'' fun _ => hW a b hV
  · exact .of_refused ⟨_, bind_of_fail (expect_of_not h)⟩
  · have hnot : c'.token.kind ≠ .punctuator close := by
      rw [hdead]
      simpa using hclose.symm
    exact .inr ⟨hstrict, .inl ⟨_, bind_of_fail (expect_of_not hnot)⟩⟩

/-- The end of a turn that another element may follow. -/
lemma mirror_comma {s : σ} {t : τ} {r : ρ} {r' : ρ'} (hc : c.AtToken) (hI : I s t) (hR : R r r') :
    Mirror strict Turn.Stuck (Turn.EndsAt close) (Turn.Related I R)
      ((do if ← accept .comma then return Turn.again s else return Turn.done r : Parse _) c)
      ((do if ← accept .comma then return Turn.again t else return Turn.done r' : Parse _) c)
      ((do if ← accept .comma then return Turn.again s else return Turn.done r : Parse _) c) := by
  refine .sameThen (.accept _) hc fun a c' hc' _ => ?_
  cases a with
  | true => exact .ok hc' fun _ => hI
  | false => exact .ok hc' fun _ => hR

/-- The end of the last turn on the pattern side, where the other side may still look for a comma. -/
lemma mirror_doneComma {t : τ} {r : ρ} {r' : ρ'} (hc : c.AtToken) (hclose : close ≠ .punctuator .comma)
    (hR : R r r') : Mirror strict Turn.Stuck (Turn.EndsAt close) (Turn.Related I R) (.ok (Turn.done r) c)
      ((do if ← accept .comma then return Turn.again t else return Turn.done r' : Parse _) c)
      (.ok (Turn.done r) c) := by
  by_cases hkind : c.token.kind = close
  · rw [accept_bind_of_not (hkind ▸ hclose)]
    exact .ok hc fun _ => hR
  · exact .unwanted hkind

end

end Parse

/-- The tokens that can follow an element of a pattern. -/
def TokenKind.IsClosing (k : TokenKind) : Prop :=
  k = .punctuator .comma ∨ k = .punctuator .closeParen ∨ k = .punctuator .closeBracket ∨
    k = .punctuator .closeBrace

namespace Parse

variable {α β σ τ ρ ρ' : Type} {strict : Prop} {p q : Parse Node} {V : Node → Node → Prop}
  {close : TokenKind} {I : σ → τ → Prop} {R : ρ → ρ' → Prop} {c : Cursor}

/-- An element with what comes after it in its turn. -/
lemma Mirror.thenComma {p r : Parse α} {q : Parse β} {V : α → β → Prop} {s : α → σ} {t : β → τ}
    {d : α → ρ} {d' : β → ρ'}
    (hp : Mirror strict AtAssign (fun _ c' => c'.token.kind.IsClosing) V (p c) (q c) (r c))
    (hclose : close.IsClosing) (hI : ∀ a b, V a b → I (s a) (t b)) (hR : ∀ a b, V a b → R (d a) (d' b)) :
    Mirror strict Turn.Stuck (Turn.EndsAt close) (Turn.Related I R)
      ((p >>= fun a => do if ← accept .comma then return Turn.again (s a) else return Turn.done (d a)) c)
      ((q >>= fun b => do if ← accept .comma then return Turn.again (t b) else return Turn.done (d' b)) c)
      ((r >>= fun a => do if ← accept .comma then return Turn.again (s a) else return Turn.done (d a)) c) := by
  refine hp.bindDead (fun a b c' hc' _ hV => mirror_comma hc' (hI a b hV) (hR a b hV))
    (fun a c' low again h => ?_) fun b c' hdead hstrict => ?_
  · have hcomma : c'.token.kind ≠ .punctuator .comma := fun hkind => h (.inl hkind)
    rw [accept_bind_of_not hcomma]
    exact .unwanted fun hkind => h (hkind ▸ hclose)
  · have hcomma : c'.token.kind ≠ .punctuator .comma := by
      rw [hdead]
      decide
    rw [accept_bind_of_not hcomma]
    exact .inr ⟨hstrict, .inr ⟨_, _, rfl, hdead⟩⟩

end Parse

end BindingProxy
