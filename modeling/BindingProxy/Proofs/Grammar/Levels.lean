import BindingProxy.Proofs.Grammar.Correspond

/-!
# More levels

A grammar with more levels reads what one with fewer levels reads.  The two are compared from the
same cursor; where the lower one is refused, the higher one may do anything.
-/

namespace BindingProxy

namespace Likeness

open Parse

/-- The same cursor on both sides, where the right reader is free once the left one is refused. -/
def same : Likeness where
  alike c d := d = c ∧ c.AtToken
  last _ _ := False
  leftPast _ := False
  rightPast _ := False
  free := True

variable {α : Type}

lemma same_lostRight (r : Reply α) : same.LostRight r := by
  cases r with
  | ok => exact .inl trivial
  | fail failure => cases failure <;> trivial

/-- The same result on both sides. -/
lemma same_agree {r : Reply α} (h : ∀ a c, r = .ok a c → c.AtToken) : same.Agree r r := by
  cases r with
  | ok a c => exact .alike a ⟨rfl, h a c rfl⟩
  | fail failure =>
    cases failure with
    | refused => exact .lost trivial trivial
    | unreadable => exact .unreadable
    | stalled => exact .stalledLeft _

lemma same_rereadAlike {reached : Cursor × Option Flaw}
    (h : ∀ c, reached = (c, none) → c.AtToken) : same.RereadAlike reached reached := by
  obtain ⟨c, flaw⟩ := reached
  cases flaw with
  | none => exact .inr ⟨c, c, rfl, rfl, rfl, h c rfl⟩
  | some flaw => exact .inl ⟨by rintro ⟨⟩, by rintro ⟨⟩⟩

instance : same.Lawful where
  token := by
    rintro _ c ⟨rfl, _⟩
    exact .refl _
  advance := by
    rintro _ c ⟨rfl, hc⟩
    exact same_agree fun _ c' h => Cursor.atToken_of_next? ((Goes.advance (c := c)).of_ok h).2
  seen := by
    rintro _ c ⟨rfl, _⟩
    cases hnext : c.next? with
    | none => exact .inl ⟨rfl, rfl⟩
    | some reached => exact .inr ⟨reached, reached, rfl, rfl, .inl ⟨rfl, rfl⟩⟩
  rereadSlash := by
    rintro _ c ⟨rfl, hc⟩
    exact same_rereadAlike fun c' h => (Cursor.rereads_of_rereadSlash hc h).atToken
  rereadBrace := by
    rintro _ c ⟨rfl, hc⟩
    exact same_rereadAlike fun c' h => (Cursor.rereads_of_rereadBrace hc h).atToken
  last_left h := h.elim
  last_right h := h.elim
  last_afterLineBreak h := h.elim
  last_atToken h := h.elim
  last_next h := h.elim
  last_rightPast h := h.elim
  last_seen h := h.elim
  left_next h := h.elim
  right_next h := h.elim
  left_slash h := h.elim
  left_brace h := h.elim
  right_slash h := h.elim
  right_brace h := h.elim

/-- To compare readers from the same cursor. -/
lemma same_corresponds {p q : Parse α} (h : ∀ c : Cursor, c.AtToken → same.Agree (p c) (q c)) :
    same.Corresponds p q where
  agree := by
    rintro _ c ⟨rfl, hc⟩
    exact h c hc
  left h := h.elim
  right h := h.elim
  last h := h.elim

end Likeness

namespace Grammar

open Parse Likeness

/-- From level `n` on, more levels read what fewer levels read. -/
def Extends (n : Nat) : Prop := ∀ m, n ≤ m → Corresponding same (level n) (level m)

lemma extends_zero : Extends 0 := by
  have hrefused : ∀ {p : Parse Node} (cause : SyntaxCause), same.Corresponds (reject cause) p :=
    fun cause => same_corresponds fun c _ => .lost trivial (same_lostRight _)
  exact fun m _ => ⟨advancing_exhausted, fun _ => hrefused _, fun _ => hrefused _,
    fun _ => hrefused _, fun _ _ => hrefused _, fun _ => hrefused _, fun _ => hrefused _⟩

variable {α : Type} {c : Cursor}

/-- Readers that come to an end: the left one is refused, or they come to the same. -/
lemma eq_or_refused {p q : Parse α} (h : same.Corresponds p q) (hc : c.AtToken)
    (hp : p c ≠ .fail .stalled) (hq : q c ≠ .fail .stalled) : q c = p c ∨ ∃ e, p c = .fail (.refused e) := by
  have hagree := h.agree (c := c) (d := c) ⟨rfl, hc⟩
  generalize hl : p c = l at hagree
  generalize hr : q c = r at hagree
  cases hagree with
  | stalledLeft => exact absurd hl hp
  | stalledRight => exact absurd hr hq
  | lost hlost _ =>
    cases l with
    | ok => exact hlost.elim
    | fail failure =>
      cases failure with
      | refused e => exact .inr ⟨e, rfl⟩
      | unreadable => exact hlost.elim
      | stalled => exact absurd hl hp
  | unreadable => exact .inl rfl
  | alike a h =>
    obtain ⟨rfl, _⟩ := h
    exact .inl rfl
  | last a h => exact h.elim

lemma Extends.assignment {n m : Nat} (h : Extends n) (hm : n ≤ m) (ctx : Context) (hc : c.AtToken) :
    (level m).assignment ctx c = (level n).assignment ctx c ∨
      ∃ e, (level n).assignment ctx c = .fail (.refused e) :=
  eq_or_refused ((h m hm).assignment ctx) hc ((advancing_level n).assignment ctx c hc).ne_stalled
    ((advancing_level m).assignment ctx c hc).ne_stalled

end Grammar

end BindingProxy
