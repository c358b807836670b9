import BindingProxy.Proofs.Grammar.Advance

/-!
# Reading alike

Two readers are compared, each from its own cursor.  A `Likeness` says which cursors are alike: they
have the same token, except at the end of the common text, where the left one may be at a semicolon
and the right one at a closing parenthesis.  Beyond that end nothing is compared any more, and a
reader that gets there, or that is refused, is lost.

Readers that correspond come to the same value and to cursors that are alike, or both are lost.
This is kept by all ways of putting readers together but looking ahead, where what is lost does
count.
-/

namespace BindingProxy

/-- Tokens that look alike to a reader that does not read them. -/
structure Token.LooksAlike (t t' : Token) : Prop where
  kind_eq : t'.kind = t.kind
  afterLineBreak_eq : t'.afterLineBreak = t.afterLineBreak

/-- Tokens that differ in their places only. -/
structure Token.Alike (t t' : Token) : Prop extends t.LooksAlike t' where
  text_eq : t'.text = t.text
  value_eq : t'.value = t.value

lemma Token.Alike.refl (t : Token) : t.Alike t := ⟨⟨rfl, rfl⟩, rfl, rfl⟩

/-- The kinds of the tokens at which the common text may end. -/
def TokenKind.IsEnding (k : TokenKind) : Prop :=
  k = .punctuator .semicolon ∨ k = .punctuator .closeParen ∨ k = .endOfText

/-- What two readers see that look at the next token, or the end of the common text. -/
def Token.SeenAlike (t t' : Token) : Prop :=
  t.LooksAlike t' ∨ (t.kind.IsEnding ∧ t'.kind.IsEnding)

/-- Which cursors are alike, at the end of the common text and before it, and which lie beyond the
end on either side. -/
structure Likeness where
  alike : Cursor → Cursor → Prop
  last : Cursor → Cursor → Prop
  leftPast : Cursor → Prop
  rightPast : Cursor → Prop
  /-- Whether the right reader may do anything when the left one is lost. -/
  free : Prop

namespace Likeness

open Parse

variable (S : Likeness) {α β σ ρ : Type}

/-- The left reader is refused or beyond the end. -/
def LostLeft : Reply α → Prop
  | .ok _ c => S.leftPast c
  | .fail .unreadable => False
  | .fail _ => True

/-- The right reader is refused or beyond the end. -/
def LostRight : Reply α → Prop
  | .ok _ c => S.free ∨ S.rightPast c
  | .fail .unreadable => S.free
  | .fail _ => True

/-- What two readers come to that read alike.  Want of turns counts for nothing. -/
inductive Agree : Reply α → Reply α → Prop
  | stalledLeft (r : Reply α) : Agree (.fail .stalled) r
  | stalledRight (r : Reply α) : Agree r (.fail .stalled)
  | lost {r r' : Reply α} (h : S.LostLeft r) (h' : S.LostRight r') : Agree r r'
  | unreadable : Agree (.fail .unreadable) (.fail .unreadable)
  | alike (a : α) {c d : Cursor} (h : S.alike c d) : Agree (.ok a c) (.ok a d)
  | last (a : α) {c d : Cursor} (h : S.last c d) : Agree (.ok a c) (.ok a d)

/-- What comes of reading a token again: a flaw on both sides, or alike cursors. -/
def RereadAlike (reached reached' : Cursor × Option Flaw) : Prop :=
  (reached.2 ≠ none ∧ reached'.2 ≠ none) ∨
    ∃ c d, reached = (c, none) ∧ reached' = (d, none) ∧ S.alike c d

/-- What has to be known of the cursors. -/
class Lawful : Prop where
  token {c d : Cursor} (h : S.alike c d) : c.token.Alike d.token
  advance {c d : Cursor} (h : S.alike c d) : S.Agree (advance c) (advance d)
  seen {c d : Cursor} (h : S.alike c d) : (c.next? = none ∧ d.next? = none) ∨
    ∃ reached reached', c.next? = some reached ∧ d.next? = some reached' ∧
      reached.1.token.SeenAlike reached'.1.token
  rereadSlash {c d : Cursor} (h : S.alike c d) : S.RereadAlike c.rereadSlash d.rereadSlash
  rereadBrace {c d : Cursor} (h : S.alike c d) : S.RereadAlike c.rereadBrace d.rereadBrace
  last_left {c d : Cursor} (h : S.last c d) : c.token.kind = .punctuator .semicolon
  last_right {c d : Cursor} (h : S.last c d) : d.token.kind = .punctuator .closeParen
  last_afterLineBreak {c d : Cursor} (h : S.last c d) :
    d.token.afterLineBreak = c.token.afterLineBreak
  last_atToken {c d : Cursor} (h : S.last c d) : c.AtToken
  /-- Past the semicolon at the end, the left reader is lost. -/
  last_next {c d : Cursor} (h : S.last c d) : ∃ c', c.next? = some (c', none) ∧ S.leftPast c'
  last_rightPast {c d : Cursor} (h : S.last c d) : S.rightPast d
  last_seen {c d c' d' : Cursor} (h : S.last c d) (hc : c.next? = some (c', none))
    (hd : d.next? = some (d', none)) : c'.token.kind.IsEnding ∧ d'.token.kind.IsEnding
  left_next {c : Cursor} (h : S.leftPast c) : ∃ c', c.next? = some (c', none) ∧ S.leftPast c'
  right_next {c : Cursor} (h : S.rightPast c) : ∃ c', c.next? = some (c', none) ∧ S.rightPast c'
  left_slash {c : Cursor} (h : S.leftPast c) : c.rereadSlash = (c, none)
  left_brace {c : Cursor} (h : S.leftPast c) : c.rereadBrace = (c, none)
  right_slash {c : Cursor} (h : S.rightPast c) : c.rereadSlash = (c, none)
  right_brace {c : Cursor} (h : S.rightPast c) : c.rereadBrace = (c, none)

/-- From alike cursors, `p` and `q` come to the same; beyond the end they stay there. -/
structure Within (p q : Parse α) : Prop where
  agree {c d : Cursor} (h : S.alike c d) : S.Agree (p c) (q d)
  left {c : Cursor} (h : S.leftPast c) : S.LostLeft (p c)
  right {d : Cursor} (h : S.rightPast d) : S.LostRight (q d)

/-- Also from the end of the common text `p` and `q` come to the same. -/
structure Corresponds (p q : Parse α) : Prop extends S.Within p q where
  last {c d : Cursor} (h : S.last c d) : S.Agree (p c) (q d)

variable {S} {p q : Parse α} {f f' : α → Parse β} {c d : Cursor}

/-! ### Sequences -/

lemma lostLeft_bind (hp : S.LostLeft (p c)) (hf : ∀ a {c}, S.leftPast c → S.LostLeft (f a c)) :
    S.LostLeft ((p >>= f) c) := by
  cases hread : p c with
  | ok a c' =>
    rw [bind_of_ok hread]
    rw [hread] at hp
    exact hf a hp
  | fail failure =>
    rw [bind_of_fail hread]
    rw [hread] at hp
    cases failure <;> exact hp

lemma lostRight_bind (hq : S.LostRight (q d)) (hf : ∀ a {d}, S.rightPast d → S.LostRight (f a d)) :
    S.LostRight ((q >>= f) d) := by
  by_cases hfree : S.free
  · cases (q >>= f) d with
    | ok => exact .inl hfree
    | fail failure =>
      cases failure with
      | unreadable => exact hfree
      | refused | stalled => trivial
  cases hread : q d with
  | ok a d' =>
    rw [bind_of_ok hread]
    rw [hread] at hq
    exact hf a (hq.resolve_left hfree)
  | fail failure =>
    rw [bind_of_fail hread]
    rw [hread] at hq
    cases failure <;> exact hq

lemma Agree.bind (hp : S.Agree (p c) (q d)) (hf : ∀ a, S.Corresponds (f a) (f' a)) :
    S.Agree ((p >>= f) c) ((q >>= f') d) := by
  generalize hl : p c = l at hp
  generalize hr : q d = r at hp
  cases hp with
  | stalledLeft =>
    rw [bind_of_fail hl]
    exact .stalledLeft _
  | stalledRight =>
    rw [bind_of_fail hr]
    exact .stalledRight _
  | lost h h' =>
    refine .lost (lostLeft_bind (hl ▸ h) fun a => (hf a).left) ?_
    exact lostRight_bind (hr ▸ h') fun a => (hf a).right
  | unreadable =>
    rw [bind_of_fail hl, bind_of_fail hr]
    exact .unreadable
  | alike a h =>
    rw [bind_of_ok hl, bind_of_ok hr]
    exact (hf a).agree h
  | last a h =>
    rw [bind_of_ok hl, bind_of_ok hr]
    exact (hf a).last h

lemma Within.bind (hp : S.Within p q) (hf : ∀ a, S.Corresponds (f a) (f' a)) :
    S.Within (p >>= f) (q >>= f') where
  agree h := (hp.agree h).bind hf
  left h := lostLeft_bind (hp.left h) fun a => (hf a).left
  right h := lostRight_bind (hp.right h) fun a => (hf a).right

namespace Corresponds

lemma bind (hp : S.Corresponds p q) (hf : ∀ a, S.Corresponds (f a) (f' a)) :
    S.Corresponds (p >>= f) (q >>= f') where
  toWithin := hp.toWithin.bind hf
  last h := (hp.last h).bind hf

lemma pure (a : α) : S.Corresponds (Pure.pure a) (Pure.pure a) where
  agree h := .alike a h
  left h := h
  right h := .inr h
  last h := .last a h

/-- Readers that are refused everywhere. -/
lemma of_refused (hp : ∀ c, ∃ e, p c = .fail (.refused e)) (hq : ∀ d, ∃ e, q d = .fail (.refused e)) :
    S.Corresponds p q := by
  have hleft : ∀ c, S.LostLeft (p c) := fun c => by
    obtain ⟨e, he⟩ := hp c
    rw [he]
    trivial
  have hright : ∀ d, S.LostRight (q d) := fun d => by
    obtain ⟨e, he⟩ := hq d
    rw [he]
    trivial
  exact ⟨⟨fun _ => .lost (hleft _) (hright _), fun _ => hleft _, fun _ => hright _⟩,
    fun _ => .lost (hleft _) (hright _)⟩

lemma reject (cause cause' : SyntaxCause) :
    S.Corresponds (Parse.reject cause : Parse α) (Parse.reject cause') :=
  of_refused (fun _ => ⟨_, rfl⟩) fun _ => ⟨_, rfl⟩

/-- A refusal before anything else. -/
lemma rejectThen (cause cause' : SyntaxCause) :
    S.Corresponds (Parse.reject cause >>= f) (Parse.reject cause' >>= f') :=
  of_refused (fun _ => ⟨_, rfl⟩) fun _ => ⟨_, rfl⟩

lemma unexpected : S.Corresponds (Parse.unexpected : Parse α) Parse.unexpected := by
  have hrefused : ∀ c, ∃ e, (Parse.unexpected : Parse α) c = .fail (.refused e) := by
    intro c
    by_cases h : c.token.kind = .endOfText
    · exact ⟨_, bind_of_ok (p := Parse.token) rfl |>.trans (by rw [if_pos h]; rfl)⟩
    · exact ⟨_, bind_of_ok (p := Parse.token) rfl |>.trans (by rw [if_neg h]; rfl)⟩
  exact of_refused hrefused hrefused

lemma map {f : α → β} (hp : S.Corresponds p q) : S.Corresponds (f <$> p) (f <$> q) :=
  hp.bind fun _ => pure _

lemma thenPure {f : α → β} (hp : S.Corresponds p q) :
    S.Corresponds (p >>= fun a => Pure.pure (f a)) (q >>= fun a => Pure.pure (f a)) := hp.map

lemma ite {b : Prop} [Decidable b] {p' q' : Parse α} (hp : S.Corresponds p q)
    (hq : S.Corresponds p' q') : S.Corresponds (if b then p else p') (if b then q else q') := by
  by_cases h : b
  · rw [if_pos h, if_pos h]
    exact hp
  · rw [if_neg h, if_neg h]
    exact hq

end Corresponds

/-! ### Beyond the end -/

section

variable [hS : S.Lawful]

lemma leftPast_of_moves {c' : Cursor} (h : S.leftPast c)
    (hmoves : Relation.ReflTransGen Cursor.Moves c c') : S.leftPast c' := by
  induction hmoves with
  | refl => exact h
  | tail _ hmove ih =>
    cases hmove with
    | next hnext =>
      obtain ⟨c', hc', hpast⟩ := hS.left_next ih
      rw [hnext] at hc'
      cases hc'
      exact hpast
    | slash hslash =>
      rw [hS.left_slash ih] at hslash
      cases hslash
      exact ih
    | brace hbrace =>
      rw [hS.left_brace ih] at hbrace
      cases hbrace
      exact ih

lemma rereads_of_kind {c : Cursor} {p : Punctuator} (hkind : c.token.kind = .punctuator p)
    (hp : p = .semicolon ∨ p = .closeParen) :
    c.rereadSlash = (c, none) ∧ c.rereadBrace = (c, none) := by
  rw [Cursor.rereadSlash, Cursor.rereadBrace, hkind]
  rcases hp with rfl | rfl <;> exact ⟨rfl, rfl⟩

/-- The moves from the last semicolon lead beyond the end. -/
lemma eq_or_leftPast_of_moves {c' : Cursor} (h : S.last c d)
    (hmoves : Relation.ReflTransGen Cursor.Moves c c') : c' = c ∨ S.leftPast c' := by
  have hreread := rereads_of_kind (hS.last_left h) (.inl rfl)
  induction hmoves with
  | refl => exact .inl rfl
  | tail _ hmove ih =>
    rcases ih with rfl | hpast
    · cases hmove with
      | next hnext =>
        obtain ⟨c', hc', hpast⟩ := hS.last_next h
        rw [hnext] at hc'
        cases hc'
        exact .inr hpast
      | slash hslash =>
        rw [hreread.1] at hslash
        cases hslash
        exact .inl rfl
      | brace hbrace =>
        rw [hreread.2] at hbrace
        cases hbrace
        exact .inl rfl
    · exact .inr (leftPast_of_moves hpast (.single hmove))

/-- What advances from the last semicolon is lost. -/
lemma lostLeft_of_advancesAt (h : S.last c d) (hp : AdvancesAt p c) : S.LostLeft (p c) := by
  cases hread : p c with
  | ok a c' =>
    have hpasses := (hp.of_ok hread).2
    refine (eq_or_leftPast_of_moves h hpasses.moves).resolve_left ?_
    rintro rfl
    exact Nat.lt_irrefl _ (hpasses.start_lt (hS.last_atToken h))
  | fail failure =>
    cases failure with
    | refused | stalled => trivial
    | unreadable =>
      obtain ⟨c', hmoves, hnone⟩ := hp.fails hread
      rcases eq_or_leftPast_of_moves h hmoves with rfl | hpast
      · obtain ⟨_, hnext, _⟩ := hS.last_next h
        rw [hnone] at hnext
        cases hnext
      · obtain ⟨_, hnext, _⟩ := hS.left_next hpast
        rw [hnone] at hnext
        cases hnext

/-- Where the left reader is lost at the last semicolon, readers need only be compared before. -/
lemma Within.of_lost (h : S.Within p q) (hp : ∀ {c d}, S.last c d → S.LostLeft (p c)) :
    S.Corresponds p q where
  toWithin := h
  last hlast := .lost (hp hlast) (h.right (hS.last_rightPast hlast))

lemma Within.of_advancesAt (h : S.Within p q)
    (hp : ∀ c : Cursor, c.AtToken → c.token.kind ≠ .endOfText → AdvancesAt p c) :
    S.Corresponds p q := by
  refine h.of_lost fun {c d} hlast => ?_
  have hkind : c.token.kind ≠ .endOfText := by
    rw [hS.last_left hlast]
    rintro ⟨⟩
  exact lostLeft_of_advancesAt hlast (hp c (hS.last_atToken hlast) hkind)

lemma Within.of_advances (h : S.Within p q) (hp : Advances p) : S.Corresponds p q :=
  h.of_advancesAt fun c hc _ => hp c hc

end

/-! ### Looking at tokens -/

section

variable [hS : S.Lawful]

lemma Within.kind {f f' : TokenKind → Parse β} (hf : ∀ k, S.Within (f k) (f' k)) :
    S.Within (Parse.kind >>= f) (Parse.kind >>= f') where
  agree {c d} h := by
    change S.Agree (f c.token.kind c) (f' d.token.kind d)
    rw [(hS.token h).kind_eq]
    exact (hf _).agree h
  left h := (hf _).left h
  right h := (hf _).right h

/-- A choice by the kind of the current token that is the same for a semicolon and a closing
parenthesis. -/
lemma Corresponds.kind {f f' : TokenKind → Parse β} (hf : ∀ k, S.Corresponds (f k) (f' k))
    (hsame : f' (.punctuator .closeParen) = f' (.punctuator .semicolon)) :
    S.Corresponds (Parse.kind >>= f) (Parse.kind >>= f') where
  toWithin := Within.kind fun k => (hf k).toWithin
  last {c d} h := by
    change S.Agree (f c.token.kind c) (f' d.token.kind d)
    rw [hS.last_left h, hS.last_right h, hsame]
    exact (hf _).last h

lemma Within.token {f f' : Token → Parse β} (hf : ∀ t t', t.Alike t' → S.Within (f t) (f' t')) :
    S.Within (Parse.token >>= f) (Parse.token >>= f') where
  agree h := (hf _ _ (hS.token h)).agree h
  left h := (hf _ _ (.refl _)).left h
  right h := (hf _ _ (.refl _)).right h

lemma Within.isAt {k : TokenKind} {f f' : Bool → Parse β} (hf : ∀ b, S.Within (f b) (f' b)) :
    S.Within (Parse.isAt k >>= f) (Parse.isAt k >>= f') :=
  Within.kind fun k' => hf (k' == k)

lemma Corresponds.isAt {k : TokenKind} {f f' : Bool → Parse β}
    (hf : ∀ b, S.Corresponds (f b) (f' b))
    (hk : k ≠ .punctuator .semicolon ∧ k ≠ .punctuator .closeParen) :
    S.Corresponds (Parse.isAt k >>= f) (Parse.isAt k >>= f') := by
  have hsame : f' (.punctuator .closeParen == k) = f' (.punctuator .semicolon == k) := by
    rw [beq_eq_false_iff_ne.2 hk.1.symm, beq_eq_false_iff_ne.2 hk.2.symm]
  exact Corresponds.kind (f := fun k' => f (k' == k)) (fun k' => hf _) hsame

/-- A choice by whether the current token is of a kind. -/
lemma Corresponds.ifKind {k : TokenKind} {p' q' : Parse α} (hp : S.Corresponds p q)
    (hq : S.Corresponds p' q') (hk : k ≠ .punctuator .semicolon ∧ k ≠ .punctuator .closeParen) :
    S.Corresponds (do if ← Parse.isAt k then p else p') (do if ← Parse.isAt k then q else q') :=
  isAt (fun _ => ite hp hq) hk

lemma Corresponds.afterLineBreak {f f' : Bool → Parse β} (hf : ∀ b, S.Corresponds (f b) (f' b)) :
    S.Corresponds (Parse.afterLineBreak >>= f) (Parse.afterLineBreak >>= f') where
  agree {c d} h := by
    change S.Agree (f c.token.afterLineBreak c) (f' d.token.afterLineBreak d)
    rw [(hS.token h).afterLineBreak_eq]
    exact (hf _).agree h
  left h := (hf _).left h
  right h := (hf _).right h
  last {c d} h := by
    change S.Agree (f c.token.afterLineBreak c) (f' d.token.afterLineBreak d)
    rw [hS.last_afterLineBreak h]
    exact (hf _).last h

end

/-! ### Moves -/

lemma moveTo_of_flaw {reached : Cursor × Option Flaw} (h : reached.2 ≠ none) (c : Cursor) :
    ∃ e, moveTo reached c = .fail (.refused e) := by
  obtain ⟨c', flaw⟩ := reached
  cases flaw with
  | none => exact absurd rfl h
  | some flaw => exact ⟨_, rfl⟩

section

variable [hS : S.Lawful]

lemma lostLeft_advance (h : S.leftPast c) : S.LostLeft (Parse.advance c) := by
  obtain ⟨c', hnext, hpast⟩ := hS.left_next h
  rw [advance_of_next? hnext]
  exact hpast

lemma lostRight_advance (h : S.rightPast d) : S.LostRight (Parse.advance d) := by
  obtain ⟨d', hnext, hpast⟩ := hS.right_next h
  rw [advance_of_next? hnext]
  exact .inr hpast

/-- Passing the last semicolon. -/
lemma lostLeft_advance_last (h : S.last c d) : S.LostLeft (Parse.advance c) := by
  obtain ⟨c', hnext, hpast⟩ := hS.last_next h
  rw [advance_of_next? hnext]
  exact hpast

namespace Corresponds

lemma advance : S.Corresponds Parse.advance Parse.advance where
  agree h := hS.advance h
  left h := lostLeft_advance h
  right h := lostRight_advance h
  last h := .lost (lostLeft_advance_last h) (lostRight_advance (hS.last_rightPast h))

lemma advanceThen {f f' : Unit → Parse β} (hf : S.Corresponds (f ()) (f' ())) :
    S.Corresponds (Parse.advance >>= f) (Parse.advance >>= f') := advance.bind fun _ => hf

lemma peek {f f' : Token → Parse β} (hf : ∀ t t', t.SeenAlike t' → S.Corresponds (f t) (f' t')) :
    S.Corresponds (Parse.peek >>= f) (Parse.peek >>= f') := by
  have hpeek : ∀ {g : Token → Parse β} {c : Cursor} {reached}, c.next? = some reached →
      (Parse.peek >>= g) c = g reached.1.token c := fun {g c reached} hnext => by
    refine bind_of_ok ?_
    rw [Parse.peek, hnext]
  refine ⟨⟨fun {c d} h => ?_, fun h => ?_, fun h => ?_⟩, fun {c d} h => ?_⟩
  · rcases hS.seen h with ⟨hc, hd⟩ | ⟨reached, reached', hc, hd, hseen⟩
    · have hstuck : ∀ {g : Token → Parse β} {c : Cursor}, c.next? = none →
          (Parse.peek >>= g) c = .fail .unreadable := fun hnext => by
        refine bind_of_fail ?_
        rw [Parse.peek, hnext]
      rw [hstuck hc, hstuck hd]
      exact .unreadable
    · rw [hpeek hc, hpeek hd]
      exact (hf _ _ hseen).agree h
  · obtain ⟨c', hnext, _⟩ := hS.left_next h
    rw [hpeek hnext]
    exact (hf _ _ (.inl ⟨rfl, rfl⟩)).left h
  · obtain ⟨d', hnext, _⟩ := hS.right_next h
    rw [hpeek hnext]
    exact (hf _ _ (.inl ⟨rfl, rfl⟩)).right h
  · obtain ⟨c', hc, _⟩ := hS.last_next h
    obtain ⟨d', hd, _⟩ := hS.right_next (hS.last_rightPast h)
    rw [hpeek hc, hpeek hd]
    exact (hf _ _ (.inr (hS.last_seen h hc hd))).last h

lemma rereadSlash : S.Corresponds Parse.rereadSlash Parse.rereadSlash where
  agree {c d} h := by
    rcases hS.rereadSlash h with ⟨hc, hd⟩ | ⟨c', d', hc, hd, halike⟩
    · obtain ⟨e, he⟩ := moveTo_of_flaw hc c
      obtain ⟨e', he'⟩ := moveTo_of_flaw hd d
      rw [Parse.rereadSlash, Parse.rereadSlash, he, he']
      exact .lost trivial trivial
    · rw [Parse.rereadSlash, Parse.rereadSlash, hc, hd]
      exact .alike () halike
  left {c} h := by
    rw [Parse.rereadSlash, hS.left_slash h]
    exact h
  right {d} h := by
    rw [Parse.rereadSlash, hS.right_slash h]
    exact .inr h
  last {c d} h := by
    rw [Parse.rereadSlash, (rereads_of_kind (hS.last_left h) (.inl rfl)).1, Parse.rereadSlash,
      (rereads_of_kind (hS.last_right h) (.inr rfl)).1]
    exact .last () h

end Corresponds

/-- A brace that is read again, with a choice by the token that it becomes. -/
lemma Within.rereadBrace {f f' : Token → Parse β}
    (hf : ∀ t t', t.Alike t' → S.Within (f t) (f' t')) :
    S.Within (Parse.rereadBrace >>= fun _ => Parse.token >>= f)
      (Parse.rereadBrace >>= fun _ => Parse.token >>= f') := by
  have hread : ∀ {g : Token → Parse β} {c c' : Cursor}, c.rereadBrace = (c', none) →
      (Parse.rereadBrace >>= fun _ => Parse.token >>= g) c = g c'.token c' := fun {g c c'} h => by
    have hok : Parse.rereadBrace c = .ok () c' := by
      rw [Parse.rereadBrace, h]
      rfl
    exact bind_of_ok hok
  refine ⟨fun {c d} h => ?_, fun {c} h => ?_, fun {d} h => ?_⟩
  · rcases hS.rereadBrace h with hflaws | ⟨c', d', hc, hd, halike⟩
    · obtain ⟨e, he⟩ := moveTo_of_flaw hflaws.1 c
      obtain ⟨e', he'⟩ := moveTo_of_flaw hflaws.2 d
      rw [bind_of_fail (p := Parse.rereadBrace) he, bind_of_fail (p := Parse.rereadBrace) he']
      exact .lost trivial trivial
    · rw [hread hc, hread hd]
      exact (hf _ _ (hS.token halike)).agree halike
  · rw [hread (hS.left_brace h)]
    exact (hf _ _ (.refl _)).left h
  · rw [hread (hS.right_brace h)]
    exact (hf _ _ (.refl _)).right h

namespace Corresponds

/-! ### Taking tokens -/

lemma accept {p : Punctuator} {f f' : Bool → Parse β} (hf : ∀ b, S.Corresponds (f b) (f' b))
    (hp : p ≠ .semicolon ∧ p ≠ .closeParen) :
    S.Corresponds (Parse.accept p >>= f) (Parse.accept p >>= f') := by
  have haccept : S.Corresponds (Parse.accept p) (Parse.accept p) :=
    ifKind advance.thenPure (pure _) (by simpa using hp)
  exact haccept.bind hf

lemma ifAccept {k : Punctuator} {p' q' : Parse α} (hp : S.Corresponds p q)
    (hq : S.Corresponds p' q') (hk : k ≠ .semicolon ∧ k ≠ .closeParen) :
    S.Corresponds (do if ← Parse.accept k then p else p') (do if ← Parse.accept k then q else q') :=
  accept (fun _ => ite hp hq) hk

lemma acceptWord {w : ReservedWord} {f f' : Bool → Parse β}
    (hf : ∀ b, S.Corresponds (f b) (f' b)) :
    S.Corresponds (Parse.acceptWord w >>= f) (Parse.acceptWord w >>= f') := by
  have haccept : S.Corresponds (Parse.acceptWord w) (Parse.acceptWord w) :=
    ifKind advance.thenPure (pure _) ⟨by rintro ⟨⟩, by rintro ⟨⟩⟩
  exact haccept.bind hf

lemma ifAcceptWord {w : ReservedWord} {p' q' : Parse α} (hp : S.Corresponds p q)
    (hq : S.Corresponds p' q') : S.Corresponds (do if ← Parse.acceptWord w then p else p')
      (do if ← Parse.acceptWord w then q else q') :=
  acceptWord fun _ => ite hp hq

end Corresponds

/-- What follows a punctuator that may be missing. -/
lemma Within.acceptThen {p : Punctuator} {f f' : Bool → Parse β}
    (htrue : S.Corresponds (f true) (f' true)) (hfalse : S.Within (f false) (f' false)) :
    S.Within (Parse.accept p >>= f) (Parse.accept p >>= f') where
  agree {c d} h := by
    have hkind := (hS.token h).kind_eq
    by_cases hp : c.token.kind = .punctuator p
    · rw [accept_bind_of_at hp, accept_bind_of_at (hkind.trans hp)]
      exact (hS.advance h).bind fun _ => htrue
    · rw [accept_bind_of_not hp, accept_bind_of_not (hkind ▸ hp)]
      exact hfalse.agree h
  left {c} h := by
    by_cases hp : c.token.kind = .punctuator p
    · rw [accept_bind_of_at hp]
      exact lostLeft_bind (lostLeft_advance h) fun _ => htrue.left
    · rw [accept_bind_of_not hp]
      exact hfalse.left h
  right {d} h := by
    by_cases hp : d.token.kind = .punctuator p
    · rw [accept_bind_of_at hp]
      exact lostRight_bind (lostRight_advance h) fun _ => htrue.right
    · rw [accept_bind_of_not hp]
      exact hfalse.right h

/-- What follows a semicolon that may be missing.  At the end of the common text it is passed on the
left, where the right reader goes on without one. -/
lemma Corresponds.acceptSemicolon {f f' : Bool → Parse β}
    (htrue : S.Corresponds (f true) (f' true)) (hfalse : S.Within (f false) (f' false)) :
    S.Corresponds (Parse.accept .semicolon >>= f) (Parse.accept .semicolon >>= f') where
  toWithin := Within.acceptThen htrue hfalse
  last {c d} h := by
    rw [accept_bind_of_at (hS.last_left h),
      accept_bind_of_not (by rw [hS.last_right h]; rintro ⟨⟩)]
    exact .lost (lostLeft_bind (lostLeft_advance_last h) fun _ => htrue.left)
      (hfalse.right (hS.last_rightPast h))

/-- What follows where a token of a kind stands that is not met at the end. -/
lemma Corresponds.ifAt {k : TokenKind} {p p' q q' : Parse α} (hp : S.Within p q)
    (hp' : S.Corresponds p' q') (hk : k ≠ .punctuator .semicolon ∧ k ≠ .punctuator .closeParen) :
    S.Corresponds (Parse.isAt k >>= fun b => if b = true then p else p')
      (Parse.isAt k >>= fun b => if b = true then q else q') where
  toWithin := Within.isAt fun b => by
    cases b with
    | true => exact hp
    | false => exact hp'.toWithin
  last {c d} h := by
    rw [isAt_bind, isAt_bind, hS.last_left h, hS.last_right h, beq_eq_false_iff_ne.2 hk.1.symm,
      beq_eq_false_iff_ne.2 hk.2.symm]
    exact hp'.last h

/-- What follows unless a closing parenthesis stands here. -/
lemma Corresponds.ifAtClose {p p' q q' : Parse α} (hp : S.Corresponds p q) (hp' : S.Within p' q')
    (hadvances : Advances p') :
    S.Corresponds (Parse.isAt (.punctuator .closeParen) >>= fun b => if b = true then p else p')
      (Parse.isAt (.punctuator .closeParen) >>= fun b => if b = true then q else q') where
  toWithin := Within.isAt fun b => by
    cases b with
    | true => exact hp.toWithin
    | false => exact hp'
  last {c d} h := by
    rw [isAt_bind, isAt_bind, hS.last_left h, hS.last_right h]
    exact .lost (lostLeft_of_advancesAt h (hadvances _ (hS.last_atToken h)))
      (hp.right (hS.last_rightPast h))

namespace Corresponds

lemma expect (p : Punctuator) : S.Corresponds (Parse.expect p) (Parse.expect p) := by
  refine Within.of_advances ?_ (advances_expect p)
  exact Within.acceptThen (pure _) (reject _ _).toWithin

lemma expectWord (w : ReservedWord) : S.Corresponds (Parse.expectWord w) (Parse.expectWord w) :=
  ifAcceptWord (pure _) (reject _ _)

lemma expectThen {p : Punctuator} {f f' : Unit → Parse β} (hf : S.Corresponds (f ()) (f' ())) :
    S.Corresponds (Parse.expect p >>= f) (Parse.expect p >>= f') := (expect p).bind fun _ => hf

lemma expectWordThen {w : ReservedWord} {f f' : Unit → Parse β}
    (hf : S.Corresponds (f ()) (f' ())) :
    S.Corresponds (Parse.expectWord w >>= f) (Parse.expectWord w >>= f') :=
  (expectWord w).bind fun _ => hf

lemma name : S.Corresponds Parse.name Parse.name := by
  refine Within.of_advances (Within.token fun t t' h => ?_) advances_name
  rw [h.kind_eq, h.value_eq]
  exact (ite advance.thenPure (reject _ _)).toWithin

lemma word : S.Corresponds Parse.word Parse.word := by
  refine Within.of_advances (Within.token fun t t' h => ?_) advances_word
  rw [h.kind_eq, h.value_eq]
  exact (ite advance.thenPure (reject _ _)).toWithin

end Corresponds

lemma Within.canEnd {f f' : Bool → Parse β} (hf : ∀ b, S.Within (f b) (f' b)) :
    S.Within (Parse.canEnd >>= f) (Parse.canEnd >>= f') where
  agree {c d} h := by
    have htoken := hS.token h
    have hends : ∀ (g : Bool → Parse β) (c : Cursor), (Parse.canEnd >>= g) c =
        g (c.token.kind == .punctuator .semicolon || c.token.kind == .punctuator .closeBrace ||
          c.token.kind == .endOfText || c.token.afterLineBreak) c := fun _ _ => rfl
    rw [hends, hends, htoken.kind_eq, htoken.afterLineBreak_eq]
    exact (hf _).agree h
  left h := (hf _).left h
  right h := (hf _).right h

lemma Corresponds.endStatement : S.Corresponds Parse.endStatement Parse.endStatement := by
  refine acceptSemicolon (pure _) (Within.canEnd fun b => ?_)
  exact (ite (pure _) (reject _ _)).toWithin

end

/-! ### Repetition -/

section

variable {turn turn' : σ → Parse (Turn σ ρ)}

lemma lostLeft_repeatWithin (hturn : ∀ s {c}, S.leftPast c → S.LostLeft (turn s c))
    (bound : List Char) (s : σ) (h : S.leftPast c) : S.LostLeft (repeatWithin turn bound s c) := by
  induction bound generalizing s c with
  | nil => trivial
  | cons x bound ih =>
    refine lostLeft_bind (hturn s h) fun t c hpast => ?_
    cases t with
    | again s' => exact ih s' hpast
    | done r => exact hpast

lemma lostRight_repeatWithin (hturn : ∀ s {d}, S.rightPast d → S.LostRight (turn s d))
    (bound : List Char) (s : σ) (h : S.rightPast d) : S.LostRight (repeatWithin turn bound s d) := by
  induction bound generalizing s d with
  | nil => trivial
  | cons x bound ih =>
    refine lostRight_bind (hturn s h) fun t d hpast => ?_
    cases t with
    | again s' => exact ih s' hpast
    | done r => exact .inr hpast

/-- The numbers of turns need not be the same. -/
lemma Corresponds.repeatWithin (hturn : ∀ s, S.Corresponds (turn s) (turn' s))
    (bound bound' : List Char) (s : σ) :
    S.Corresponds (Parse.repeatWithin turn bound s) (Parse.repeatWithin turn' bound' s) := by
  induction bound generalizing bound' s with
  | nil => exact ⟨⟨fun _ => .stalledLeft _, fun _ => trivial,
      lostRight_repeatWithin (fun s => (hturn s).right) bound' s⟩, fun _ => .stalledLeft _⟩
  | cons x bound ih =>
    cases bound' with
    | nil => exact ⟨⟨fun _ => .stalledRight _,
        lostLeft_repeatWithin (fun s => (hturn s).left) (x :: bound) s, fun _ => trivial⟩,
        fun _ => .stalledRight _⟩
    | cons x' bound' =>
      refine (hturn s).bind fun t => ?_
      cases t with
      | again s' => exact ih bound' s'
      | done r => exact pure r

lemma Corresponds.repeatFrom {s : σ} (hturn : ∀ s, S.Corresponds (turn s) (turn' s)) :
    S.Corresponds (Parse.repeatFrom s turn) (Parse.repeatFrom s turn') where
  agree h := (repeatWithin hturn _ _ s).agree h
  left h := (repeatWithin hturn _ [] s).left h
  right h := (repeatWithin hturn [] _ s).right h
  last h := (repeatWithin hturn _ _ s).last h

end

end Likeness

end BindingProxy
