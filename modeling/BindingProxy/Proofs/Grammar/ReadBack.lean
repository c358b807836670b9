import BindingProxy.Proofs.Grammar.Phrase

/-!
# Reading phrases back

A grammar reads phrases back if each of its rules gives, from the words of a phrase and what ends
it, the expression that the words spell.  The rules of the level above are written in terms of such
a grammar, so they read phrases back as well, and with them all levels do.

Every rule may also refuse to go further in.  Where operands stand to the left, the rules do not
call themselves but repeat a turn, and the phrases are read back along their left edge: what is said
about a phrase there is said about any way in which the repetition goes on after it.
-/

namespace BindingProxy

open Word

namespace Grammar

open Parse

/-- The kinds of words that begin a link of an operand. -/
def startsLink : TokenKind → Bool
  | .punctuator .dot | .punctuator .openBracket | .punctuator .questionDot | .punctuator .openParen
  | .templateWhole | .templateHead => true
  | _ => false

/-- The kinds of words that go on with an operand. -/
def continuesOperand (k : TokenKind) : Bool :=
  startsLink k || (UpdateOperator.ofToken? k).isSome

/-- Words before which operands with operators stronger than `limit` end. -/
def EndsOperands (limit : Nat) (rest : List Word) : Prop :=
  continuesOperand (headKind rest) = false ∧
    ∀ operator, InfixOperator.ofToken? (headKind rest) = some operator → operator.strength ≤ limit

/-- Refusing to go further in is allowed, or there are as many levels as are needed. -/
def Affords (F : SyntaxCause → Prop) (levels need : Nat) : Prop :=
  F .nestedTooDeeply ∨ need ≤ levels

lemma Affords.of_le {F : SyntaxCause → Prop} {levels need need' : Nat} (h : Affords F levels need)
    (hle : need' ≤ need) : Affords F levels need' :=
  h.imp_right fun hneed => Nat.le_trans hle hneed

/-- One level further in. -/
lemma Affords.below {F : SyntaxCause → Prop} {levels need : Nat}
    (h : Affords F (levels + 1) (need + 1)) : Affords F levels need :=
  h.imp_right Nat.le_of_succ_le_succ

/-- The rules of a grammar with a number of levels read phrases back.  A phrase takes at most three
levels for each of its words.  The rule for targets comes to an end before words that it has passed
over. -/
structure ReadsBack (n : Nat) (g : Grammar) : Prop where
  target {ws : List Word} (htame : Tame ws) :
    Settles (g.target {}) ws fun _ vs => vs <:+ ws ∧ vs.length < ws.length
  assignment {F : SyntaxCause → Prop} {e : Node} {ws rest : List Word}
    (h : Derives .assignment e ws) (hrest : closes (headKind rest) = true)
    (htame : Tame (ws ++ rest)) (hlevels : Affords F n (3 * ws.length + 2)) :
    Reads F (g.assignment {}) (ws ++ rest) e rest
  operand {F : SyntaxCause → Prop} {limit : Nat} {e : Node} {ws rest : List Word}
    (h : Derives (.infixed limit) e ws) (hrest : EndsOperands limit rest)
    (htame : Tame (ws ++ rest)) (hlevels : Affords F n (3 * ws.length + 2)) :
    Reads F (g.operand limit {}) (ws ++ rest) e rest
  unary {F : SyntaxCause → Prop} {e : Node} {ws rest : List Word} (h : Derives .unary e ws)
    (hrest : continuesOperand (headKind rest) = false) (htame : Tame (ws ++ rest))
    (hlevels : Affords F n (3 * ws.length + 1)) :
    Reads F (g.unary {}) (ws ++ rest) e rest
  construction {F : SyntaxCause → Prop} {callee : Node} {ws rest : List Word}
    {items : List (Node × List Word)} (hcallee : Derives (.linked false) callee ws)
    (hitems : ∀ e ws, (e, ws) ∈ items → Derives .item e ws)
    (htame : Tame (reserved .kwNew :: (ws ++ (parenthesizedWords (items.map Prod.snd) ++ rest))))
    (hlevels : Affords F n (3 * (ws ++ parenthesizedWords (items.map Prod.snd)).length)) :
    Reads F (g.construction {})
      (reserved .kwNew :: (ws ++ (parenthesizedWords (items.map Prod.snd) ++ rest)))
      (.construction callee (items.map Prod.fst)) rest

/-! ### Looking for parameters -/

lemma Tame.suffix {us ws : List Word} (h : Tame ws) (hsuffix : us <:+ ws) : Tame us := by
  obtain ⟨vs, rfl⟩ := hsuffix
  exact h.append_right

/-- A repetition comes to an end if each of its turns does and passes over words before the next
one. -/
lemma settles_loop {σ ρ : Type} {turn : σ → Parse (Turn σ ρ)}
    (h : ∀ s ws, Tame ws → Settles (turn s) ws fun t vs =>
      vs <:+ ws ∧ ∀ s', t = .again s' → vs.length < ws.length)
    (s : σ) {ws : List Word} (htame : Tame ws) :
    Loops (fun _ => True) turn s ws fun _ vs => vs <:+ ws := by
  induction hlength : ws.length using Nat.strongRecOn generalizing s ws with
  | ind n ih =>
    refine Loops.step ((h s ws htame).mono (fun _ _ => trivial) ?_)
    rintro (s' | r) vs ⟨hsuffix, hshorter⟩
    · have hless := hshorter s' rfl
      refine ⟨hless, fun bound hbound => ?_⟩
      have hloop := ih vs.length (hlength ▸ hless) s' (Tame.suffix htame hsuffix) rfl bound hbound
      exact hloop.mono (fun _ _ => trivial) fun _ _ hvs => hvs.trans hsuffix
    · exact hsuffix

section

variable {F : SyntaxCause → Prop} {n : Nat} {g : Grammar} (hg : ReadsBack n g) {e : Node}
  {ws rest : List Word}
include hg

lemma settles_bindingElement (htame : Tame ws) :
    Settles (bindingElement g {}) ws fun _ vs => vs <:+ ws ∧ vs.length < ws.length := by
  refine Runs.bind (hg.target htame) ?_
  rintro target vs ⟨hsuffix, hless⟩
  refine Runs.accept (fun w us hvs hkind => ?_) fun _ => Runs.pure ⟨hsuffix, hless⟩
  subst hvs
  have htame' := Tame.suffix htame hsuffix
  obtain ⟨e, us, rest, rfl, he, hrest⟩ := htame'.2.1 hkind
  refine Runs.seq (hg.assignment he hrest htame'.2.2 (.inl trivial)) (Runs.pure ?_)
  have hsuffix' : rest <:+ w :: (us ++ rest) := List.suffix_append (w :: us) rest
  simp only [List.length_cons, List.length_append] at hless
  exact ⟨hsuffix'.trans hsuffix, by omega⟩

/-- The turn of a list of elements in a pattern: a rest element ends the list, and another element
goes on with it if a comma follows. -/
lemma settles_element {σ ρ : Type} (htame : Tame ws) {ending last : Node → ρ} {next : Node → σ} :
    Settles
      (do
        if ← accept .ellipsis then return .done (ending (← g.target {}))
        let element ← bindingElement g {}
        if ← accept .comma then return .again (next element) else return .done (last element))
      ws fun (t : Turn σ ρ) vs => vs <:+ ws ∧ ∀ s, t = .again s → vs.length < ws.length := by
  refine Runs.accept (fun w us hws _ => ?_) fun _ => ?_
  · subst hws
    refine Runs.bind (hg.target htame.2.2) ?_
    rintro target vs ⟨hsuffix, _⟩
    exact Runs.pure ⟨hsuffix.trans (List.suffix_cons _ _), nofun⟩
  · refine Runs.bind (settles_bindingElement hg htame) ?_
    rintro element vs ⟨hsuffix, hless⟩
    refine Runs.accept (fun w us hvs _ => ?_) fun _ => ?_
    · subst hvs
      refine Runs.pure ⟨(List.suffix_cons _ _).trans hsuffix, fun _ _ => ?_⟩
      rw [List.length_cons] at hless
      omega
    · exact Runs.pure ⟨hsuffix, nofun⟩

omit hg in
/-- A list between two tokens. -/
lemma settles_enclosed {σ ρ α : Type} {first last : Punctuator} {s : σ}
    {turn : σ → Parse (Turn σ ρ)} {f : ρ → α}
    (hturn : ∀ s ws, Tame ws → Settles (turn s) ws fun t vs =>
      vs <:+ ws ∧ ∀ s', t = .again s' → vs.length < ws.length) (htame : Tame ws) :
    Settles
      (do
        expect first
        let found ← repeatFrom s turn
        expect last
        return f found)
      ws fun _ vs => vs <:+ ws ∧ vs.length < ws.length := by
  refine Runs.expectOr trivial fun w us hws => ?_
  subst hws
  refine Runs.bind (Loops.repeatFrom (settles_loop hturn s htame.2.2)) fun found vs hsuffix => ?_
  refine Runs.expectOr trivial fun w' us' hvs => Runs.pure ?_
  subst hvs
  have hle := hsuffix.length_le
  simp only [List.length_cons] at hle ⊢
  exact ⟨(List.suffix_cons _ _).trans (hsuffix.trans (List.suffix_cons _ _)), by omega⟩

lemma settles_parameters (htame : Tame ws) :
    Settles (parameters g {}) ws fun _ vs => vs <:+ ws ∧ vs.length < ws.length := by
  refine settles_enclosed (fun found ws htame => Runs.isAt ?_) htame
  split
  · exact Runs.pure ⟨List.suffix_rfl, nofun⟩
  · exact settles_element hg htame

lemma settles_arrayPattern (htame : Tame ws) :
    Settles (arrayPattern g {}) ws fun _ vs => vs <:+ ws ∧ vs.length < ws.length := by
  refine settles_enclosed (fun found ws htame => Runs.isAt ?_) htame
  split
  · exact Runs.pure ⟨List.suffix_rfl, nofun⟩
  refine Runs.accept (fun w us hws _ => ?_) fun _ => settles_element hg htame
  subst hws
  exact Runs.pure ⟨List.suffix_cons _ _, fun _ _ => by simp⟩

lemma settles_bindingTarget (htame : Tame ws) :
    Settles (bindingTarget g {}) ws fun _ vs => vs <:+ ws ∧ vs.length < ws.length := by
  refine Runs.kind ?_
  split
  case h_1 => exact settles_arrayPattern hg htame
  case h_2 hkind => exact absurd hkind htame.headKind_ne_openBrace
  case h_3 =>
    refine Runs.nameOr trivial fun w us hws => Runs.pure ?_
    subst hws
    exact ⟨List.suffix_cons _ _, by simp⟩

/-- No arrow stands after parameters among tame words. -/
lemma reads_isArrowAhead (htame : Tame ws) : Reads F (isArrowAhead g {}) ws false ws := by
  refine Runs.kind ?_
  split
  case isTrue hname =>
    cases ws with
    | nil => cases hname
    | cons w ws =>
      refine Runs.peek fun t ht => Runs.pure ⟨?_, rfl⟩
      rw [ht, beq_eq_false_iff_ne.2 htame.2.2.headKind_ne_arrow, Bool.false_and]
  split
  case isTrue =>
    refine Runs.lookAhead ?_
    refine Runs.bind (settles_parameters hg htame) fun _ vs hvs => ?_
    refine Runs.tokenOfKind fun t ht => Runs.pure ?_
    rw [ht, beq_eq_false_iff_ne.2 (Tame.suffix htame hvs.1).headKind_ne_arrow, Bool.false_and]
  case isFalse => exact Runs.value

/-- No arrow function begins at the words of an expression. -/
lemma reads_arrowFunction? (h : Derives .assignment e ws) (htame : Tame (ws ++ rest)) :
    Reads F (arrowFunction? g {}) (ws ++ rest) none (ws ++ rest) := by
  have hasync : headKind (ws ++ rest) ≠ .contextual .kwAsync := by
    intro hkind
    have hstart := h.startsWith rest
    rw [hkind] at hstart
    cases hstart
  have hahead : Reads F (isAsyncArrowAhead g {}) (ws ++ rest) false (ws ++ rest) :=
    Runs.isAt_false hasync Runs.value
  refine Runs.seq hahead ?_
  exact Runs.seq (reads_isArrowAhead hg htame) Runs.value

/-! ### Lists -/

omit hg in
/-- A list of elements with commas is read element by element, if each turn reads one. -/
lemma loops_elements {α : Type} {turn : List α → Parse (Turn (List α) (List α))} {close : List Word}
    (elements : List (α × Option (List Word)))
    (hend : ∀ found, Reads F (turn found) close (.done found.reverse) close)
    (hhole : ∀ found a rest, (a, none) ∈ elements →
      Reads F (turn found) (punctuator .comma :: rest) (.again (a :: found)) rest)
    (hlast : ∀ found a ws, (a, some ws) ∈ elements → Tame (ws ++ close) →
      Reads F (turn found) (ws ++ close) (.done (a :: found).reverse) close)
    (hmore : ∀ found a ws rest, (a, some ws) ∈ elements → Tame (ws ++ punctuator .comma :: rest) →
      Reads F (turn found) (ws ++ punctuator .comma :: rest) (.again (a :: found)) rest)
    (found : List α) (htame : Tame (elementWords (elements.map Prod.snd) ++ close)) :
    Loops F turn found (elementWords (elements.map Prod.snd) ++ close)
      fun r vs => r = found.reverse ++ elements.map Prod.fst ∧ vs = close := by
  induction elements generalizing found with
  | nil => exact Loops.done (hend found) ⟨by simp, rfl⟩
  | cons element elements ih =>
    have hrest := ih (fun found a rest hmem => hhole found a rest (List.mem_cons_of_mem _ hmem))
      (fun found a ws hmem => hlast found a ws (List.mem_cons_of_mem _ hmem))
      (fun found a ws rest hmem => hmore found a ws rest (List.mem_cons_of_mem _ hmem))
      (element.1 :: found)
    have hvalues : (element.1 :: found).reverse ++ elements.map Prod.fst =
        found.reverse ++ (element :: elements).map Prod.fst := by simp
    rw [hvalues] at hrest
    match element, elements with
    | (a, none), elements =>
      exact Loops.again (hhole found a _ List.mem_cons_self) (by simp [elementWords])
        (hrest htame.2.2)
    | (a, some ws), [] =>
      exact Loops.done (hlast found a ws List.mem_cons_self htame) ⟨by simp, rfl⟩
    | (a, some ws), second :: elements =>
      have hwords : elementWords (((a, some ws) :: second :: elements).map Prod.snd) ++ close =
          ws ++ punctuator .comma ::
            (elementWords ((second :: elements).map Prod.snd) ++ close) :=
        List.append_assoc _ _ _
      rw [hwords] at htame ⊢
      refine Loops.again (hmore found a ws _ List.mem_cons_self htame) ?_
        (hrest htame.append_right.2.2)
      simp only [List.length_append, List.length_cons]
      omega

lemma reads_spreadOrAssignment (h : Derives .item e ws) (hrest : closes (headKind rest) = true)
    (htame : Tame (ws ++ rest)) (hlevels : Affords F n (3 * ws.length + 2)) :
    Reads F (spreadOrAssignment g {}) (ws ++ rest) e rest := by
  cases h with
  | item h =>
    refine Runs.accept_false (fun hkind => ?_) (hg.assignment h hrest htame hlevels)
    have hstart := h.startsWith rest
    rw [hkind] at hstart
    cases hstart
  | spread h =>
    refine Runs.accept_true rfl ?_
    have hlevels' := hlevels.of_le (Nat.add_le_add_right (Nat.mul_le_mul_left 3 (Nat.le_succ _)) 2)
    exact Runs.seq (hg.assignment h hrest htame.2.2 hlevels') Runs.value

/-- An item is the last one if no comma follows it. -/
lemma reads_turnOfItem {σ ρ : Type} {next : Node → σ} {last : Node → ρ} {t : Turn σ ρ}
    {us : List Word} (h : Derives .item e ws) (hrest : closes (headKind rest) = true)
    (htame : Tame (ws ++ rest)) (hlevels : Affords F n (3 * ws.length + 2))
    (hcomma : Reads F
      (do if ← accept .comma then return .again (next e) else return .done (last e)) rest t us) :
    Reads F
      (do
        let item ← spreadOrAssignment g {}
        if ← accept .comma then return .again (next item) else return .done (last item))
      (ws ++ rest) t us :=
  Runs.seq (reads_spreadOrAssignment hg h hrest htame hlevels) hcomma

omit hg in
/-- An item does not begin with what closes a list or leaves a place empty. -/
lemma headKind_item_ne (h : Derives .item e ws) (rest : List Word) {k : TokenKind}
    (hk : Phrase.item.startsWith k = false) : headKind (ws ++ rest) ≠ k := by
  intro hkind
  have hstart := h.startsWith rest
  rw [hkind, hk] at hstart
  cases hstart

omit hg in
/-- An element has no more words than all of them together. -/
lemma length_le_elementWords {elements : List (Option (List Word))} (h : some ws ∈ elements) :
    ws.length ≤ (elementWords elements).length := by
  fun_induction elementWords elements with
  | case1 => cases h
  | case2 elements ih =>
    have := ih (List.mem_of_ne_of_mem (by simp) h)
    simp only [List.length_cons]
    omega
  | case3 us =>
    cases List.mem_singleton.1 h
    exact Nat.le_refl _
  | case4 us elements _ ih =>
    simp only [List.length_append, List.length_cons]
    rcases List.mem_cons.1 h with heq | hmem
    · cases heq
      omega
    · have := ih hmem
      omega

lemma reads_arguments {items : List (Node × List Word)}
    (hitems : ∀ e ws, (e, ws) ∈ items → Derives .item e ws)
    (htame : Tame (parenthesizedWords (items.map Prod.snd) ++ rest))
    (hlevels : Affords F n (3 * (separated (items.map Prod.snd)).length + 2)) :
    Reads F (arguments g {}) (parenthesizedWords (items.map Prod.snd) ++ rest) (items.map Prod.fst)
      rest := by
  let elements : List (Node × Option (List Word)) := items.map fun item => (item.1, some item.2)
  have hmem : ∀ e ws, (e, some ws) ∈ elements → Derives .item e ws := by
    intro e ws hmem
    simp only [elements, List.mem_map, Prod.mk.injEq, Option.some.injEq] at hmem
    obtain ⟨⟨_, _⟩, hmem, rfl, rfl⟩ := hmem
    exact hitems _ _ hmem
  have hwords : parenthesizedWords (items.map Prod.snd) ++ rest =
      punctuator .openParen ::
        (elementWords (elements.map Prod.snd) ++ punctuator .closeParen :: rest) := by
    simp [parenthesizedWords, separated, elements, Function.comp_def]
  have hlevels' : ∀ e ws, (e, some ws) ∈ elements → Affords F n (3 * ws.length + 2) := by
    intro e ws hmem
    have hle : ws.length ≤ (separated (items.map Prod.snd)).length := by
      refine length_le_elementWords ?_
      simp only [elements, List.mem_map, Prod.mk.injEq] at hmem
      obtain ⟨item, hmem, -, heq⟩ := hmem
      exact heq ▸ List.mem_map_of_mem (List.mem_map_of_mem hmem)
    exact hlevels.of_le (by omega)
  have hvalues : elements.map Prod.fst = items.map Prod.fst := by
    simp [elements, Function.comp_def]
  rw [hwords] at htame ⊢
  refine Runs.expect rfl (Runs.bind (Loops.repeatFrom (loops_elements elements ?_ ?_ ?_ ?_ []
    htame.2.2)) ?_)
  · exact fun found => Runs.isAt_true rfl Runs.value
  · intro found a rest hmem
    simp [elements] at hmem
  · intro found a ws ha htame
    refine Runs.isAt_false (headKind_item_ne (hmem a ws ha) _ rfl) ?_
    exact reads_turnOfItem hg (hmem a ws ha) rfl htame (hlevels' a ws ha)
      (Runs.accept_false (by rintro ⟨⟩) Runs.value)
  · intro found a ws rest ha htame
    refine Runs.isAt_false (headKind_item_ne (hmem a ws ha) _ rfl) ?_
    exact reads_turnOfItem hg (hmem a ws ha) rfl htame (hlevels' a ws ha)
      (Runs.accept_true rfl Runs.value)
  · rintro _ _ ⟨rfl, rfl⟩
    exact Runs.expect rfl (Runs.pure ⟨hvalues, rfl⟩)

lemma reads_arrayLiteral {elements : List (Option (Node × List Word))}
    (helements : ∀ e ws, some (e, ws) ∈ elements → Derives .item e ws)
    (htame : Tame (punctuator .openBracket ::
      (elementWords (elements.map (Option.map Prod.snd)) ++ punctuator .closeBracket :: rest)))
    (hlevels : Affords F n (3 * (elementWords (elements.map (Option.map Prod.snd))).length + 2)) :
    Reads F (arrayLiteral g {})
      (punctuator .openBracket ::
        (elementWords (elements.map (Option.map Prod.snd)) ++ punctuator .closeBracket :: rest))
      (.array (elements.map (Option.map Prod.fst))) rest := by
  let places : List (Option Node × Option (List Word)) :=
    elements.map fun element => (element.map Prod.fst, element.map Prod.snd)
  have hsome : ∀ a ws, (a, some ws) ∈ places → ∃ e, a = some e ∧ Derives .item e ws := by
    intro a ws hmem
    simp only [places, List.mem_map, Prod.mk.injEq] at hmem
    obtain ⟨_ | ⟨e, ws⟩, hmem, rfl, heq⟩ := hmem
    · cases heq
    · cases heq
      exact ⟨e, rfl, helements e ws hmem⟩
  have hnone : ∀ a, (a, none) ∈ places → a = none := by
    intro a hmem
    simp only [places, List.mem_map, Prod.mk.injEq] at hmem
    obtain ⟨_ | ⟨e, ws⟩, hmem, rfl, heq⟩ := hmem
    · rfl
    · cases heq
  have hwords : elements.map (Option.map Prod.snd) = places.map Prod.snd := by
    simp [places, Function.comp_def]
  have hvalues : elements.map (Option.map Prod.fst) = places.map Prod.fst := by
    simp [places, Function.comp_def]
  rw [hwords] at htame hlevels ⊢
  rw [hvalues]
  have hlevels' : ∀ a ws, (a, some ws) ∈ places → Affords F n (3 * ws.length + 2) := by
    intro a ws hmem
    have hle : ws.length ≤ (elementWords (places.map Prod.snd)).length :=
      length_le_elementWords (List.mem_map_of_mem hmem)
    exact hlevels.of_le (by omega)
  refine Runs.expect rfl (Runs.bind (Loops.repeatFrom (loops_elements places ?_ ?_ ?_ ?_ []
    htame.2.2)) ?_)
  · exact fun found => Runs.isAt_true rfl Runs.value
  · intro found a rest ha
    cases hnone a ha
    exact Runs.isAt_false nofun (Runs.accept_true rfl Runs.value)
  · intro found a ws ha htame
    obtain ⟨e, rfl, he⟩ := hsome a ws ha
    refine Runs.isAt_false (headKind_item_ne he _ rfl) ?_
    refine Runs.accept_false (headKind_item_ne he _ rfl) ?_
    exact reads_turnOfItem hg he rfl htame (hlevels' _ ws ha)
      (Runs.accept_false (by rintro ⟨⟩) Runs.value)
  · intro found a ws rest ha htame
    obtain ⟨e, rfl, he⟩ := hsome a ws ha
    refine Runs.isAt_false (headKind_item_ne he _ rfl) ?_
    refine Runs.accept_false (headKind_item_ne he _ rfl) ?_
    exact reads_turnOfItem hg he rfl htame (hlevels' _ ws ha) (Runs.accept_true rfl Runs.value)
  · rintro _ _ ⟨rfl, rfl⟩
    exact Runs.expect rfl Runs.value

omit hg in
/-- The words after the first of some items: each of the others with a comma before it. -/
lemma separated_cons (ws : List Word) (items : List (List Word)) :
    separated (ws :: items) = ws ++ items.flatMap (punctuator .comma :: ·) := by
  induction items generalizing ws with
  | nil => simp [separated, elementWords]
  | cons us items ih =>
    have hstep : separated (ws :: us :: items) = ws ++ punctuator .comma :: separated (us :: items) :=
      rfl
    rw [hstep, ih us, List.flatMap_cons, List.cons_append]

/-- Further expressions of a sequence are read as long as commas follow. -/
lemma loops_sequence (hrest : closes (headKind rest) = true)
    (hcomma : headKind rest ≠ .punctuator .comma) (items : List (Node × List Word))
    (hitems : ∀ e ws, (e, ws) ∈ items → Derives .assignment e ws)
    (hlevels : ∀ e ws, (e, ws) ∈ items → Affords F n (3 * ws.length + 2)) (found : List Node)
    (htame : Tame ((items.map Prod.snd).flatMap (punctuator .comma :: ·) ++ rest)) :
    Loops F
      (fun found => do
        if ← accept .comma then return .again ((← g.assignment {}) :: found)
        else return .done found.reverse)
      found ((items.map Prod.snd).flatMap (punctuator .comma :: ·) ++ rest)
      fun r vs => r = found.reverse ++ items.map Prod.fst ∧ vs = rest := by
  induction items generalizing found with
  | nil => exact Loops.step (Runs.accept_false hcomma (Runs.pure ⟨by simp, rfl⟩))
  | cons item items ih =>
    obtain ⟨e, ws⟩ := item
    rw [List.map_cons, List.flatMap_cons, List.cons_append, List.cons_append,
      List.append_assoc] at htame ⊢
    set us := (items.map Prod.snd).flatMap (punctuator .comma :: ·) ++ rest with hus
    have hcloses : closes (headKind us) = true := by
      cases items with
      | nil => exact hrest
      | cons item items => rfl
    have he := hitems e ws List.mem_cons_self
    have hlevels' := hlevels e ws List.mem_cons_self
    have hrest := ih (fun e ws hmem => hitems e ws (List.mem_cons_of_mem _ hmem))
      (fun e ws hmem => hlevels e ws (List.mem_cons_of_mem _ hmem)) (e :: found)
      htame.2.2.append_right
    rw [List.reverse_cons, List.append_assoc] at hrest
    refine Loops.again (Runs.accept_true rfl ?_) ?_ hrest
    · exact Runs.seq (hg.assignment he hcloses htame.2.2 hlevels') Runs.value
    · simp only [List.length_cons, List.length_append]
      omega

lemma reads_expression (h : Derives .expression e ws) (hrest : closes (headKind rest) = true)
    (hcomma : headKind rest ≠ .punctuator .comma) (htame : Tame (ws ++ rest))
    (hlevels : Affords F n (3 * ws.length + 2)) :
    Reads F (expression g {}) (ws ++ rest) e rest := by
  cases h with
  | alone h =>
    refine Runs.seq (hg.assignment h hrest htame hlevels) ?_
    exact Runs.isAt_false hcomma Runs.value
  | @sequence items hlength hitems =>
    have hlevels' : ∀ e ws, (e, ws) ∈ items → Affords F n (3 * ws.length + 2) := by
      intro e ws hmem
      have hle : ws.length ≤ (separated (items.map Prod.snd)).length :=
        length_le_elementWords (List.mem_map_of_mem (List.mem_map_of_mem hmem))
      exact hlevels.of_le (by omega)
    match items, hlength with
    | (e, ws) :: second :: items, _ =>
      rw [List.map_cons, separated_cons, List.append_assoc] at htame ⊢
      have he := hitems e ws List.mem_cons_self
      have hfirst := hg.assignment he rfl htame (hlevels' e ws List.mem_cons_self)
      refine Runs.seq hfirst (Runs.isAt_true rfl ?_)
      refine Runs.bind (Loops.repeatFrom (loops_sequence hg hrest hcomma (second :: items)
        (fun e ws hmem => hitems e ws (List.mem_cons_of_mem _ hmem))
        (fun e ws hmem => hlevels' e ws (List.mem_cons_of_mem _ hmem)) [e]
        htame.append_right)) ?_
      rintro _ _ ⟨rfl, rfl⟩
      exact Runs.value

/-! ### Operands -/

omit hg in
/-- A word that is a literal is read as one. -/
lemma reads_literal {w : Word} {kind : LiteralKind} (hw : w.literalKind? = some kind)
    (heritage : Parse Node) (rest : List Word) :
    Reads F (primaryWith g {} heritage) (w :: rest) (.literal kind w.text) rest := by
  refine Runs.token fun t hkind htext hvalue _ => ?_
  have htoken : ∀ kind, Reads F (literalToken kind) (w :: rest) (.literal kind w.text) rest :=
    fun kind => Runs.token fun t _ htext _ _ => Runs.advance (Runs.pure ⟨by rw [htext], rfl⟩)
  have hnumber : Reads F numberLiteral (w :: rest)
      (.literal (if w.text.toList.getLast? = some 'n' then .bigInt else .number) w.text) rest :=
    Runs.token fun t _ _ hvalue _ => Runs.advance (Runs.pure ⟨by rw [hvalue], rfl⟩)
  rw [hkind]
  unfold Word.literalKind? at hw
  split at hw
  case h_6 => cases hw
  case h_1 hk =>
    cases hw
    rw [hk]
    exact hnumber
  all_goals
    rename_i hk
    cases hw
    rw [hk]
    exact htoken _

lemma reads_primaryWith (h : Derives .primary e ws) (heritage : Parse Node)
    (htame : Tame (ws ++ rest)) (hlevels : Affords F n (3 * ws.length)) :
    Reads F (primaryWith g {} heritage) (ws ++ rest) e rest := by
  cases h with
  | name hw =>
    refine Runs.token fun t hkind htext hvalue _ => ?_
    rw [hkind, hw]
    exact Runs.name (congrArg TokenKind.isName hw) Runs.value
  | literal hw => exact reads_literal hw heritage rest
  | thisValue =>
    refine Runs.token fun t hkind htext hvalue _ => ?_
    rw [hkind]
    exact Runs.advance Runs.value
  | array h =>
    rw [List.cons_append, List.append_assoc] at htame ⊢
    refine Runs.token fun t hkind htext hvalue _ => ?_
    rw [hkind]
    refine reads_arrayLiteral hg h htame (hlevels.of_le ?_)
    simp only [List.length_cons, List.length_append]
    omega
  | @parens _ us h =>
    rw [List.cons_append, List.append_assoc] at htame ⊢
    refine Runs.token fun t hkind htext hvalue _ => ?_
    rw [hkind]
    have hlevels' : Affords F n (3 * us.length + 2) := by
      simp only [List.length_cons, List.length_append] at hlevels
      exact hlevels.of_le (by omega)
    refine Runs.expect rfl (Runs.seq (reads_expression hg h rfl nofun htame.2.2 hlevels') ?_)
    exact Runs.expect rfl Runs.value

lemma reads_index {key : Node} {us rest : List Word} (h : Derives .expression key us)
    (htame : Tame (us ++ punctuator .closeBracket :: rest))
    (hlevels : Affords F n (3 * us.length + 2)) :
    Reads F (index g {}) (punctuator .openBracket :: (us ++ punctuator .closeBracket :: rest)) key
      rest := by
  refine Runs.advance (Runs.seq (reads_expression hg h rfl nofun htame hlevels) ?_)
  exact Runs.expect rfl Runs.value

omit hg in
/-- Links end before what begins no link. -/
lemma reads_link_end {ω : Type} [Written ω] {ctx : Context} {rest : List ω}
    (hrest : startsLink (headKind rest) = false) (calls : Bool) (owner : Node) :
    Reads F (link g ctx calls owner) rest (.done owner) rest := by
  refine Runs.kind ?_
  split
  case h_7 => exact Runs.value
  all_goals
    rename_i hkind
    rw [hkind] at hrest
    cases hrest

omit hg in
lemma reads_link_dot {w : Word} (hw : w.kind.isWord = true) (calls : Bool) (owner : Node)
    (rest : List Word) :
    Reads F (link g {} calls owner) (punctuator .dot :: w :: rest)
      (.again (.member owner (.identifier w.text) false false)) rest :=
  Runs.kind (Runs.advance (Runs.word hw Runs.value))

omit hg in
/-- What follows an optional link. -/
lemma reads_link_optional {owner a : Node} (h : Reads F (optionalLink g {} owner) ws a rest) :
    Reads F (link g {} true owner) (punctuator .questionDot :: ws) (.again a) rest :=
  Runs.kind (Runs.advance (Runs.seq h Runs.value))

omit hg in
lemma reads_optionalLink_word {w : Word} (hw : w.kind.isWord = true) (owner : Node)
    (rest : List Word) :
    Reads F (optionalLink g {} owner) (w :: rest) (.member owner (.identifier w.text) false true)
      rest := by
  refine Runs.kind ?_
  split
  case h_3 => exact Runs.word hw Runs.value
  all_goals
    rename_i hkind
    rw [show w.kind = _ from hkind] at hw
    cases hw

/-- An operand is read with its links, and the links go on after it. -/
lemma runs_linked {calls : Bool} (h : Derives (.linked calls) e ws) (heritage : Parse Node)
    (htame : Tame (ws ++ rest)) (hlevels : Affords F n (3 * ws.length))
    {Q : Node → List Word → Prop} (hloop : Loops F (link g {} calls) e rest Q) {β : Type}
    {f : Node → Parse β} {R : β → List Word → Prop}
    (hf : ∀ first us, Loops F (link g {} calls) first us Q → Runs F (f first) us R) :
    Runs F
      (do
        let first ←
          if ← isAt (.reserved .kwNew) then g.construction {} else primaryWith g {} heritage
        f first)
      (ws ++ rest) R := by
  -- The induction goes down the left edge: what follows an owner is a link and then the rest.
  generalize hphrase : Phrase.linked calls = phrase at h
  induction h generalizing rest with
  | head h =>
    refine Runs.isAt_false (fun hkind => ?_) ?_
    · have hstart := h.startsWith rest
      rw [hkind] at hstart
      cases hstart
    · exact Runs.seq (reads_primaryWith hg h heritage htame hlevels) (hf _ _ hloop)
  | construction hcallee hitems =>
    rw [List.cons_append, List.append_assoc] at htame ⊢
    refine Runs.isAt_true rfl ?_
    have hlevels' := hlevels.of_le (Nat.mul_le_mul_left 3 (Nat.le_succ _))
    exact Runs.seq (hg.construction hcallee hitems htame hlevels') (hf _ _ hloop)
  | dot h hw ih =>
    cases hphrase
    simp only [List.length_append, List.length_cons] at hlevels
    simp only [List.append_assoc, List.cons_append, List.nil_append] at htame ⊢
    exact ih htame (hlevels.of_le (by omega))
      (Loops.again (reads_link_dot hw calls _ rest) (by simp +arith) hloop) rfl
  | index howner hkey ih =>
    cases hphrase
    simp only [List.length_append, List.length_cons] at hlevels
    simp only [List.append_assoc, List.cons_append, List.nil_append] at htame ⊢
    have hindex := reads_index hg hkey htame.append_right.2.2 (hlevels.of_le (by omega))
    exact ih htame (hlevels.of_le (by omega))
      (Loops.again (Runs.kind (Runs.seq hindex Runs.value)) (by simp +arith) hloop) rfl
  | call hcallee hitems ih =>
    cases hphrase
    simp only [parenthesizedWords, List.length_append, List.length_cons] at hlevels
    rw [List.append_assoc] at htame ⊢
    have harguments := reads_arguments hg hitems htame.append_right (hlevels.of_le (by omega))
    exact ih htame (hlevels.of_le (by omega)) (Loops.again
      (Runs.kind (Runs.seq harguments Runs.value)) (by simp +arith [parenthesizedWords]) hloop) rfl
  | optionalDot h hw ih =>
    cases hphrase
    simp only [List.length_append, List.length_cons] at hlevels
    simp only [List.append_assoc, List.cons_append, List.nil_append] at htame ⊢
    exact ih htame (hlevels.of_le (by omega)) (Loops.again
      (reads_link_optional (reads_optionalLink_word hw _ rest)) (by simp +arith) hloop) rfl
  | optionalIndex howner hkey ih =>
    cases hphrase
    simp only [List.length_append, List.length_cons] at hlevels
    simp only [List.append_assoc, List.cons_append, List.nil_append] at htame ⊢
    have hindex := reads_index hg hkey htame.append_right.2.2.2.2 (hlevels.of_le (by omega))
    exact ih htame (hlevels.of_le (by omega)) (Loops.again (reads_link_optional
      (Runs.kind (Runs.seq hindex Runs.value))) (by simp +arith) hloop) rfl
  | optionalCall hcallee hitems ih =>
    cases hphrase
    simp only [parenthesizedWords, List.length_append, List.length_cons] at hlevels
    simp only [List.append_assoc, List.cons_append] at htame ⊢
    have harguments := reads_arguments hg hitems htame.append_right.2.2 (hlevels.of_le (by omega))
    exact ih htame (hlevels.of_le (by omega)) (Loops.again (reads_link_optional
      (Runs.kind (Runs.seq harguments Runs.value))) (by simp +arith [parenthesizedWords]) hloop) rfl
  | _ => cases hphrase

lemma reads_leftHandSide (h : Derives (.linked true) e ws)
    (hrest : startsLink (headKind rest) = false) (htame : Tame (ws ++ rest))
    (hlevels : Affords F n (3 * ws.length)) : Reads F (leftHandSide g {}) (ws ++ rest) e rest := by
  intro c hc
  have hlinks := runs_linked hg h (leftHandSideWithin g {} (' ' :: c.rest)) htame hlevels
    (Q := fun a vs => a = e ∧ vs = rest) (Loops.done (reads_link_end hrest true e) ⟨rfl, rfl⟩)
    (f := links g {} true) fun _ _ hloop => hloop.repeatFrom
  exact hlinks c hc

lemma reads_newExpression {callee : Node} {items : List (Node × List Word)}
    (hcallee : Derives (.linked false) callee ws)
    (hitems : ∀ e ws, (e, ws) ∈ items → Derives .item e ws)
    (htame : Tame (reserved .kwNew :: (ws ++ (parenthesizedWords (items.map Prod.snd) ++ rest))))
    (hlevels : Affords F (n + 1) (3 * (ws ++ parenthesizedWords (items.map Prod.snd)).length)) :
    Reads F (newExpression g {})
      (reserved .kwNew :: (ws ++ (parenthesizedWords (items.map Prod.snd) ++ rest)))
      (.construction callee (items.map Prod.fst)) rest := by
  have hdot : headKind (ws ++ (parenthesizedWords (items.map Prod.snd) ++ rest)) ≠
      .punctuator .dot := by
    intro hkind
    have hstart := hcallee.startsWith (parenthesizedWords (items.map Prod.snd) ++ rest)
    rw [hkind] at hstart
    cases hstart
  simp only [parenthesizedWords, List.length_append, List.length_cons] at hlevels
  have hlevels' : Affords F n (3 * ws.length + 3 * (separated (items.map Prod.snd)).length + 2) :=
    (hlevels.of_le (by omega)).below
  refine Runs.expectWord rfl (Runs.accept_false hdot ?_)
  -- The parentheses of the arguments are no link here.
  refine runs_linked hg hcallee (leftHandSide g {}) htame.2.2 (hlevels'.of_le (by omega))
    (Q := fun a vs => a = callee ∧ vs = parenthesizedWords (items.map Prod.snd) ++ rest)
    (Loops.done (Runs.kind Runs.value) ⟨rfl, rfl⟩) ?_
  intro first us hloop
  refine Runs.bind hloop.repeatFrom ?_
  rintro _ _ ⟨rfl, rfl⟩
  have harguments := reads_arguments hg hitems htame.2.2.append_right (hlevels'.of_le (by omega))
  exact Runs.isAt_true rfl (Runs.seq harguments Runs.value)

/-! ### Operators -/

omit hg in
lemma reads_checkPlace {operand : Node} (h : operand.isPlace = true) (ws : List Word) :
    Reads F (checkPlace operand) ws () ws := by
  unfold checkPlace
  rw [if_pos h]
  exact Runs.value

omit hg in
lemma startsLink_of_update {k : TokenKind} {operator : UpdateOperator}
    (h : UpdateOperator.ofToken? k = some operator) : startsLink k = false := by
  unfold startsLink
  split <;> first | rfl | cases h

omit hg in
lemma unary_of_startsOperand {k : TokenKind} (h : startsOperand k = true) :
    UnaryOperator.ofToken? k = none := by
  unfold UnaryOperator.ofToken?
  split <;> first | rfl | cases h

omit hg in
lemma update_of_startsOperand {k : TokenKind} (h : startsOperand k = true) :
    UpdateOperator.ofToken? k = none := by
  unfold UpdateOperator.ofToken?
  split <;> first | rfl | cases h

omit hg in
lemma unary_of_update {k : TokenKind} {operator : UpdateOperator}
    (h : UpdateOperator.ofToken? k = some operator) : UnaryOperator.ofToken? k = none := by
  unfold UnaryOperator.ofToken?
  split <;> first | rfl | cases h

/-- An operand without an update. -/
lemma reads_operandWithUpdate (h : Derives (.linked true) e ws)
    (hrest : continuesOperand (headKind rest) = false) (htame : Tame (ws ++ rest))
    (hlevels : Affords F n (3 * ws.length)) :
    Reads F (operandWithUpdate g {}) (ws ++ rest) e rest := by
  obtain ⟨hlink, hupdate⟩ := Bool.or_eq_false_iff.1 hrest
  refine Runs.seq (reads_leftHandSide hg h hlink htame hlevels) (Runs.tokenOfKind fun t ht => ?_)
  rw [ht, Option.isSome_eq_false_iff.1 hupdate |> Option.isNone_iff_eq_none.1]
  exact Runs.value

/-- An operand with the update after it. -/
lemma reads_operandWithUpdate_update {w : Word} {operator : UpdateOperator}
    (hw : UpdateOperator.ofToken? w.kind = some operator) (hplace : e.isPlace = true)
    (h : Derives (.linked true) e ws) (htame : Tame (ws ++ w :: rest))
    (hlevels : Affords F n (3 * ws.length)) :
    Reads F (operandWithUpdate g {}) (ws ++ w :: rest) (.update operator false e) rest := by
  refine Runs.seq (reads_leftHandSide hg h (startsLink_of_update hw) htame hlevels)
    (Runs.token fun t hkind _ _ hbreak => ?_)
  rw [hkind, hw, hbreak]
  exact Runs.seq (reads_checkPlace hplace _) (Runs.advance Runs.value)

omit hg in
/-- Words that begin an operand are no operators, and `await` is none in this context. -/
lemma reads_unary_of_operand {e a : Node} {ws us rest : List Word}
    (h : Derives (.linked true) e ws) (hread : Reads F (operandWithUpdate g {}) (ws ++ us) a rest) :
    Reads F (unaryExpression g {}) (ws ++ us) a rest := by
  have hstart := h.startsWith us
  refine Runs.kind ?_
  rw [unary_of_startsOperand hstart, update_of_startsOperand hstart]
  dsimp only
  rw [if_neg (by simp)]
  exact hread

lemma reads_unaryExpression (h : Derives .unary e ws)
    (hrest : continuesOperand (headKind rest) = false) (htame : Tame (ws ++ rest))
    (hlevels : Affords F n (3 * ws.length)) :
    Reads F (unaryExpression g {}) (ws ++ rest) e rest := by
  cases h with
  | operand h => exact reads_unary_of_operand h (reads_operandWithUpdate hg h hrest htame hlevels)
  | updateAfter hw hplace h =>
    rw [List.append_assoc] at htame ⊢
    rw [List.length_append] at hlevels
    exact reads_unary_of_operand h
      (reads_operandWithUpdate_update hg hw hplace h htame (hlevels.of_le (by omega)))
  | updateBefore hw hplace h =>
    rw [List.length_cons] at hlevels
    refine Runs.kind ?_
    rw [List.cons_append, headKind_word, unary_of_update hw, hw]
    refine Runs.advance (Runs.seq (hg.unary h hrest htame.2.2 (hlevels.of_le (by omega))) ?_)
    exact Runs.seq (reads_checkPlace hplace _) Runs.value
  | operator hw h =>
    rw [List.length_cons] at hlevels
    refine Runs.kind ?_
    rw [List.cons_append, headKind_word, hw]
    refine Runs.advance (Runs.seq (hg.unary h hrest htame.2.2 (hlevels.of_le (by omega))) ?_)
    exact Runs.value

omit hg in
lemma continuesOperand_of_infixed {k : TokenKind} {operator : InfixOperator}
    (h : InfixOperator.ofToken? k = some operator) : continuesOperand k = false := by
  unfold continuesOperand startsLink UpdateOperator.ofToken?
  split <;> first | cases h | (split <;> first | rfl | cases h)

omit hg in
/-- An operator that is too weak to take the right side of another away as its left operand ends
the right operand of that one. -/
lemma strength_le_rightLimit {next operator : InfixOperator}
    (h : leftLimit next < operator.strength) : next.strength ≤ rightLimit operator := by
  unfold leftLimit at h
  unfold rightLimit
  split at h <;> split <;> rename_i hnext hoperator
  · omega
  · omega
  · have hne : next.strength ≠ operator.strength := fun heq =>
      hnext ((InfixOperator.isRightGrouping_eq heq).trans hoperator)
    omega
  · omega

omit hg in
lemma leftLimit_le (operator : InfixOperator) : leftLimit operator ≤ operator.strength := by
  unfold leftLimit
  split <;> omega

/-- Operands with operators are read up to their end, and the operators go on after it.  All of them
are stronger than `limit` if they are stronger than `m`, and the next operator leaves the last right
operand alone. -/
lemma runs_infixed {m limit : Nat} (h : Derives (.infixed m) e ws) (hlimit : limit ≤ m)
    (hrest : continuesOperand (headKind rest) = false)
    (hnext : ∀ operator, InfixOperator.ofToken? (headKind rest) = some operator →
      leftLimit operator ≤ m)
    (htame : Tame (ws ++ rest)) (hlevels : Affords F n (3 * ws.length + 1))
    {Q : Node → List Word → Prop} (hloop : Loops F (joinNext g limit {}) e rest Q) :
    Runs F (binaryExpression g limit {}) (ws ++ rest) Q := by
  generalize hphrase : Phrase.infixed m = phrase at h
  induction h generalizing m rest with
  | single h => exact Runs.seq (hg.unary h hrest htame hlevels) hloop.repeatFrom
  | @joined _ w operator left right ws us hw hless hleft hright ihleft =>
    cases hphrase
    rw [List.append_assoc] at htame ⊢
    have hlimit' : limit < operator.strength := by omega
    have hleftLimit : limit ≤ leftLimit operator := by
      unfold leftLimit
      split <;> omega
    have hend : EndsOperands (rightLimit operator) rest :=
      ⟨hrest, fun next h => strength_le_rightLimit (Nat.lt_of_le_of_lt (hnext next h) hless)⟩
    have hat : operatorAt? {} (headKind (w :: us ++ rest)) = some operator := by
      rw [operatorAt?, if_neg (by simp)]
      exact hw
    simp only [List.length_append, List.length_cons] at hlevels
    have hjoin : Reads F (joinNext g limit {} left) (w :: us ++ rest)
        (.again (joinOperands operator left right)) rest := by
      refine Runs.kind ?_
      rw [hat]
      dsimp only
      rw [if_neg (by omega)]
      have hread := hg.operand hright hend htame.append_right.2.2 (hlevels.of_le (by omega))
      exact Runs.advance (Runs.seq hread Runs.value)
    refine ihleft hleftLimit (continuesOperand_of_infixed hw) ?_ htame (hlevels.of_le (by omega))
      (Loops.again hjoin ?_ hloop) rfl
    · intro operator' hoperator'
      cases hw.symm.trans hoperator'
      exact Nat.le_refl _
    · simp only [List.length_append, List.length_cons]
      omega
  | _ => cases hphrase

lemma reads_binaryExpression {limit : Nat} (h : Derives (.infixed limit) e ws)
    (hrest : EndsOperands limit rest) (htame : Tame (ws ++ rest))
    (hlevels : Affords F n (3 * ws.length + 1)) :
    Reads F (binaryExpression g limit {}) (ws ++ rest) e rest := by
  refine runs_infixed hg h (Nat.le_refl limit) hrest.1 (fun operator hoperator => ?_) htame hlevels
    (Loops.done (Runs.kind ?_) ⟨rfl, rfl⟩)
  · exact Nat.le_trans (leftLimit_le operator) (hrest.2 operator hoperator)
  · rw [operatorAt?, if_neg (by simp)]
    cases hoperator : InfixOperator.ofToken? (headKind rest) with
    | none => exact Runs.value
    | some operator =>
      dsimp only
      rw [if_pos (hrest.2 operator hoperator)]
      exact Runs.value

/-- A test that no conditional goes on with. -/
lemma reads_test (h : Derives (.infixed 0) e ws) (hrest : EndsOperands 0 rest)
    (hquestion : headKind rest ≠ .punctuator .question) (htame : Tame (ws ++ rest))
    (hlevels : Affords F n (3 * ws.length + 1)) :
    Reads F (conditionalExpression g {}) (ws ++ rest) e rest := by
  refine Runs.seq (reads_binaryExpression hg h hrest htame hlevels) ?_
  exact Runs.accept_false hquestion Runs.value

omit hg in
/-- What closes an expression ends its operands. -/
lemma endsOperands_of_closes (h : closes (headKind rest) = true) : EndsOperands 0 rest := by
  unfold EndsOperands
  unfold closes at h
  split at h
  case h_6 => cases h
  all_goals
    rename_i hkind
    rw [hkind]
    exact ⟨rfl, nofun⟩

lemma reads_conditionalExpression (h : Derives .conditional e ws)
    (hrest : closes (headKind rest) = true) (htame : Tame (ws ++ rest))
    (hlevels : Affords F n (3 * ws.length + 1)) :
    Reads F (conditionalExpression g {}) (ws ++ rest) e rest := by
  cases h with
  | test h =>
    refine reads_test hg h (endsOperands_of_closes hrest) (fun hkind => ?_) htame hlevels
    rw [hkind] at hrest
    cases hrest
  | choice htest hconsequent halternate =>
    simp only [List.length_append, List.length_cons] at hlevels
    simp only [List.append_assoc, List.cons_append] at htame ⊢
    have htame' := htame.append_right.2.2
    refine Runs.seq (reads_binaryExpression hg htest ⟨rfl, nofun⟩ htame
      (hlevels.of_le (by omega))) (Runs.accept_true rfl ?_)
    refine Runs.seq (hg.assignment hconsequent rfl htame' (hlevels.of_le (by omega)))
      (Runs.expect rfl ?_)
    exact Runs.seq (hg.assignment halternate hrest htame'.append_right.2.2
      (hlevels.of_le (by omega))) Runs.value

/-! ### Assignments -/

omit hg in
lemma toTarget_of_isPlace {left : Node} (h : left.isPlace = true) : left.toTarget = .ok left := by
  cases left with
  | identifier name => rw [Node.toTarget]
  | member owner key computed optional =>
    cases optional with
    | false => rw [Node.toTarget]
    | true => cases h
  | _ => cases h

omit hg in
lemma assignmentTarget_of_isPlace {left : Node} (h : left.isPlace = true)
    (operator : AssignmentOperator) : assignmentTarget operator left = .ok left := by
  unfold assignmentTarget
  rw [toTarget_of_isPlace h, if_pos h, ite_self]

omit hg in
/-- An assignment operator ends the operands before it and begins no conditional. -/
lemma endsOperands_of_assignment {w : Word} {operator : AssignmentOperator}
    (h : AssignmentOperator.ofToken? w.kind = some operator) (rest : List Word) :
    EndsOperands 0 (w :: rest) ∧ w.kind ≠ .punctuator .question := by
  rw [EndsOperands, headKind_word]
  unfold AssignmentOperator.ofToken? at h
  split at h
  case h_17 => cases h
  all_goals
    rename_i hkind
    rw [hkind]
    exact ⟨⟨rfl, nofun⟩, nofun⟩

lemma reads_conditionalOrAssignment (h : Derives .assignment e ws)
    (hrest : closes (headKind rest) = true) (htame : Tame (ws ++ rest))
    (hlevels : Affords F n (3 * ws.length + 1)) :
    Reads F (conditionalOrAssignment g {}) (ws ++ rest) e rest := by
  cases h with
  | value h =>
    refine Runs.seq (reads_conditionalExpression hg h hrest htame hlevels) (Runs.kind ?_)
    have hnone : AssignmentOperator.ofToken? (headKind rest) = none := by
      unfold closes at hrest
      split at hrest
      case h_6 => cases hrest
      all_goals
        rename_i hkind
        rw [hkind]
        rfl
    rw [hnone]
    exact Runs.value
  | assign hw hplace hleft hright =>
    simp only [List.length_append, List.length_cons] at hlevels
    rw [List.append_assoc, List.cons_append] at htame ⊢
    obtain ⟨hend, hquestion⟩ := endsOperands_of_assignment hw _
    refine Runs.seq (reads_test hg (.single (.operand hleft)) hend hquestion htame
      (hlevels.of_le (by omega))) (Runs.kind ?_)
    rw [headKind_word, hw]
    dsimp only
    rw [assignmentTarget_of_isPlace hplace]
    refine Runs.advance (Runs.seq (hg.assignment hright hrest htame.append_right.2.2
      (hlevels.of_le (by omega))) ?_)
    exact Runs.value

lemma reads_assignmentExpression (h : Derives .assignment e ws)
    (hrest : closes (headKind rest) = true) (htame : Tame (ws ++ rest))
    (hlevels : Affords F n (3 * ws.length + 1)) :
    Reads F (assignmentExpression g {}) (ws ++ rest) e rest := by
  refine Runs.isAt ?_
  rw [Bool.and_false, if_neg Bool.false_ne_true]
  refine Runs.seq (reads_arrowFunction? hg h htame) ?_
  exact reads_conditionalOrAssignment hg h hrest htame hlevels

end

/-! ### All levels -/

lemma readsBack_exhausted : ReadsBack 0 exhausted where
  target _ := Runs.reject trivial
  assignment _ _ _ hlevels := Runs.reject (hlevels.resolve_right (by omega))
  operand _ _ _ hlevels := Runs.reject (hlevels.resolve_right (by omega))
  unary _ _ _ hlevels := Runs.reject (hlevels.resolve_right (by omega))
  construction _ _ _ hlevels := Runs.reject (hlevels.resolve_right (by simp [parenthesizedWords]))

lemma ReadsBack.above {n : Nat} {g : Grammar} (hg : ReadsBack n g) : ReadsBack (n + 1) g.above where
  target htame := settles_bindingTarget hg htame
  assignment h hrest htame hlevels := reads_assignmentExpression hg h hrest htame hlevels.below
  operand h hrest htame hlevels := reads_binaryExpression hg h hrest htame hlevels.below
  unary h hrest htame hlevels := reads_unaryExpression hg h hrest htame hlevels.below
  construction hcallee hitems htame hlevels := reads_newExpression hg hcallee hitems htame hlevels

/-- Every level of the grammar reads phrases back. -/
lemma readsBack_level (n : Nat) : ReadsBack n (level n) := by
  induction n with
  | zero => exact readsBack_exhausted
  | succ n ih => exact ih.above

/-! ### Scripts -/

section

variable {F : SyntaxCause → Prop} {n : Nat} {g : Grammar} (hg : ReadsBack n g) {e : Node}
  {ws : List Word} (h : Derives .expression e ws) (htame : Tame (ws ++ [punctuator .semicolon]))
  (hlevels : Affords F n (3 * ws.length + 2))
include hg h htame hlevels

lemma reads_expressionStatement :
    Reads F (expressionStatement g {}) (ws ++ [punctuator .semicolon]) (.expressionStatement e)
      [] := by
  have hend : Reads F endStatement [punctuator .semicolon] () [] :=
    Runs.accept_true rfl Runs.value
  refine Runs.seq (reads_expression hg h rfl nofun htame hlevels) ?_
  exact Runs.seq hend Runs.value

/-- No other statement begins like an expression, and a name with a colon after it is none. -/
lemma reads_anyStatement :
    Reads F (anyStatement g {}) (ws ++ [punctuator .semicolon]) (.expressionStatement e) [] := by
  have hstart := h.startsWith [punctuator .semicolon]
  have hread := reads_expressionStatement hg h htame hlevels
  have hcolon : headKind (ws ++ [punctuator .semicolon]) = .identifier →
      headKind (ws ++ [punctuator .semicolon]).tail ≠ .punctuator .colon :=
    h.ne_colon nofun
  generalize ws ++ [punctuator .semicolon] = us at *
  refine Runs.kind ?_
  split
  case h_21 hkind =>
    cases us with
    | nil => cases hkind
    | cons w us =>
      have hne : headKind us ≠ .punctuator .colon := hcolon hkind
      refine Runs.peek fun t ht => ?_
      rw [ht, if_neg hne]
      exact hread
  case h_23 => exact hread
  all_goals
    rename_i hkind
    rw [hkind] at hstart
    cases hstart

end

/-- A statement that is read up to the end of the text is the whole script. -/
lemma program_of_reads {ω : Type} [Written ω] {F : SyntaxCause → Prop} {g : Grammar}
    {statement : Node} {ws : List ω} {start c : Cursor}
    (h : Reads F (g.statement {}) ws statement []) (hws : headKind ws ≠ .endOfText)
    (hnext : start.next? = some (c, none)) (hat : c.At ws) :
    (∃ next, g.program start = .ok (.program [statement]) next) ∨
      ∃ cause span, g.program start = .fail (.refused ⟨cause, span⟩) ∧ F cause := by
  have hpos : 0 < ws.length := by
    cases ws with
    | nil => exact absurd rfl hws
    | cons w ws => simp
  rw [program, advance_bind hnext]
  refine Runs.outcome ?_ hat
  refine Runs.bind (Q := fun body _ => body = [statement]) (Loops.repeatFrom ?_) ?_
  · refine Loops.again (Runs.isAt_false hws (Runs.seq h Runs.value)) hpos ?_
    exact Loops.done (Runs.isAt_true rfl Runs.value) rfl
  · rintro _ _ rfl
    exact Runs.pure rfl

end Grammar

open Grammar in
/-- A text whose words spell an expression and end in a semicolon is the script of that expression.
It can only be refused for its nesting, and only if three levels for each word are too many. -/
theorem parse_of_derives {text : String} {c : Cursor} {e : Node} {ws : List Word}
    (h : Derives .expression e ws) (hnext : (Cursor.start text).next? = some (c, none))
    (hat : c.At (ws ++ [punctuator .semicolon])) :
    parse text = .ok (.program [.expressionStatement e]) ∨
      (maxNesting < 3 * (ws ++ [punctuator .semicolon]).length ∧
        ∃ span, parse text = .error (.refused ⟨.nestedTooDeeply, span⟩)) := by
  let F : SyntaxCause → Prop := fun cause =>
    maxNesting < 3 * (ws ++ [punctuator .semicolon]).length ∧ cause = .nestedTooDeeply
  have hlevels : Affords F 511 (3 * ws.length + 2) := by
    rcases Nat.lt_or_ge 511 (3 * ws.length + 2) with hlt | hge
    · refine .inl ⟨?_, rfl⟩
      simp only [maxNesting, List.length_append, List.length_singleton]
      omega
    · exact .inr hge
  have htame : Tame (ws ++ [punctuator .semicolon]) :=
    h.tame (.cons rfl trivial) fun _ => rfl
  have hstatement : Parse.Reads F ((level maxNesting).statement {}) (ws ++ [punctuator .semicolon])
      (.expressionStatement e) [] :=
    reads_anyStatement (readsBack_level 511) h htame hlevels
  have hend : headKind (ws ++ [punctuator .semicolon]) ≠ .endOfText := by
    intro hkind
    have hstart := h.startsWith [punctuator .semicolon]
    rw [hkind] at hstart
    cases hstart
  rw [parse]
  rcases program_of_reads hstatement hend hnext hat with ⟨next, hok⟩ | ⟨_, span, hfail, hlong, rfl⟩
  · exact .inl (by rw [hok])
  · exact .inr ⟨hlong, span, by rw [hfail]⟩

end BindingProxy
