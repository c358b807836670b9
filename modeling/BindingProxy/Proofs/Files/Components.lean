import BindingProxy.Command.Run
import Mathlib.Data.List.Basic
import Mathlib.Data.List.TakeWhile
import Mathlib.Tactic.Lemma

/-!
# The components of paths

The components of a path are those of its segments, after the root or the dot that it may begin
with.  So joining a path that goes down to another one puts its components after those of the other,
and what is left of a path below a base are the components after those of the base.
-/

namespace BindingProxy

/-! ### Pieces -/

lemma splitAtChar_ne_nil (mark : Char) (text : List Char) : splitAtChar mark text ≠ [] := by
  cases text with
  | nil => simp [splitAtChar]
  | cons c text =>
    rw [splitAtChar]
    split
    · simp
    · split <;> simp

lemma splitAtChar_append_mark (mark : Char) (before after : List Char) :
    splitAtChar mark (before ++ mark :: after) = splitAtChar mark before ++ splitAtChar mark after := by
  induction before with
  | nil => simp [splitAtChar]
  | cons c before ih =>
    simp only [List.cons_append, splitAtChar, ih]
    split
    · rfl
    · cases hsplit : splitAtChar mark before with
      | nil => exact absurd hsplit (splitAtChar_ne_nil _ _)
      | cons piece pieces => rfl

lemma splitAtChar_of_not_mem {mark : Char} {text : List Char} (h : mark ∉ text) :
    splitAtChar mark text = [text] := by
  induction text with
  | nil => rfl
  | cons c text ih =>
    rw [List.mem_cons, not_or] at h
    rw [splitAtChar, if_neg (Ne.symm h.1), ih h.2]

/-- What follows a text without a mark in it belongs to the last piece. -/
lemma exists_splitAtChar_append (mark : Char) (text : List Char) :
    ∃ front last, splitAtChar mark text = front ++ [last] ∧
      ∀ ending, mark ∉ ending → splitAtChar mark (text ++ ending) = front ++ [last ++ ending] := by
  induction text with
  | nil => exact ⟨[], [], rfl, fun ending h => splitAtChar_of_not_mem h⟩
  | cons c text ih =>
    obtain ⟨front, last, hsplit, hending⟩ := ih
    by_cases hc : c = mark
    · refine ⟨[] :: front, last, by rw [splitAtChar, if_pos hc, hsplit]; rfl, fun ending h => ?_⟩
      rw [List.cons_append, splitAtChar, if_pos hc, hending ending h]
      rfl
    · cases front with
      | nil =>
        refine ⟨[], c :: last, by rw [splitAtChar, if_neg hc, hsplit]; rfl, fun ending h => ?_⟩
        rw [List.cons_append, splitAtChar, if_neg hc, hending ending h]
        rfl
      | cons piece front =>
        refine ⟨(c :: piece) :: front, last, by rw [splitAtChar, if_neg hc, hsplit]; rfl,
          fun ending h => ?_⟩
        rw [List.cons_append, splitAtChar, if_neg hc, hending ending h]
        rfl

lemma not_mem_of_mem_splitAtChar {mark : Char} {text piece : List Char}
    (h : piece ∈ splitAtChar mark text) : mark ∉ piece := by
  induction text generalizing piece with
  | nil =>
    rw [splitAtChar, List.mem_singleton] at h
    simp [h]
  | cons c text ih =>
    rw [splitAtChar] at h
    split at h
    · rcases List.mem_cons.1 h with rfl | h
      · simp
      · exact ih h
    · next hc =>
      split at h
      · rw [List.mem_singleton.1 h, List.mem_singleton]
        exact Ne.symm hc
      · next first pieces hsplit =>
        rw [hsplit] at ih
        rcases List.mem_cons.1 h with rfl | h
        · rw [List.mem_cons, not_or]
          exact ⟨Ne.symm hc, ih List.mem_cons_self⟩
        · exact ih (List.mem_cons_of_mem _ h)

namespace Path

variable {p q base folder : Path} {segment name : String}

/-! ### Segments -/

/-- The components among segments. -/
def componentsIn (segments : List String) : List PathComponent := (tails segments).map (·.1)

lemma componentsIn_cons (segment : String) (rest : List String) :
    componentsIn (segment :: rest) = componentsIn [segment] ++ componentsIn rest := by
  unfold componentsIn
  rw [tails, tails]
  split
  · rfl
  split
  · rfl
  · rfl

lemma componentsIn_append (front back : List String) :
    componentsIn (front ++ back) = componentsIn front ++ componentsIn back := by
  induction front with
  | nil => rfl
  | cons segment front ih =>
    rw [List.cons_append, componentsIn_cons, ih, componentsIn_cons segment front, List.append_assoc]

lemma componentsIn_of_isIdle (h : isIdle segment = true) : componentsIn [segment] = [] := by
  rw [componentsIn, tails, if_pos h]
  rfl

/-- Whether a segment is a name. -/
def isName (segment : String) : Bool :=
  !segment.toList.contains '/' && !isIdle segment && segment != ".."

lemma componentsIn_of_isName (h : isName name = true) : componentsIn [name] = [.name name] := by
  simp only [isName, Bool.and_eq_true, Bool.not_eq_true', bne_iff_ne] at h
  rw [componentsIn, tails, if_neg (by simp [h.1.2]), if_neg (by simpa using h.2)]
  rfl

/-- Names among the components of a path are such. -/
lemma isName_of_mem_componentsIn (h : .name name ∈ componentsIn p.segments) : isName name = true := by
  have hmem : ∀ segments, .name name ∈ componentsIn segments →
      name ∈ segments ∧ isIdle name = false ∧ name ≠ ".." := by
    intro segments h
    induction segments with
    | nil => cases h
    | cons segment rest ih =>
      rw [componentsIn_cons, List.mem_append] at h
      rcases h with h | h
      · rw [componentsIn, tails] at h
        split at h
        · cases h
        split at h
        · simp [tails] at h
        · next hidle hup =>
          obtain rfl : name = segment := by simpa [tails] using h
          exact ⟨List.mem_cons_self, by simpa using hidle, by simpa using hup⟩
      · exact ⟨List.mem_cons_of_mem _ (ih h).1, (ih h).2⟩
  obtain ⟨hsegment, hidle, hup⟩ := hmem _ h
  obtain ⟨chars, hchars, rfl⟩ := List.mem_map.1 hsegment
  have hslash := not_mem_of_mem_splitAtChar hchars
  simp [isName, hidle, hup, hslash]

/-! ### Paths -/

/-- A path begins with the root, with a dot, or with neither. -/
lemma lead_cases (p : Path) : p.lead = none ∨ p.lead = some .root ∨ p.lead = some .here := by
  unfold lead
  split
  · split <;> simp
  · simp
  · simp

lemma componentsIn_body (p : Path) : componentsIn p.body = componentsIn p.segments := by
  unfold body
  split
  · next hsegments =>
    rw [hsegments]
    split <;> rfl
  · next hsegments =>
    rw [hsegments]
    rfl
  · rfl

lemma components_eq (p : Path) : p.components = p.lead.toList ++ componentsIn p.segments := by
  rw [← componentsIn_body, components, pieces]
  cases p.lead <;> rfl

lemma segments_ne_nil (p : Path) : p.segments ≠ [] := by
  simpa [segments] using splitAtChar_ne_nil '/' p.text.toList

/-- What a path begins with is determined by its first segment and whether it is absolute. -/
lemma lead_eq (p : Path) : p.lead =
    if p.segments.head? = some "" then if p.isAbsolute then some .root else none
    else if p.segments.head? = some "." then some .here else none := by
  unfold lead
  split
  · next hsegments => rw [hsegments, List.head?_cons, if_pos rfl]
  · next hsegments => rw [hsegments, List.head?_cons, if_neg (by decide), if_pos rfl]
  · next hempty hdot =>
    rw [if_neg, if_neg]
    · intro hhead
      obtain ⟨rest, hrest⟩ := List.head?_eq_some_iff.1 hhead
      exact hdot rest hrest
    · intro hhead
      obtain ⟨rest, hrest⟩ := List.head?_eq_some_iff.1 hhead
      exact hempty rest hrest

lemma isAbsolute_of_lead (h : p.lead = none) : p.isAbsolute = false := by
  rw [Bool.eq_false_iff]
  intro habsolute
  obtain ⟨rest, hrest⟩ := List.head?_eq_some_iff.1 (beq_iff_eq.1 habsolute)
  rw [lead_eq, segments, hrest, splitAtChar, if_pos rfl, habsolute] at h
  cases h

lemma isDescending_iff :
    p.isDescending = true ↔ ∃ names : List String, p.components = names.map .name := by
  rw [isDescending]
  generalize p.components = components
  constructor
  · intro h
    induction components with
    | nil => exact ⟨[], rfl⟩
    | cons component rest ih =>
      rw [List.all_cons, Bool.and_eq_true] at h
      obtain ⟨names, rfl⟩ := ih h.2
      cases component with
      | name s => exact ⟨s :: names, rfl⟩
      | root | here | up => cases h.1
  · rintro ⟨names, rfl⟩
    simp

/-- A path that goes down begins with neither the root nor a dot. -/
lemma lead_of_isDescending (h : p.isDescending = true) : p.lead = none := by
  obtain ⟨names, hnames⟩ := isDescending_iff.1 h
  rw [components_eq] at hnames
  rcases p.lead_cases with hlead | hlead | hlead
  · exact hlead
  · cases names <;> simp [hlead] at hnames
  · cases names <;> simp [hlead] at hnames

lemma components_of_isDescending (h : p.isDescending = true) :
    p.components = componentsIn p.segments := by
  rw [components_eq, lead_of_isDescending h]
  rfl

lemma components_of_isName (h : isName name = true) : components ⟨name⟩ = [.name name] := by
  have hsegments : segments ⟨name⟩ = [name] := by
    have hslash : '/' ∉ name.toList := by
      simp only [isName, Bool.and_eq_true, Bool.not_eq_true'] at h
      simpa using h.1.1
    rw [segments, splitAtChar_of_not_mem hslash]
    simp
  have hidle : isIdle name = false := by
    simp only [isName, Bool.and_eq_true, Bool.not_eq_true'] at h
    exact h.1.2
  rw [components_eq, hsegments, componentsIn_of_isName h, lead_eq, hsegments]
  rw [isIdle, Bool.or_eq_false_iff, beq_eq_false_iff_ne, beq_eq_false_iff_ne] at hidle
  simp [hidle]

/-! ### Joining -/

/-- The segments of a path that is not empty, before those of what is joined to it. -/
lemma exists_segments_join (hp : p.text.isEmpty = false) (hq : q.isAbsolute = false) :
    ∃ front, front ≠ [] ∧ (p.join q).segments = front ++ q.segments ∧
      (p.segments = front ∨ p.segments = front ++ [""]) := by
  by_cases hslash : p.text.toList.getLast? = some '/'
  · obtain ⟨front, hfront⟩ := List.getLast?_eq_some_iff.1 hslash
    refine ⟨(splitAtChar '/' front).map String.ofList, ?_, ?_, .inr ?_⟩
    · simpa using splitAtChar_ne_nil '/' front
    · rw [join, hq, hp, if_neg (by simp), if_pos (beq_iff_eq.2 hslash), segments, String.toList_append,
        hfront, List.append_assoc, List.singleton_append, splitAtChar_append_mark, List.map_append]
      rfl
    · rw [segments, hfront, splitAtChar_append_mark, List.map_append]
      rfl
  · refine ⟨p.segments, p.segments_ne_nil, ?_, .inl rfl⟩
    rw [join, hq, hp, if_neg (by simp), if_neg (by simpa using hslash), segments]
    simp only [String.toList_append]
    rw [List.append_assoc, show "/".toList = ['/'] from rfl, List.singleton_append,
      splitAtChar_append_mark, List.map_append]
    rfl

lemma isAbsolute_join (hp : p.text.isEmpty = false) (hq : q.isAbsolute = false) :
    (p.join q).isAbsolute = p.isAbsolute := by
  obtain ⟨c, rest, htext⟩ : ∃ c rest, p.text.toList = c :: rest := by
    refine List.exists_cons_of_ne_nil fun hempty => ?_
    rw [String.toList_eq_nil_iff.1 hempty] at hp
    cases hp
  rw [join, hq, hp, if_neg (by simp)]
  split <;> simp [isAbsolute, htext]

/-- The components of a path that goes down stand after those of the path it is joined to. -/
lemma components_join (h : q.isDescending = true) :
    (p.join q).components = p.components ++ q.components := by
  have hrelative := isAbsolute_of_lead (lead_of_isDescending h)
  by_cases hp : p.text.isEmpty = true
  · obtain ⟨text⟩ := p
    obtain rfl : text = "" := String.isEmpty_iff.1 hp
    rw [join, hrelative]
    rfl
  · rw [Bool.not_eq_true] at hp
    obtain ⟨front, hfront, hjoin, hsegments⟩ := exists_segments_join hp hrelative
    have hhead : p.segments.head? = front.head? := by
      rcases hsegments with hsegments | hsegments
      · rw [hsegments]
      · rw [hsegments, List.head?_append_of_ne_nil _ hfront]
    have hcomponents : componentsIn p.segments = componentsIn front := by
      rcases hsegments with hsegments | hsegments
      · rw [hsegments]
      · rw [hsegments, componentsIn_append, componentsIn_of_isIdle rfl, List.append_nil]
    have hlead : (p.join q).lead = p.lead := by
      rw [lead_eq, lead_eq, isAbsolute_join hp hrelative, hjoin, hhead,
        List.head?_append_of_ne_nil _ hfront]
    rw [components_eq, components_eq p, hlead, hjoin, componentsIn_append, hcomponents,
      components_of_isDescending h, List.append_assoc]

/-! ### What is left below a base -/

/-- The segments that stand with a component are those of the components after it. -/
lemma drop_tails (c : PathComponent) (segments : List String) {i : Nat}
    {piece : PathComponent × List String} (h : ((c, segments) :: tails segments)[i]? = some piece) :
    (((c, segments) :: tails segments).map (·.1)).drop (i + 1) = componentsIn piece.2 ∧
      piece.2 <:+ segments := by
  induction segments generalizing c i with
  | nil =>
    cases i with
    | zero =>
      cases h
      exact ⟨rfl, List.suffix_rfl⟩
    | succ i => cases h
  | cons segment rest ih =>
    cases i with
    | zero =>
      cases h
      exact ⟨rfl, List.suffix_rfl⟩
    | succ i =>
      rw [List.getElem?_cons_succ, tails] at h
      rw [List.map_cons, List.drop_succ_cons, tails]
      split at h
      · next hidle =>
        rw [if_pos hidle]
        obtain ⟨hdrop, hsuffix⟩ := ih c (i := i + 1) h
        exact ⟨hdrop, hsuffix.trans (List.suffix_cons _ _)⟩
      rw [if_neg (by assumption)]
      split at h
      · next hup =>
        rw [if_pos hup]
        obtain ⟨hdrop, hsuffix⟩ := ih _ h
        exact ⟨hdrop, hsuffix.trans (List.suffix_cons _ _)⟩
      · next hup =>
        rw [if_neg hup]
        obtain ⟨hdrop, hsuffix⟩ := ih _ h
        exact ⟨hdrop, hsuffix.trans (List.suffix_cons _ _)⟩

lemma body_suffix (p : Path) : p.body <:+ p.segments := by
  unfold body
  split
  · next hsegments =>
    rw [hsegments]
    split
    · exact List.suffix_cons _ _
    · exact List.suffix_rfl
  · next hsegments =>
    rw [hsegments]
    exact List.suffix_cons _ _
  · exact List.suffix_rfl

lemma drop_components {i : Nat} {piece : PathComponent × List String}
    (h : p.pieces[i]? = some piece) :
    p.components.drop (i + 1) = componentsIn piece.2 ∧ piece.2 <:+ p.segments := by
  rw [components]
  unfold pieces at h ⊢
  split at h
  · obtain ⟨hdrop, hsuffix⟩ := drop_tails _ _ h
    exact ⟨hdrop, hsuffix.trans p.body_suffix⟩
  · obtain ⟨hdrop, hsuffix⟩ := drop_tails .root p.body (i := i + 1) h
    exact ⟨hdrop, hsuffix.trans p.body_suffix⟩

lemma componentsIn_of_all_isIdle {segments : List String} (h : ∀ s ∈ segments, isIdle s = true) :
    componentsIn segments = [] := by
  induction segments with
  | nil => rfl
  | cons segment rest ih =>
    rw [componentsIn_cons, componentsIn_of_isIdle (h _ List.mem_cons_self),
      ih fun s hs => h s (List.mem_cons_of_mem _ hs), List.append_nil]

lemma trimEnd_append (segments : List String) :
    trimEnd segments ++ (segments.reverse.takeWhile isIdle).reverse = segments := by
  rw [trimEnd, ← List.reverse_append, List.takeWhile_append_dropWhile, List.reverse_reverse]

/-- Idle segments at both ends are no components. -/
lemma componentsIn_trim (segments : List String) :
    componentsIn (trim segments) = componentsIn segments := by
  have hback : ∀ segments, componentsIn (trimEnd segments) = componentsIn segments := by
    intro segments
    have hidle : componentsIn (segments.reverse.takeWhile isIdle).reverse = [] :=
      componentsIn_of_all_isIdle fun s hs => List.mem_takeWhile_imp (List.mem_reverse.1 hs)
    conv_rhs => rw [← trimEnd_append segments]
    rw [componentsIn_append, hidle, List.append_nil]
  have hfront : componentsIn (segments.takeWhile isIdle) = [] :=
    componentsIn_of_all_isIdle fun s hs => List.mem_takeWhile_imp hs
  conv_rhs => rw [← List.takeWhile_append_dropWhile (p := isIdle) (l := segments)]
  rw [trim, hback, componentsIn_append, hfront, List.nil_append]

lemma mem_of_mem_trim {segments : List String} (h : segment ∈ trim segments) : segment ∈ segments := by
  refine (List.dropWhile_suffix isIdle).subset ?_
  rw [← trimEnd_append (segments.dropWhile isIdle)]
  exact List.mem_append_left _ h

/-- Without the idle segments at both ends, the first one is not idle. -/
lemma isIdle_of_head?_trim {segments : List String} (h : (trim segments).head? = some segment) :
    isIdle segment = false := by
  have hhead : (segments.dropWhile isIdle).head? = some segment := by
    rw [← trimEnd_append (segments.dropWhile isIdle), List.head?_append, ← trim, h]
    rfl
  have hnot := List.head?_dropWhile_not isIdle segments
  rwa [hhead] at hnot

lemma segments_joinSegments {segments : List String} (hne : segments ≠ [])
    (h : ∀ s ∈ segments, '/' ∉ s.toList) : Path.segments ⟨joinSegments segments⟩ = segments := by
  induction segments with
  | nil => exact absurd rfl hne
  | cons segment rest ih =>
    have hsegment := splitAtChar_of_not_mem (h segment List.mem_cons_self)
    cases rest with
    | nil => simp [Path.segments, joinSegments, hsegment]
    | cons next rest =>
      have hrest := ih (by simp) fun s hs => h s (List.mem_cons_of_mem _ hs)
      have htext : (joinSegments (segment :: next :: rest)).toList =
          segment.toList ++ '/' :: (joinSegments (next :: rest)).toList := by
        simp [joinSegments]
      rw [Path.segments, htext, splitAtChar_append_mark, List.map_append, hsegment]
      change String.ofList segment.toList :: Path.segments ⟨joinSegments (next :: rest)⟩ = _
      rw [hrest, String.ofList_toList]

lemma components_joinSegments {segments : List String} (h : ∀ s ∈ segments, '/' ∉ s.toList) :
    components ⟨joinSegments (trim segments)⟩ = componentsIn segments := by
  rw [← componentsIn_trim]
  by_cases hne : trim segments = []
  · rw [hne]
    rfl
  · have hsegments := segments_joinSegments hne fun s hs => h s (mem_of_mem_trim hs)
    have hlead : lead ⟨joinSegments (trim segments)⟩ = none := by
      rw [lead_eq, hsegments, if_neg, if_neg]
      · exact fun hhead => absurd (isIdle_of_head?_trim hhead) (by decide)
      · exact fun hhead => absurd (isIdle_of_head?_trim hhead) (by decide)
    rw [components_eq, hlead, hsegments]
    rfl

/-- What is left of a path below a base are the components after those of the base. -/
lemma components_below? (h : p.below? base = some q) :
    p.components = base.components ++ q.components := by
  simp only [below?] at h
  split at h
  swap
  · cases h
  next hprefix =>
  have hsplit := List.prefix_iff_eq_append.1 (List.isPrefixOf_iff_prefix.1 hprefix)
  split at h
  · next hcount =>
    cases h
    rw [List.length_eq_zero_iff.1 hcount]
    rfl
  · next before hcount =>
    obtain ⟨piece, hpiece, rfl⟩ := Option.map_eq_some_iff.1 h
    obtain ⟨hdrop, hsuffix⟩ := drop_components hpiece
    rw [← hsplit, hcount, hdrop, components_joinSegments]
    intro s hs
    obtain ⟨chars, hchars, rfl⟩ := List.mem_map.1 (hsuffix.subset hs)
    simpa using not_mem_of_mem_splitAtChar hchars

lemma exists_below? (h : base.components <+: p.components) : ∃ q, p.below? base = some q := by
  simp only [below?]
  rw [if_pos (List.isPrefixOf_iff_prefix.2 h)]
  split
  · exact ⟨p, rfl⟩
  · next before hcount =>
    have hlength := h.length_le
    rw [hcount, components, List.length_map] at hlength
    rw [List.getElem?_eq_getElem (by omega)]
    exact ⟨_, rfl⟩

end Path

end BindingProxy
