import BindingProxy.Proofs.Files.Components

/-!
# Where paths lead

The place that a path leads to is determined by its text alone; the disk only decides whether one
gets there.  Folders are added to a disk and never taken away, so a path that leads somewhere goes on
doing so, and a file is changed only by writing to its place.

Under one output folder, two outputs that go down lead to the same place only if they have the same
components, also with the ending of a dump.
-/

namespace BindingProxy

/-! ### Destinations -/

/-- The place one component further. -/
def PathComponent.advance (place : Place) : PathComponent → Place
  | .name s => place ++ [s]
  | .up => place.dropLast
  | .root | .here => place

namespace Path

variable {p folder output output' : Path}

/-- The place that a path leads to if one gets there. -/
def destination (p : Path) : Place := p.segments.foldl Disk.advance []

lemma foldl_advance (segments : List String) (place : Place) :
    segments.foldl Disk.advance place = (componentsIn segments).foldl PathComponent.advance place := by
  induction segments generalizing place with
  | nil => rfl
  | cons segment rest ih =>
    rw [List.foldl_cons, ih, componentsIn_cons, List.foldl_append]
    congr 1
    rw [Disk.advance, componentsIn, tails]
    split
    · rfl
    split
    · rfl
    · rfl

/-- What stands before the body of a path leads nowhere. -/
lemma foldl_body (p : Path) : p.body.foldl Disk.advance [] = p.destination := by
  rw [destination, foldl_advance, foldl_advance, componentsIn_body]

/-- Where a path leads is determined by its components. -/
lemma destination_eq (p : Path) : p.destination = p.components.foldl PathComponent.advance [] := by
  rw [destination, foldl_advance, components_eq, List.foldl_append]
  rcases p.lead_cases with hlead | hlead | hlead <;> rw [hlead] <;> rfl

lemma destination_of_components {names : List String}
    (h : p.components = folder.components ++ names.map .name) :
    p.destination = folder.destination ++ names := by
  have hnames : ∀ (names : List String) (place : Place),
      (names.map .name).foldl PathComponent.advance place = place ++ names := by
    intro names
    induction names with
    | nil => simp
    | cons name names ih => simp [PathComponent.advance, ih]
  rw [destination_eq, destination_eq, h, List.foldl_append, hnames]

/-! ### Outputs -/

/-- An output, or the dump in its place. -/
def withEnding (p : Path) (dumpTree : Bool) : Path := if dumpTree then ⟨p.text ++ ".json"⟩ else p

lemma isAbsolute_withEnding (h : p.isAbsolute = false) (dumpTree : Bool) :
    (p.withEnding dumpTree).isAbsolute = false := by
  cases dumpTree with
  | false => exact h
  | true =>
    rw [isAbsolute] at h ⊢
    cases htext : p.text.toList with
    | nil => simp [withEnding, htext]
    | cons c rest => simpa [withEnding, htext] using h

lemma outputIn_eq (h : p.isAbsolute = false) (folder : Path) (dumpTree : Bool) :
    p.outputIn folder dumpTree = folder.join (p.withEnding dumpTree) := by
  rw [outputIn, join, join, h, isAbsolute_withEnding h, Bool.false_or]
  cases dumpTree with
  | false => rfl
  | true =>
    simp only [withEnding, if_true]
    split
    · rfl
    split <;> rw [String.append_assoc]

lemma append_json_ne {segment other : String} (h : other.length < 5) : segment ++ ".json" ≠ other := by
  rintro rfl
  rw [String.length_append, show ".json".length = 5 by decide] at h
  omega

/-- The ending of a dump belongs to the last segment, which is a name then. -/
lemma exists_components_withEnding (h : p.isDescending = true) :
    ∃ front last, p.components = componentsIn front ++ componentsIn [last] ∧
      (p.withEnding true).components = componentsIn front ++ [.name (last ++ ".json")] := by
  obtain ⟨front, last, hsplit, hending⟩ := exists_splitAtChar_append '/' p.text.toList
  have hsegments : p.segments = front.map String.ofList ++ [String.ofList last] := by
    simp [segments, hsplit]
  have hjson : (p.withEnding true).segments =
      front.map String.ofList ++ [String.ofList last ++ ".json"] := by
    simp only [withEnding, if_true, segments, String.toList_append]
    rw [hending ".json".toList (by decide)]
    simp
  have hnone := lead_of_isDescending h
  have hrelative := isAbsolute_of_lead hnone
  have hlead : (p.withEnding true).lead = none := by
    rw [lead_eq, isAbsolute_withEnding hrelative, hjson]
    rw [lead_eq, hrelative, hsegments] at hnone
    cases front with
    | nil => simpa using append_json_ne (by decide)
    | cons first front => exact hnone
  have hlast : componentsIn [String.ofList last ++ ".json"] = [.name (String.ofList last ++ ".json")] := by
    rw [componentsIn, tails, isIdle, if_neg (by simpa using append_json_ne (by decide)),
      if_neg (by simpa using append_json_ne (by decide))]
    rfl
  refine ⟨front.map String.ofList, String.ofList last, ?_, ?_⟩
  · rw [components_of_isDescending h, hsegments, componentsIn_append]
  · rw [components_eq, hlead, hjson, componentsIn_append, hlast]
    rfl

lemma isDescending_withEnding (h : p.isDescending = true) (dumpTree : Bool) :
    (p.withEnding dumpTree).isDescending = true := by
  cases dumpTree with
  | false => exact h
  | true =>
    obtain ⟨front, last, hlast, hjson⟩ := exists_components_withEnding h
    rw [isDescending, hlast, List.all_append, Bool.and_eq_true] at h
    rw [isDescending, hjson, List.all_append, h.1]
    rfl

lemma withEnding_ne_nil (h : p.isDescending = true) (hne : p.components ≠ []) (dumpTree : Bool) :
    (p.withEnding dumpTree).components ≠ [] := by
  cases dumpTree with
  | false => exact hne
  | true =>
    obtain ⟨front, last, _, hjson⟩ := exists_components_withEnding h
    simp [hjson]

/-- An output that goes down stays below the output folder. -/
lemma exists_components_outputIn (h : p.isDescending = true) (folder : Path) (dumpTree : Bool) :
    ∃ names : List String, (p.withEnding dumpTree).components = names.map .name ∧
      (p.outputIn folder dumpTree).components = folder.components ++ names.map .name := by
  have hdown := isDescending_withEnding h dumpTree
  obtain ⟨names, hnames⟩ := isDescending_iff.1 hdown
  refine ⟨names, hnames, ?_⟩
  rw [outputIn_eq (isAbsolute_of_lead (lead_of_isDescending h)), components_join hdown, hnames]

/-- Outputs that go down to the same place have the same components. -/
theorem components_eq_of_destination_eq {dumpTree : Bool}
    (h : output.isDescending = true) (h' : output'.isDescending = true)
    (heq : (output.outputIn folder dumpTree).destination =
      (output'.outputIn folder dumpTree).destination) : output.components = output'.components := by
  obtain ⟨names, hnames, htarget⟩ := exists_components_outputIn h folder dumpTree
  obtain ⟨names', hnames', htarget'⟩ := exists_components_outputIn h' folder dumpTree
  rw [destination_of_components htarget, destination_of_components htarget'] at heq
  have hending : (output.withEnding dumpTree).components = (output'.withEnding dumpTree).components := by
    rw [hnames, hnames', List.append_cancel_left heq]
  cases dumpTree with
  | false => exact hending
  | true =>
    obtain ⟨front, last, hlast, hjson⟩ := exists_components_withEnding h
    obtain ⟨front', last', hlast', hjson'⟩ := exists_components_withEnding h'
    rw [hjson, hjson'] at hending
    obtain ⟨hfront, hend⟩ := List.append_inj' hending rfl
    have hname : last = last' := by
      have hchars := congrArg String.toList (PathComponent.name.inj (List.cons.inj hend).1)
      rw [String.toList_append, String.toList_append] at hchars
      exact String.toList_inj.1 (List.append_cancel_right hchars)
    rw [hlast, hlast', hfront, hname]

lemma isName_of_fileName? {name : String} (h : p.fileName? = some name) : isName name = true := by
  have hlast : p.components.getLast? = some (.name name) := by
    unfold fileName? at h
    split at h
    · next hlast =>
      cases h
      exact hlast
    · cases h
  have hmem := List.mem_of_getLast? hlast
  rw [components_eq, List.mem_append] at hmem
  rcases hmem with hmem | hmem
  · rcases p.lead_cases with hlead | hlead | hlead <;> simp [hlead] at hmem
  · exact isName_of_mem_componentsIn hmem

/-- The output of a path that has a file name goes down. -/
lemma isDescending_outputFrom {name : String} (h : p.fileName? = some name) (folder : Path) :
    (p.outputFrom folder).isDescending = true := by
  have hname : ((p.fileName?.map Path.mk).getD p).isDescending = true := by
    rw [h]
    exact isDescending_iff.2 ⟨[name], components_of_isName (isName_of_fileName? h)⟩
  unfold outputFrom
  split
  · split
    · next hdescending => exact hdescending
    · exact hname
  · exact hname

end Path

/-! ### Getting to a place -/

namespace Disk

variable {d d' : Disk} {p : Path} {q start : Place} {segments : List String}

lemma exists_of_bind_eq_ok {α β : Type} {x : Except Obstacle α} {f : α → Except Obstacle β} {b : β}
    (h : (x >>= f) = .ok b) : ∃ a, x = .ok a ∧ f a = .ok b := by
  cases x with
  | ok a => exact ⟨a, rfl, h⟩
  | error _ => cases h

/-- One disk has the folders of another, and maybe more. -/
def Extends (d d' : Disk) : Prop := ∀ q, d.hasFolder q = true → d'.hasFolder q = true

lemma Extends.refl (d : Disk) : d.Extends d := fun _ h => h

lemma Extends.trans {d'' : Disk} (h : d.Extends d') (h' : d'.Extends d'') : d.Extends d'' :=
  fun q hq => h' q (h q hq)

lemma follow_eq_ok (h : d.follow start segments = .ok q) : q = segments.foldl advance start := by
  induction segments generalizing start with
  | nil =>
    cases h
    rfl
  | cons segment rest ih =>
    rw [follow] at h
    split at h
    · exact ih h
    · split at h <;> cases h

lemma Extends.follow (hd : d.Extends d') (h : d.follow start segments = .ok q) :
    d'.follow start segments = .ok q := by
  induction segments generalizing start with
  | nil => exact h
  | cons segment rest ih =>
    rw [Disk.follow] at h ⊢
    split at h
    · next hfolder =>
      rw [if_pos (hd _ hfolder)]
      exact ih h
    · split at h <;> cases h

lemma place_eq_ok (h : d.place p = .ok q) : q = p.destination := by
  rw [place] at h
  split at h
  · rw [follow_eq_ok h, Path.foldl_body]
  · cases h

/-- A path that leads to a place goes on doing so when folders are added. -/
lemma Extends.place (hd : d.Extends d') (h : d.place p = .ok q) : d'.place p = .ok q := by
  rw [Disk.place] at h ⊢
  split at h
  · next husable =>
    rw [if_pos husable]
    exact hd.follow h
  · cases h

lemma exists_of_isFolder (h : d.isFolder p = true) : ∃ q, d.place p = .ok q ∧ d.hasFolder q = true := by
  rw [isFolder] at h
  cases hplace : d.place p with
  | ok q =>
    rw [hplace] at h
    exact ⟨q, rfl, h⟩
  | error _ =>
    rw [hplace] at h
    cases h

lemma read?_of_place (h : d.place p = .ok q) : d.read? p = d.content? q := by
  rw [read?, h]

/-- All that stands around a place is a folder. -/
def Enclosed (d : Disk) (q : Place) : Prop := ∀ outer, outer <+: q → outer ≠ q → d.hasFolder outer = true

lemma Enclosed.dropLast (h : d.Enclosed q) : d.hasFolder q.dropLast = true := by
  by_cases hempty : q = []
  · rw [hempty]
    rfl
  · refine h _ (List.dropLast_prefix q) fun heq => ?_
    have hlength := congrArg List.length heq
    have hpos := List.length_pos_iff.2 hempty
    rw [List.length_dropLast] at hlength
    omega

/-- Coming through a folder, one gets to a place that is enclosed by folders. -/
lemma Enclosed.advance (h : d.Enclosed q) (hfolder : d.hasFolder q = true) (segment : String) :
    d.Enclosed (advance q segment) := by
  unfold Disk.advance
  split
  · exact h
  split
  · intro outer houter hne
    refine h outer (houter.trans (List.dropLast_prefix q)) fun heq => ?_
    have hlength := (heq ▸ houter).length_le
    rw [List.length_dropLast] at hlength
    have hempty : q = [] := List.length_eq_zero_iff.1 (by omega)
    rw [heq, hempty] at hne
    exact hne rfl
  · intro outer houter hne
    rcases List.prefix_concat_iff.1 houter with heq | houter
    · exact absurd heq hne
    · by_cases heq : outer = q
      · rw [heq]
        exact hfolder
      · exact h outer houter heq

/-- Segments that lead to something other than a folder end with a name. -/
lemma exists_last_of_follow (hq : d.hasFolder q = false) (hstart : d.Enclosed start)
    (h : d.follow start segments = .ok q) :
    (segments = [] ∧ q = start) ∨
      ∃ name, ((Path.tails segments).map (·.1)).getLast? = some (.name name) := by
  induction segments generalizing start with
  | nil =>
    cases h
    exact .inl ⟨rfl, rfl⟩
  | cons segment rest ih =>
    rw [follow] at h
    split at h
    swap
    · split at h <;> cases h
    next hfolder =>
    refine .inr ?_
    rcases ih (hstart.advance hfolder segment) h with ⟨rfl, rfl⟩ | ⟨name, hname⟩
    · unfold advance at hq
      rw [Path.tails]
      split at hq
      · rw [hfolder] at hq
        cases hq
      split at hq
      · rw [hstart.dropLast] at hq
        cases hq
      · next hidle hup =>
        rw [if_neg hidle, if_neg hup]
        exact ⟨segment, rfl⟩
    · refine ⟨name, ?_⟩
      have hcons : ∀ x, (x :: (Path.tails rest).map (·.1)).getLast? = some (.name name) := fun x => by
        rw [List.getLast?_cons, hname]
        rfl
      rw [Path.tails]
      split
      · exact hname
      split
      · exact hcons _
      · exact hcons _

/-- A path that leads to something other than a folder has a file name. -/
lemma exists_fileName?_of_place (hq : d.hasFolder q = false) (h : d.place p = .ok q) :
    ∃ name, p.fileName? = some name := by
  rw [place] at h
  split at h
  swap
  · cases h
  have hroot : d.Enclosed [] := fun outer houter hne => absurd (List.prefix_nil.1 houter) hne
  rcases exists_last_of_follow hq hroot h with ⟨_, rfl⟩ | ⟨name, hname⟩
  · cases hq
  · refine ⟨name, ?_⟩
    have hlast : p.components.getLast? = some (.name name) := by
      rw [Path.components, Path.pieces]
      split
      · rw [List.map_cons, List.getLast?_cons, hname]
        rfl
      · exact hname
    rw [Path.fileName?, hlast]

/-! ### Changes -/

lemma content?_setFile_self (content : Content) : (d.setFile q content).content? q = some content := by
  simp [content?, setFile]

lemma content?_setFile_of_ne {other : Place} (h : other ≠ q) (content : Content) :
    (d.setFile q content).content? other = d.content? other := by
  have hkeep : ∀ files : List (Place × Content),
      (files.filter (·.1 != q)).lookup other = files.lookup other := by
    intro files
    induction files with
    | nil => rfl
    | cons file files ih =>
      obtain ⟨key, content⟩ := file
      by_cases hkey : key = q
      · rw [List.filter_cons_of_neg (by simp [hkey]), ih, List.lookup_cons,
          beq_eq_false_iff_ne.2 (hkey ▸ h)]
      · rw [List.filter_cons_of_pos (by simp [hkey]), List.lookup_cons, List.lookup_cons, ih]
  rw [content?, content?, setFile, List.lookup_cons, beq_eq_false_iff_ne.2 h]
  exact hkeep d.files

/-- What adding folders to a disk does. -/
structure AddsFolders (d d' : Disk) : Prop where
  files_eq : d'.files = d.files
  extends_ : d.Extends d'

lemma AddsFolders.refl (d : Disk) : d.AddsFolders d := ⟨rfl, .refl d⟩

lemma AddsFolders.trans {d'' : Disk} (h : d.AddsFolders d') (h' : d'.AddsFolders d'') :
    d.AddsFolders d'' :=
  ⟨h'.files_eq.trans h.files_eq, h.extends_.trans h'.extends_⟩

lemma addsFolders_of_createFolder (h : d.createFolder p = .ok d') : d.AddsFolders d' := by
  have hadds : ∀ q, d.AddsFolders { d with folders := q :: d.folders } := fun q =>
    ⟨rfl, fun other hother => by
      simp only [hasFolder, Bool.or_eq_true, List.contains_cons] at hother ⊢
      exact hother.imp id .inr⟩
  unfold createFolder at h
  split at h
  · cases h
  · split at h
    · cases h
    · obtain ⟨outer, _, h⟩ := exists_of_bind_eq_ok h
      obtain ⟨_, _, h⟩ := exists_of_bind_eq_ok h
      dsimp only at h
      split at h
      · cases h
      · cases h
        exact hadds _

lemma addsFolders_of_createChain {paths : List Path} (h : d.createChain paths = .ok d') :
    d.AddsFolders d' := by
  induction paths generalizing d' with
  | nil => cases h
  | cons p outer ih =>
    rw [createChain] at h
    split at h
    · next hcreate =>
      cases h
      exact addsFolders_of_createFolder hcreate
    · obtain ⟨d1, hchain, h⟩ := exists_of_bind_eq_ok h
      refine (ih hchain).trans ?_
      split at h
      · next hcreate =>
        cases h
        exact addsFolders_of_createFolder hcreate
      · split at h <;> cases h
        exact .refl _
    · split at h <;> cases h
      exact .refl _

lemma addsFolders_of_createFolders (h : d.createFolders p = .ok d') : d.AddsFolders d' := by
  rw [createFolders] at h
  split at h
  · cases h
    exact .refl d
  · exact addsFolders_of_createChain h

lemma eq_setFile_of_write {text : String} (h : d.write p text = .ok d') :
    ∃ q, d.place p = .ok q ∧ d' = d.setFile q (.text text) := by
  obtain ⟨q, hq, h⟩ := exists_of_bind_eq_ok h
  refine ⟨q, hq, ?_⟩
  split at h
  · cases h
  · cases h
    rfl

end Disk

end BindingProxy
