import BindingProxy.Proofs.Command.Batch

/-!
# Outputs below the output folder

The output of a file input is its path from the working folder or only its name, and that of a script
found in a folder is its path below the folder.  Either way it is made of names, so it stays below the
output folder.  Two outputs are the same only if they are refused for it, and then, or if an input is
missing, nothing has been written.
-/

namespace BindingProxy

open RunM Path

variable {a : Arguments} {r : ResolvedOptions} {color : Bool} {folder p outDir : Path}
  {w w' : World} {names : Place}

/-! ### What outputs are made of -/

lemma isDescending_of_isName {name : String} (h : isName name = true) :
    isDescending ⟨name⟩ = true :=
  isDescending_iff.2 ⟨[name], components_of_isName h⟩

lemma components_descend (h : ∀ name ∈ names, isName name = true) :
    (p.descend names).components = p.components ++ names.map .name := by
  induction names generalizing p with
  | nil => simp [descend]
  | cons name names ih =>
    obtain ⟨hname, hnames⟩ := List.forall_mem_cons.1 h
    rw [descend, List.foldl_cons, ← descend, ih hnames, components_join (isDescending_of_isName hname),
      components_of_isName hname, List.append_assoc]
    rfl

/-- Below a folder there are files that one gets to by names. -/
lemma names_of_mem_filesFrom {d : Disk} (hdisk : d.WellFormed) (hfolder : d.isFolder p = true)
    (h : names ∈ d.filesFrom p) : names ≠ [] ∧ ∀ name ∈ names, isName name = true := by
  obtain ⟨q, hplace, hfolder⟩ := Disk.exists_of_isFolder hfolder
  rw [Disk.filesFrom, hplace] at h
  simp only at h
  rw [Disk.filesBelow, List.mem_mergeSort, List.mem_filterMap] at h
  obtain ⟨file, hfile, hnames⟩ := h
  obtain ⟨hstart, hnames⟩ := Option.ite_none_right_eq_some.1 hnames
  cases hnames
  obtain ⟨rest, hrest⟩ := List.isPrefixOf_iff_prefix.1 hstart
  refine ⟨fun hempty => ?_, fun name hname => hdisk.named file hfile name (List.mem_of_mem_drop hname)⟩
  have hapart := hdisk.apart file hfile
  rw [← hrest, List.drop_left] at hempty
  rw [← hrest, hempty, List.append_nil, hfolder] at hapart
  cases hapart

lemma output_walkedSource (hnames : ∀ name ∈ names, isName name = true) :
    (walkedSource p (p.descend names)).output.components = names.map .name := by
  have hcomponents := components_descend hnames (p := p)
  obtain ⟨q, hq⟩ := exists_below? (hcomponents ▸ List.prefix_append p.components _)
  rw [walkedSource, hq]
  exact (List.append_cancel_left ((components_below? hq).symm.trans hcomponents))

/-- A file is not the working folder, however that is written. -/
lemma output_fileSource_ne_nil {input : Path} (hfolder : w.disk.isFolder folder = true)
    (hfile : w.HoldsFile (folder.join input)) : (fileSource folder input).output.components ≠ [] := by
  obtain ⟨q, hplace, hnot⟩ := hfile.exists_place
  obtain ⟨q', hplace', hfolder⟩ := Disk.exists_of_isFolder hfolder
  obtain ⟨name, hname⟩ := Disk.exists_fileName?_of_place hnot hplace
  have hfallback : (((folder.join input).fileName?.map Path.mk).getD (folder.join input)).components ≠ [] := by
    rw [hname]
    simp [components_of_isName (isName_of_fileName? hname)]
  rw [fileSource, outputFrom]
  split
  · next below hbelow =>
    split
    · intro hempty
      have hcomponents := components_below? hbelow
      rw [hempty, List.append_nil] at hcomponents
      have hq : q = q' := by
        rw [Disk.place_eq_ok hplace, Disk.place_eq_ok hplace', destination_eq, destination_eq,
          hcomponents]
      rw [hq, hfolder] at hnot
      cases hnot
    · exact hfallback
  · exact hfallback

/-- The output of a script is made of names, of one at least. -/
lemma exists_names_of_mem_sources {input : Path} {s : Source} (hdisk : w.disk.WellFormed)
    (hfolder : w.disk.isFolder folder = true) (hholds : w.Holds (folder.join input))
    (hs : s ∈ w.sources folder input) :
    ∃ names : List String, names ≠ [] ∧ s.output.components = names.map .name := by
  rw [World.sources] at hs
  split at hs
  · next hisFolder =>
    obtain ⟨file, hfile, rfl⟩ := List.mem_map.1 hs
    obtain ⟨names, hnames, rfl⟩ := List.mem_map.1 (List.mem_filter.1 hfile).1
    obtain ⟨hne, hall⟩ := names_of_mem_filesFrom hdisk hisFolder hnames
    exact ⟨names, hne, output_walkedSource hall⟩
  · next hisFolder =>
    rw [List.mem_singleton] at hs
    have hfile : w.HoldsFile (folder.join input) :=
      ⟨hholds.resolve_left hisFolder, Bool.eq_false_iff.2 hisFolder⟩
    subst hs
    obtain ⟨names, hnames⟩ := isDescending_iff.1 (isDescending_fileSource hfile)
    refine ⟨names, fun hempty => output_fileSource_ne_nil hfolder hfile ?_, hnames⟩
    rw [hnames, hempty]
    rfl

lemma holds_of_findAll {inputs : List Path} {found : List (List Source)}
    (h : (inputs.mapM (findSources folder)).Gives w found w') :
    ∀ p ∈ inputs, w.Holds (folder.join p) := by
  induction inputs generalizing w w' found with
  | nil => simp
  | cons input inputs ih =>
    rw [List.mapM_cons] at h
    obtain ⟨sources, between, hfind, hrest⟩ := Gives.exists_of_bind h
    obtain ⟨others, last, hothers, _⟩ := Gives.exists_of_bind hrest
    have hholds : w.Holds (folder.join input) := by
      obtain ⟨isFolder, first, hfolder, hrest⟩ := Gives.exists_of_bind hfind
      obtain ⟨rfl, rfl⟩ := (Gives.isFolder _).unique hfolder
      split at hrest
      · next hisFolder => exact .inl hisFolder
      obtain ⟨isFile, second, hfile, hrest⟩ := Gives.exists_of_bind hrest
      obtain ⟨rfl, rfl⟩ := (Gives.isFile _).unique hfile
      split at hrest
      · next hisFile => exact .inr hisFile
      · cases hrest
    obtain ⟨_, rfl⟩ := (findSources_gives_sources hholds).unique hfind
    exact List.forall_mem_cons.2 ⟨hholds, ih hothers⟩

/-! ### Runs that write nothing -/

/-- Whatever comes of `x` in the world `w`, the disk stays as it is. -/
def RunM.Keeps {α : Type} (x : RunM (StateM World) α) (w : World) : Prop :=
  (x.run.run w).2.disk = w.disk

namespace RunM.Keeps

variable {α β : Type} {x : RunM (StateM World) α} {f : α → RunM (StateM World) β}

lemma bind (hx : Keeps x w) (hf : ∀ a w', Gives x w a w' → Keeps (f a) w') : Keeps (x >>= f) w := by
  unfold Keeps at hx ⊢
  rw [ExceptT.run_bind, StateT.run_bind]
  rcases hrun : x.run.run w with ⟨result, between⟩
  rw [hrun] at hx
  cases result with
  | ok a => exact (hf a between hrun).trans hx
  | error e => exact hx

lemma mapM {f : α → RunM (StateM World) β} (hf : ∀ a w, Keeps (f a) w) (l : List α) (w : World) :
    Keeps (l.mapM f) w := by
  induction l generalizing w with
  | nil => exact rfl
  | cons a l ih =>
    rw [List.mapM_cons]
    exact (hf a w).bind fun _ _ _ => (ih _).bind fun _ _ _ => rfl

lemma foldlM {f : β → α → RunM (StateM World) β} (hf : ∀ b a w, Keeps (f b a) w) (l : List α) (b : β)
    (w : World) : Keeps (l.foldlM f b) w := by
  induction l generalizing b w with
  | nil => exact rfl
  | cons a l ih =>
    rw [List.foldlM_cons]
    exact (hf b a w).bind fun _ _ _ => ih _ _

end RunM.Keeps

lemma keeps_findSources (folder input : Path) (w : World) : (findSources folder input).Keeps w := by
  refine Keeps.bind rfl fun isFolder w' _ => ?_
  split
  · refine Keeps.bind ?_ fun _ _ _ => rfl
    rw [Keeps, Gives.filesBelow]
  · refine Keeps.bind rfl fun isFile w' _ => ?_
    split <;> rfl

lemma keeps_loadSettings (a : Arguments) (folder : Path) (w : World) :
    (loadSettings a folder).Keeps w := by
  have hat : ∀ path w, (loadSettingsAt path).Keeps w := by
    intro path w
    refine Keeps.bind rfl fun content w' _ => ?_
    split
    · rfl
    split <;> rfl
  unfold loadSettings
  split
  · exact hat _ _
  · refine Keeps.bind rfl fun isFile w' _ => ?_
    split
    · exact hat _ _
    · rfl

lemma keeps_reportSummary (outcome : Outcome) (w : World) : (reportSummary outcome).Keeps w := by
  rw [Keeps, reportSummary_gives]

lemma keeps_processSource (hdir : r.outDir = none) (outcome : Outcome) (s : Source) (w : World) :
    (processSource a r color folder outcome s).Keeps w := by
  refine Keeps.bind rfl fun content w' _ => ?_
  split
  · rfl
  · refine Keeps.bind ?_ fun result w' _ => ?_
    · unfold instrumentOrReport
      split <;> rfl
    split
    · rfl
    · rw [hdir]
      rfl

/-- Inputs that are missing, or scripts with the same output, are found out before anything is
written. -/
lemma keeps_processInputs
    (h : (∃ p ∈ a.inputs, ¬ w.Holds (folder.join p)) ∨
      findTaken [] (a.inputs.flatMap (w.sources folder)) ≠ none) :
    (processInputs a r color folder).Keeps w := by
  refine (Keeps.mapM (keeps_findSources folder) _ _).bind fun found w' hfound => ?_
  have hholds := holds_of_findAll hfound
  obtain ⟨rfl, rfl⟩ := (findAll_gives_sources hholds).unique hfound
  rcases h with ⟨p, hp, hmissing⟩ | htaken
  · exact absurd (hholds p hp) hmissing
  rw [List.flatMap_def] at htaken
  obtain ⟨s, hs⟩ := Option.ne_none_iff_exists'.1 htaken
  simp only [hs]
  cases hdir : r.outDir with
  | some outDir => rfl
  | none => exact Keeps.foldlM (keeps_processSource hdir) _ _ _

lemma keeps_run (hclient : a.emitClient = none)
    (h : (∃ p ∈ a.inputs, ¬ w.Holds (folder.join p)) ∨
      findTaken [] (a.inputs.flatMap (w.sources folder)) ≠ none) :
    (run a color folder).Keeps w := by
  have hempty : a.inputs.isEmpty = false := by
    cases hinputs : a.inputs with
    | cons input inputs => rfl
    | nil => simp [hinputs, findTaken] at h
  refine (keeps_loadSettings a folder w).bind fun settings w' hload => ?_
  obtain rfl := loadSettings_gives hload
  rw [hclient, hempty]
  exact (keeps_processInputs h).bind fun outcome _ _ => (keeps_reportSummary outcome _).bind fun _ _ _ => rfl

/-! ### Whole runs -/

/-- The outputs of the scripts that are found are made of names, of one at least.  If none is refused,
they go to files of their own, which are below the output folder.  If one is refused, or if an input
is missing, a run leaves the disk as it is. -/
theorem outputs_contained (hdisk : w.disk.WellFormed) (hfolder : w.disk.isFolder folder = true) :
    (∀ (inputs : List Path) (found : List (List Source)) (w' : World),
      (inputs.mapM (findSources folder)).Gives w found w' →
        (∀ s ∈ found.flatten, ∃ names : List String, names ≠ [] ∧
          s.output.components = names.map .name) ∧
        (findTaken [] found.flatten = none → ∀ (outDir : Path) (dumpTree : Bool),
          found.flatten.Pairwise (fun s s' => (s.output.outputIn outDir dumpTree).components ≠
            (s'.output.outputIn outDir dumpTree).components) ∧
          PlacesApart dumpTree outDir found.flatten ∧
          ∀ s ∈ found.flatten, ∃ names : List String, names ≠ [] ∧
            (s.output.outputIn outDir dumpTree).components =
              outDir.components ++ names.map .name)) ∧
      ∀ (a : Arguments) (color : Bool), a.emitClient = none →
        ((∃ p ∈ a.inputs, ¬ w.Holds (folder.join p)) ∨
          ∃ found w', (a.inputs.mapM (findSources folder)).Gives w found w' ∧
            findTaken [] found.flatten ≠ none) →
        (runIn a color folder w).2.disk = w.disk := by
  refine ⟨fun inputs found w' hfound => ?_, fun a color hclient h => ?_⟩
  · have hholds := holds_of_findAll hfound
    obtain ⟨rfl, rfl⟩ := (findAll_gives_sources hholds).unique hfound
    have hnames : ∀ s ∈ (inputs.map (w'.sources folder)).flatten, ∃ names : List String,
        names ≠ [] ∧ s.output.components = names.map .name := by
      intro s hs
      rw [← List.flatMap_def] at hs
      obtain ⟨input, hinput, hs⟩ := List.mem_flatMap.1 hs
      exact exists_names_of_mem_sources hdisk hfolder (hholds input hinput) hs
    have hdown : ∀ s ∈ (inputs.map (w'.sources folder)).flatten, s.output.isDescending = true :=
      fun s hs => isDescending_iff.2 ((hnames s hs).imp fun _ => And.right)
    refine ⟨hnames, fun hfree outDir dumpTree => ?_⟩
    have hapart : PlacesApart dumpTree outDir _ := placesApart_of_findTaken hdown hfree
    refine ⟨?_, hapart, fun s hs => ?_⟩
    · refine hapart.imp fun hne heq => hne ?_
      rw [destination_eq, destination_eq, heq]
    · obtain ⟨front, hne, hfront⟩ := hnames s hs
      obtain ⟨names, hending, htarget⟩ := exists_components_outputIn (hdown s hs) outDir dumpTree
      refine ⟨names, fun hempty => ?_, htarget⟩
      refine withEnding_ne_nil (hdown s hs) (by simp [hfront, hne]) dumpTree ?_
      rw [hending, hempty]
      rfl
  · refine keeps_run hclient (h.imp id fun ⟨found, w', hfound, htaken⟩ => ?_)
    obtain ⟨rfl, -⟩ := (findAll_gives_sources (holds_of_findAll hfound)).unique hfound
    rwa [List.flatMap_def]

/-- The working folder `/w` with a script in it and one of the same name in a folder. -/
def sameNames : World :=
  { disk :=
      { folders := [["w"], ["w", "in"]]
        files := [(["w", "x.js"], .text "var a;"), (["w", "in", "x.js"], .text "var b;")] } }

/-- The scripts by their paths from the working folder have outputs of their own; by a path that
leads out of it, the second one has the output of the first. -/
theorem outputs_contained_sameNames :
    PlacesApart true ⟨"/w/out"⟩ ([⟨"x.js"⟩, ⟨"in/x.js"⟩].flatMap (sameNames.sources ⟨"/w"⟩)) ∧
      (runIn { inputs := [⟨"x.js"⟩, ⟨"../w/in/x.js"⟩], outDir := some ⟨"out"⟩ } false ⟨"/w"⟩
        sameNames).2.disk = sameNames.disk := by
  obtain ⟨hfound, hrun⟩ := @outputs_contained ⟨"/w"⟩ sameNames ⟨by decide, by decide⟩
    (by decide)
  have hapart : ∀ p ∈ [Path.mk "x.js", ⟨"in/x.js"⟩], sameNames.Holds (Path.join ⟨"/w"⟩ p) := by
    unfold World.Holds
    decide
  have htaken : ∀ p ∈ [Path.mk "x.js", ⟨"../w/in/x.js"⟩], sameNames.Holds (Path.join ⟨"/w"⟩ p) := by
    unfold World.Holds
    decide
  refine ⟨?_, hrun _ false rfl (.inr ⟨_, _, findAll_gives_sources htaken, by decide⟩)⟩
  exact ((hfound _ _ _ (findAll_gives_sources hapart)).2 (by decide) ⟨"/w/out"⟩ true).2.1

end BindingProxy
