import BindingProxy.Proofs.Files.Places

/-!
# Outputs under an output folder

The scripts of a run are processed one after another: each is read when its turn comes, and its
output is written at once.  Outputs have places of their own, so none is lost to a later one.  But an
output may be written over a script whose turn is still to come, and then it is this output that is
instrumented in its place.  That is the only way in which outputs depend on each other.
-/

namespace BindingProxy

/-- The files below the folder at a path, as lists of names seen from it. -/
def Disk.filesFrom (d : Disk) (p : Path) : List Place :=
  match d.place p with
  | .ok q => d.filesBelow q
  | .error _ => []

/-- The path that names lead to from a path. -/
def Path.descend (p : Path) (names : Place) : Path := names.foldl (fun p name => p.join ⟨name⟩) p

/-! ### Running in a world -/

/-- In the world `w`, `x` gives `a` and leaves the world `w'`. -/
def RunM.Gives {α : Type} (x : RunM (StateM World) α) (w : World) (a : α) (w' : World) : Prop :=
  x.run.run w = (.ok a, w')

namespace RunM.Gives

variable {α β : Type} {x : RunM (StateM World) α} {f : α → RunM (StateM World) β}
  {w between w' : World}

lemma exists_of_bind {b : β} (h : Gives (x >>= f) w b w') :
    ∃ a between, Gives x w a between ∧ Gives (f a) between b w' := by
  unfold Gives at h
  rw [ExceptT.run_bind, StateT.run_bind] at h
  rcases hx : x.run.run w with ⟨r, between⟩
  rw [hx] at h
  cases r with
  | ok a => exact ⟨a, between, hx, h⟩
  | error e => cases h

lemma of_pure {a b : α} (h : Gives (pure a) w b w') : b = a ∧ w' = w := by
  cases h
  exact ⟨rfl, rfl⟩

lemma of_lift {y : StateM World α} {a : α} (h : Gives (liftM y) w a w') : y.run w = (a, w') := by
  unfold Gives at h
  cases h
  rfl

lemma of_complain {message : String}
    (h : Gives (liftM (Host.complain (m := StateM World) message)) w () w') : w'.disk = w.disk := by
  cases h
  rfl

lemma unique {a b : α} (h : Gives x w a between) (h' : Gives x w b w') : b = a ∧ w' = between := by
  unfold Gives at h h'
  rw [h] at h'
  cases h'
  exact ⟨rfl, rfl⟩

lemma bind {a : α} {b : β} (hx : Gives x w a between) (hf : Gives (f a) between b w') :
    Gives (x >>= f) w b w' := by
  unfold Gives at hx hf ⊢
  rw [ExceptT.run_bind, StateT.run_bind, hx]
  exact hf

lemma pure {a : α} : Gives (Pure.pure a) w a w := rfl

lemma isFile (p : Path) : Gives (liftM (Host.isFile (m := StateM World) p)) w (w.disk.isFile p) w := rfl

lemma isFolder (p : Path) :
    Gives (liftM (Host.isFolder (m := StateM World) p)) w (w.disk.isFolder p) w := rfl

lemma read (p : Path) : Gives (liftM (Host.read (m := StateM World) p)) w
    (World.readText (w.disk.read? p)) w := rfl

lemma complain (message : String) : Gives (liftM (Host.complain (m := StateM World) message)) w ()
    { w with errors := w.errors ++ message } := rfl

lemma filesBelow (p : Path) : Gives (liftM (Host.filesBelow (m := StateM World) p)) w
    (w.disk.filesFrom p) w := by
  have hrun : (Host.filesBelow (m := StateM World) p).run w = (w.disk.filesFrom p, w) := by
    simp only [Host.filesBelow, Disk.filesFrom, StateT.run_bind, StateT.run_get, pure_bind]
    cases w.disk.place p <;> rfl
  change (fun found : List Place × World => (Except.ok found.1, found.2))
    ((Host.filesBelow (m := StateM World) p).run w) = _
  rw [hrun]

lemma print (text : String) : Gives (liftM (Host.print (m := StateM World) text)) w ()
    { w with output := w.output ++ text } := rfl

end RunM.Gives

open RunM

variable {a : Arguments} {r : ResolvedOptions} {color : Bool} {folder outDir : Path}
  {w w' : World}

/-! ### One script -/

lemma update_run {change : Disk → Except Obstacle Disk} {done : Bool}
    (h : (World.update change).run w = (done, w')) (hdone : done = true) :
    change w.disk = .ok w'.disk := by
  subst hdone
  rw [World.update, StateT.run_bind, StateT.run_get] at h
  simp only [pure_bind] at h
  cases hchange : change w.disk with
  | ok disk =>
    rw [hchange] at h
    cases h
    rfl
  | error obstacle =>
    rw [hchange] at h
    cases h

lemma addsFolders_of_createParent {path : Path} (h : (createParent path).Gives w () w') :
    w.disk.AddsFolders w'.disk := by
  unfold createParent at h
  split at h
  · obtain ⟨_, rfl⟩ := Gives.of_pure h
    exact .refl _
  · next parent hparent =>
    obtain ⟨done, between, hcreate, h⟩ := Gives.exists_of_bind h
    cases done with
    | false => cases h
    | true =>
      obtain ⟨_, rfl⟩ := Gives.of_pure h
      exact Disk.addsFolders_of_createFolders (update_run (Gives.of_lift hcreate) rfl)

lemma exists_of_writeOutput {path : Path} {text : String}
    (h : (writeOutput path text).Gives w () w') :
    ∃ between q, w.disk.AddsFolders between ∧ between.place path = .ok q ∧
      w'.disk = between.setFile q (.text text) := by
  obtain ⟨_, between, hparent, h⟩ := Gives.exists_of_bind h
  obtain ⟨done, after, hwrite, h⟩ := Gives.exists_of_bind h
  cases done with
  | false => cases h
  | true =>
    obtain ⟨_, rfl⟩ := Gives.of_pure h
    obtain ⟨q, hq, hdisk⟩ := Disk.eq_setFile_of_write (update_run (Gives.of_lift hwrite) rfl)
    exact ⟨between.disk, q, addsFolders_of_createParent hparent, hq, hdisk⟩

lemma World.eq_text_of_readText {content : Option Content} {text : String}
    (h : World.readText content = .ok text) : content = some (.text text) := by
  unfold World.readText at h
  split at h
  · cases h
    rfl
  · cases h
  · cases h

/-- A text is instrumented without any change to the disk. -/
lemma instrumentOrReport_gives {o : Options} {dumpTree : Bool} {label text : String}
    {result : Option String}
    (h : (instrumentOrReport o dumpTree color label text).Gives w result w') :
    w'.disk = w.disk ∧
      ∀ output, o.outputText dumpTree text = .ok output ↔ result = some output := by
  unfold instrumentOrReport at h
  split at h
  · next output houtput =>
    obtain ⟨rfl, rfl⟩ := Gives.of_pure h
    refine ⟨rfl, fun other => ?_⟩
    simp [houtput]
  · next e hrefused =>
    obtain ⟨_, between, hcomplain, h⟩ := Gives.exists_of_bind h
    obtain ⟨rfl, rfl⟩ := Gives.of_pure h
    refine ⟨Gives.of_complain hcomplain, fun other => ?_⟩
    simp [hrefused]
  · cases h
  · cases h

/-- What processing a script does to a disk: without an output nothing, and else the output is
written, for which folders may have been added. -/
inductive Processes (o : Options) (dumpTree : Bool) (outDir : Path) (s : Source) (d : Disk) :
    Disk → Prop
  | kept (h : ∀ text output, d.read? s.path = some (.text text) →
      o.outputText dumpTree text ≠ .ok output) : Processes o dumpTree outDir s d d
  | written {text output : String} {between : Disk} {q : Place}
      (hread : d.read? s.path = some (.text text)) (houtput : o.outputText dumpTree text = .ok output)
      (hadds : d.AddsFolders between)
      (hplace : between.place (s.output.outputIn outDir dumpTree) = .ok q) :
      Processes o dumpTree outDir s d (between.setFile q (.text output))

lemma processes_of_processSource {s : Source} {outcome outcome' : Outcome}
    (hdir : r.outDir = some outDir)
    (h : (processSource a r color folder outcome s).Gives w outcome' w') :
    Processes r.options a.dumpTree outDir s w.disk w'.disk := by
  unfold processSource at h
  obtain ⟨content, between, hread, hrest⟩ := Gives.exists_of_bind h
  obtain ⟨hcontent, rfl⟩ := (Gives.read _).unique hread
  cases content with
  | error reason =>
    obtain ⟨_, last, hcomplain, hlast⟩ := Gives.exists_of_bind hrest
    obtain ⟨_, rfl⟩ := Gives.of_pure hlast
    rw [Gives.of_complain hcomplain]
    refine .kept fun text output htext => ?_
    rw [htext] at hcontent
    cases hcontent
  | ok text =>
    have htext := World.eq_text_of_readText hcontent.symm
    obtain ⟨result, last, hinstrument, hlast⟩ := Gives.exists_of_bind hrest
    obtain ⟨hdisk, hresult⟩ := instrumentOrReport_gives hinstrument
    cases result with
    | none =>
      obtain ⟨_, rfl⟩ := Gives.of_pure hlast
      rw [hdisk]
      refine .kept fun other output hother houtput => ?_
      rw [htext] at hother
      cases hother
      cases (hresult output).1 houtput
    | some output =>
      simp only [hdir] at hlast
      obtain ⟨_, after, hwrite, hpure⟩ := Gives.exists_of_bind hlast
      obtain ⟨_, rfl⟩ := Gives.of_pure hpure
      obtain ⟨added, q, hadds, hq, hafter⟩ := exists_of_writeOutput hwrite
      rw [hafter]
      rw [hdisk] at hadds
      exact .written htext ((hresult output).2 rfl) hadds hq

/-! ### One script after another -/

/-- What processing scripts one after another does to a disk. -/
inductive ProcessesAll (o : Options) (dumpTree : Bool) (outDir : Path) :
    List Source → Disk → Disk → Prop
  | nil {d : Disk} : ProcessesAll o dumpTree outDir [] d d
  | cons {s : Source} {sources : List Source} {d between d' : Disk}
      (hstep : Processes o dumpTree outDir s d between)
      (hrest : ProcessesAll o dumpTree outDir sources between d') :
      ProcessesAll o dumpTree outDir (s :: sources) d d'

lemma processesAll_of_foldlM {sources : List Source} {outcome outcome' : Outcome}
    (hdir : r.outDir = some outDir)
    (h : (sources.foldlM (processSource a r color folder) outcome).Gives w outcome' w') :
    ProcessesAll r.options a.dumpTree outDir sources w.disk w'.disk := by
  induction sources generalizing outcome w with
  | nil =>
    obtain ⟨_, rfl⟩ := Gives.of_pure h
    exact .nil
  | cons s sources ih =>
    rw [List.foldlM_cons] at h
    obtain ⟨next, between, hstep, h⟩ := Gives.exists_of_bind h
    exact .cons (processes_of_processSource hdir hstep) (ih h)

section

variable {o : Options} {dumpTree : Bool} {s : Source} {sources before after : List Source}
  {d d' : Disk} {q : Place}

lemma Disk.extends_setFile (content : Content) : d.Extends (d.setFile q content) := fun _ h => h

lemma Processes.extends_ (h : Processes o dumpTree outDir s d d') : d.Extends d' := by
  cases h with
  | kept _ => exact .refl d
  | written _ _ hadds _ => exact hadds.extends_.trans (Disk.extends_setFile _)

/-- A script changes at most the file at the place of its output. -/
lemma Processes.content? (h : Processes o dumpTree outDir s d d') (q : Place) :
    d'.content? q = d.content? q ∨
      ∃ output, d'.place (s.output.outputIn outDir dumpTree) = .ok q ∧
        d'.content? q = some (.text output) := by
  cases h with
  | kept _ => exact .inl rfl
  | @written _ output between target _ _ hadds hplace =>
    by_cases hq : q = target
    · refine .inr ⟨output, ?_, ?_⟩
      · rw [hq]
        exact (Disk.extends_setFile _).place hplace
      · rw [hq, Disk.content?_setFile_self]
    · refine .inl ?_
      rw [Disk.content?_setFile_of_ne hq, Disk.content?, hadds.files_eq, Disk.content?]

/-- A script that has an output leaves it at its place. -/
lemma Processes.read?_output (h : Processes o dumpTree outDir s d d') {text output : String}
    (hread : d.read? s.path = some (.text text)) (houtput : o.outputText dumpTree text = .ok output) :
    ∃ q, d'.place (s.output.outputIn outDir dumpTree) = .ok q ∧
      d'.content? q = some (.text output) := by
  cases h with
  | kept hnone => exact absurd houtput (hnone text output hread)
  | @written other _ _ q hother hresult _ hplace =>
    rw [hread] at hother
    cases hother
    rw [houtput] at hresult
    cases hresult
    exact ⟨q, (Disk.extends_setFile _).place hplace, Disk.content?_setFile_self _⟩

lemma ProcessesAll.extends_ (h : ProcessesAll o dumpTree outDir sources d d') : d.Extends d' := by
  induction h with
  | nil => exact .refl _
  | cons hstep _ ih => exact hstep.extends_.trans ih

/-- Scripts change at most the files at the places of their outputs. -/
lemma ProcessesAll.content? (h : ProcessesAll o dumpTree outDir sources d d') (q : Place) :
    d'.content? q = d.content? q ∨
      ∃ s ∈ sources, ∃ output, d'.place (s.output.outputIn outDir dumpTree) = .ok q ∧
        d'.content? q = some (.text output) := by
  induction h with
  | nil => exact .inl rfl
  | cons hstep hrest ih =>
    rcases ih with hkeep | ⟨s, hs, output, hplace, hcontent⟩
    · rw [hkeep]
      refine (hstep.content? q).imp id fun ⟨output, hplace, hcontent⟩ => ?_
      exact ⟨_, List.mem_cons_self, output, hrest.extends_.place hplace, hcontent⟩
    · exact .inr ⟨s, List.mem_cons_of_mem _ hs, output, hplace, hcontent⟩

/-- What is at a place stays there while no output goes to it. -/
lemma ProcessesAll.content?_eq (h : ProcessesAll o dumpTree outDir sources d d')
    (hne : ∀ s ∈ sources, (s.output.outputIn outDir dumpTree).destination ≠ q) :
    d'.content? q = d.content? q := by
  refine (h.content? q).resolve_right fun ⟨s, hs, _, hplace, _⟩ => ?_
  exact hne s hs (Disk.place_eq_ok hplace).symm

lemma ProcessesAll.exists_of_append (h : ProcessesAll o dumpTree outDir (before ++ s :: after) d d') :
    ∃ d1 d2, ProcessesAll o dumpTree outDir before d d1 ∧ Processes o dumpTree outDir s d1 d2 ∧
      ProcessesAll o dumpTree outDir after d2 d' := by
  induction before generalizing d with
  | nil =>
    cases h with
    | cons hstep hrest => exact ⟨_, _, .nil, hstep, hrest⟩
  | cons first before ih =>
    cases h with
    | cons hstep hrest =>
      obtain ⟨d1, d2, hbefore, hs, hafter⟩ := ih hrest
      exact ⟨d1, d2, .cons hstep hbefore, hs, hafter⟩

/-- The outputs of scripts have places of their own. -/
def PlacesApart (dumpTree : Bool) (outDir : Path) (sources : List Source) : Prop :=
  sources.Pairwise fun s s' => (s.output.outputIn outDir dumpTree).destination ≠
    (s'.output.outputIn outDir dumpTree).destination

/-- The output of a script is that of its text when the run starts.  Else an earlier output was
written over the script, and it is the output of that text. -/
theorem ProcessesAll.read?_output
    (h : ProcessesAll o dumpTree outDir (before ++ s :: after) d d')
    (hapart : PlacesApart dumpTree outDir (before ++ s :: after)) {text output : String}
    (hread : d.read? s.path = some (.text text)) (houtput : o.outputText dumpTree text = .ok output) :
    d'.read? (s.output.outputIn outDir dumpTree) = some (.text output) ∨
      ∃ earlier ∈ before, ∃ written,
        d'.place (earlier.output.outputIn outDir dumpTree) = d.place s.path ∧
        d'.read? (earlier.output.outputIn outDir dumpTree) = some (.text written) ∧
        ∀ output', o.outputText dumpTree written = .ok output' →
          d'.read? (s.output.outputIn outDir dumpTree) = some (.text output') := by
  obtain ⟨d1, d2, hbefore, hs, hafter⟩ := h.exists_of_append
  obtain ⟨_, hlater, hearlier⟩ := List.pairwise_append.1 hapart
  have hlater := (List.pairwise_cons.1 hlater).1
  -- From its turn on, the output of the script stays as it is.
  have hlast : ∀ {text output : String}, d1.read? s.path = some (.text text) →
      o.outputText dumpTree text = .ok output →
      d'.read? (s.output.outputIn outDir dumpTree) = some (.text output) := by
    intro text output hread houtput
    obtain ⟨q, hplace, hcontent⟩ := hs.read?_output hread houtput
    rw [Disk.read?_of_place (hafter.extends_.place hplace), ← hcontent]
    refine hafter.content?_eq fun other hother => ?_
    rw [Disk.place_eq_ok hplace]
    exact (hlater other hother).symm
  obtain ⟨q, hq⟩ : ∃ q, d.place s.path = .ok q := by
    cases hplace : d.place s.path with
    | ok q => exact ⟨q, rfl⟩
    | error _ =>
      rw [Disk.read?, hplace] at hread
      cases hread
  rw [Disk.read?_of_place hq] at hread
  have hq1 := hbefore.extends_.place hq
  rcases hbefore.content? q with hkeep | ⟨earlier, hmem, written, hplace, hcontent⟩
  · refine .inl (hlast ?_ houtput)
    rw [Disk.read?_of_place hq1, hkeep, hread]
  · have hplace' := hafter.extends_.place (hs.extends_.place hplace)
    refine .inr ⟨earlier, hmem, written, hplace'.trans hq.symm, ?_, fun output' houtput' => ?_⟩
    · have hrest : ProcessesAll o dumpTree outDir (s :: after) d1 d' := .cons hs hafter
      rw [Disk.read?_of_place hplace', ← hcontent]
      refine hrest.content?_eq fun other hother => ?_
      rw [Disk.place_eq_ok hplace]
      exact (hearlier earlier hmem other hother).symm
    · refine hlast ?_ houtput'
      rw [Disk.read?_of_place hq1, hcontent]

lemma pairwise_of_findTaken {taken : List (List PathComponent)} (h : findTaken taken sources = none) :
    (∀ s ∈ sources, s.output.components ∉ taken) ∧
      sources.Pairwise fun s s' => s.output.components ≠ s'.output.components := by
  induction sources generalizing taken with
  | nil => exact ⟨by simp, .nil⟩
  | cons s sources ih =>
    rw [findTaken] at h
    split at h
    · cases h
    · next hfree =>
      obtain ⟨hmem, hpairs⟩ := ih h
      refine ⟨fun other hother => ?_, List.pairwise_cons.2 ⟨fun other hother heq => ?_, hpairs⟩⟩
      · rcases List.mem_cons.1 hother with rfl | hother
        · simpa using hfree
        · exact fun hmember => hmem other hother (List.mem_cons_of_mem _ hmember)
      · exact hmem other hother (heq ▸ List.mem_cons_self)

end

/-! ### The inputs of a run -/

/-- There is a file at a path, and no folder. -/
def World.HoldsFile (w : World) (p : Path) : Prop :=
  w.disk.isFile p = true ∧ w.disk.isFolder p = false

lemma World.HoldsFile.exists_place {p : Path} (h : w.HoldsFile p) :
    ∃ q, w.disk.place p = .ok q ∧ w.disk.hasFolder q = false := by
  obtain ⟨hfile, hfolder⟩ := h
  rw [Disk.isFile] at hfile
  rw [Disk.isFolder] at hfolder
  cases hplace : w.disk.place p with
  | ok q =>
    rw [hplace] at hfolder
    exact ⟨q, rfl, hfolder⟩
  | error _ =>
    rw [hplace] at hfile
    cases hfile

/-- The script that a file input stands for. -/
def fileSource (folder input : Path) : Source :=
  ⟨folder.join input, (folder.join input).outputFrom folder⟩

/-- The script that a file in the folder at a path stands for. -/
def walkedSource (path file : Path) : Source := ⟨file, (file.below? path).getD file⟩

/-- The scripts that an input stands for, if it is there. -/
def World.sources (w : World) (folder input : Path) : List Source :=
  if w.disk.isFolder (folder.join input) then
    (((w.disk.filesFrom (folder.join input)).map (folder.join input).descend).filter (·.isScript)).map
      (walkedSource (folder.join input))
  else [fileSource folder input]

/-- There is a folder or a file at a path. -/
def World.Holds (w : World) (p : Path) : Prop := w.disk.isFolder p = true ∨ w.disk.isFile p = true

lemma findSources_gives_sources {input : Path} (h : w.Holds (folder.join input)) :
    (findSources folder input).Gives w (w.sources folder input) w := by
  refine Gives.bind (.isFolder _) ?_
  unfold World.sources
  cases hfolder : w.disk.isFolder (folder.join input) with
  | true => exact Gives.bind (.filesBelow _) .pure
  | false =>
    refine Gives.bind (.isFile _) ?_
    rw [h.resolve_left (by simp [hfolder])]
    exact .pure

lemma findAll_gives_sources {inputs : List Path} (h : ∀ p ∈ inputs, w.Holds (folder.join p)) :
    (inputs.mapM (findSources folder)).Gives w (inputs.map (w.sources folder)) w := by
  induction inputs with
  | nil => exact .pure
  | cons input inputs ih =>
    rw [List.mapM_cons]
    refine Gives.bind (findSources_gives_sources (h input List.mem_cons_self)) ?_
    exact Gives.bind (ih fun p hp => h p (List.mem_cons_of_mem _ hp)) .pure

lemma sources_of_holdsFile {input : Path} (hfile : w.HoldsFile (folder.join input)) :
    w.sources folder input = [fileSource folder input] := by
  rw [World.sources, hfile.2]
  rfl

lemma isDescending_fileSource {input : Path} (hfile : w.HoldsFile (folder.join input)) :
    (fileSource folder input).output.isDescending = true := by
  obtain ⟨q, hplace, hfolder⟩ := hfile.exists_place
  obtain ⟨name, hname⟩ := Disk.exists_fileName?_of_place hfolder hplace
  exact Path.isDescending_outputFrom hname folder

lemma placesApart_of_findTaken {sources : List Source} {dumpTree : Bool}
    (hdown : ∀ s ∈ sources, s.output.isDescending = true) (h : findTaken [] sources = none) :
    PlacesApart dumpTree outDir sources := by
  refine (pairwise_of_findTaken h).2.imp_of_mem fun hs hs' hne heq => hne ?_
  exact Path.components_eq_of_destination_eq (hdown _ hs) (hdown _ hs') heq

lemma processesAll_of_processInputs {outcome : Outcome} (hdir : r.outDir = some outDir)
    (hfiles : ∀ p ∈ a.inputs, w.HoldsFile (folder.join p))
    (h : (processInputs a r color folder).Gives w outcome w') :
    PlacesApart a.dumpTree outDir (a.inputs.map (fileSource folder)) ∧
      ProcessesAll r.options a.dumpTree outDir (a.inputs.map (fileSource folder)) w.disk w'.disk := by
  unfold processInputs at h
  obtain ⟨found, between, hfind, hrest⟩ := Gives.exists_of_bind h
  obtain ⟨rfl, rfl⟩ := (findAll_gives_sources fun p hp => .inr (hfiles p hp).1).unique hfind
  dsimp only at hrest
  rw [List.map_congr_left fun p hp => sources_of_holdsFile (hfiles p hp), ← List.flatMap_def,
    ← List.map_eq_flatMap, hdir, if_pos Option.isSome_some] at hrest
  split at hrest
  · cases hrest
  · next hfree =>
    refine ⟨placesApart_of_findTaken (fun s hs => ?_) hfree, processesAll_of_foldlM hdir hrest⟩
    obtain ⟨p, hp, rfl⟩ := List.mem_map.1 hs
    exact isDescending_fileSource (hfiles p hp)

lemma loadSettingsAt_gives {path : Path} {settings : Settings}
    (h : (loadSettingsAt path).Gives w settings w') : w' = w := by
  unfold loadSettingsAt at h
  obtain ⟨content, between, hread, hrest⟩ := Gives.exists_of_bind h
  obtain ⟨_, rfl⟩ := (Gives.read _).unique hread
  split at hrest
  · cases hrest
  split at hrest
  · cases hrest
  · exact (Gives.of_pure hrest).2

lemma loadSettings_gives {settings : Settings} (h : (loadSettings a folder).Gives w settings w') :
    w' = w := by
  unfold loadSettings at h
  split at h
  · exact loadSettingsAt_gives h
  · obtain ⟨isFile, between, hfile, hrest⟩ := Gives.exists_of_bind h
    obtain ⟨_, rfl⟩ := (Gives.isFile _).unique hfile
    split at hrest
    · exact loadSettingsAt_gives hrest
    · exact (Gives.of_pure hrest).2

lemma disk_of_reportSummary {outcome : Outcome} (h : (reportSummary outcome).Gives w () w') :
    w'.disk = w.disk := by
  unfold reportSummary at h
  split at h
  · exact Gives.of_complain h
  · rw [(Gives.of_pure h).2]

/-- A run with inputs reads the settings and then processes the inputs. -/
lemma exists_of_run {outcome : Outcome} (hclient : a.emitClient = none) (hinputs : a.inputs ≠ [])
    (h : (run a color folder).Gives w outcome w') :
    ∃ settings between, (loadSettings a folder).Gives w settings w ∧
      (processInputs a (a.resolve settings folder) color folder).Gives w outcome between ∧
      w'.disk = between.disk := by
  unfold run at h
  obtain ⟨settings, between, hload, hrest⟩ := Gives.exists_of_bind h
  obtain rfl := loadSettings_gives hload
  have hempty : a.inputs.isEmpty = false := by simpa using hinputs
  dsimp only at hrest
  rw [hclient, hempty] at hrest
  obtain ⟨outcome', between, hprocess, hlast⟩ := Gives.exists_of_bind hrest
  obtain ⟨_, last, hreport, hpure⟩ := Gives.exists_of_bind hlast
  obtain ⟨rfl, rfl⟩ := Gives.of_pure hpure
  exact ⟨settings, between, hload, hprocess, disk_of_reportSummary hreport⟩

/-- Where the output of a file input goes, below the output folder `dir`. -/
def Arguments.outputPath (a : Arguments) (folder dir input : Path) : Path :=
  ((folder.join input).outputFrom folder).outputIn (folder.join dir) a.dumpTree

/-- In a run that succeeds with file inputs and an output folder, the output of an input is that of
its text when the run starts.  The one exception is an input over which the output of an earlier one
is written: its output is then that of this output. -/
theorem outputs_of_runIn {a : Arguments} {color : Bool} {folder dir input : Path} {w w' : World}
    {outcome : Outcome} {before after : List Path}
    (hrun : runIn a color folder w = (.ok outcome, w')) (hdir : a.outDir = some dir)
    (hclient : a.emitClient = none) (hfiles : ∀ p ∈ a.inputs, w.HoldsFile (folder.join p))
    (hinputs : a.inputs = before ++ input :: after) :
    ∃ settings, (loadSettings a folder).Gives w settings w ∧
      ∀ text output, w.disk.read? (folder.join input) = some (.text text) →
        (a.resolve settings folder).options.outputText a.dumpTree text = .ok output →
        w'.disk.read? (a.outputPath folder dir input) = some (.text output) ∨
          ∃ earlier ∈ before, ∃ written,
            w'.disk.place (a.outputPath folder dir earlier) = w.disk.place (folder.join input) ∧
            w'.disk.read? (a.outputPath folder dir earlier) = some (.text written) ∧
            ∀ output', (a.resolve settings folder).options.outputText a.dumpTree written = .ok output' →
              w'.disk.read? (a.outputPath folder dir input) = some (.text output') := by
  have hsome : a.inputs ≠ [] := by simp [hinputs]
  obtain ⟨settings, between, hload, hprocess, hdisk⟩ := exists_of_run hclient hsome hrun
  have hresolved : (a.resolve settings folder).outDir = some (folder.join dir) := by
    simp [Arguments.resolve, hdir]
  obtain ⟨hapart, hall⟩ := processesAll_of_processInputs hresolved hfiles hprocess
  rw [hinputs, List.map_append, List.map_cons] at hapart hall
  refine ⟨settings, hload, fun text output hread houtput => ?_⟩
  rw [hdisk]
  refine (hall.read?_output hapart hread houtput).imp id fun ⟨s, hs, hwritten⟩ => ?_
  obtain ⟨earlier, hearlier, rfl⟩ := List.mem_map.1 hs
  exact ⟨earlier, hearlier, hwritten⟩

/-- The working folder `/w` with two scripts, one of them where the output of the other goes. -/
def twoScripts : World :=
  { disk :=
      { folders := [["w"], ["w", "out"]]
        files := [(["w", "x.js"], .text "var a;"), (["w", "out", "x.js"], .text "var b;")] } }

lemma settings_eq_of_gives {settings : Settings} (hfile : a.settingsFile = none)
    (hnone : w.disk.isFile (folder.join ⟨Settings.fileName⟩) = false)
    (h : (loadSettings a folder).Gives w settings w') : settings = {} := by
  unfold loadSettings at h
  rw [hfile] at h
  obtain ⟨isFile, between, hisFile, hrest⟩ := Gives.exists_of_bind h
  obtain ⟨rfl, rfl⟩ := (Gives.isFile _).unique hisFile
  rw [if_neg (by simp [hnone])] at hrest
  exact (Gives.of_pure hrest).1

/-- Both scripts as inputs, the one in the output folder first. -/
def innerFirst : Arguments := { inputs := [⟨"out/x.js"⟩, ⟨"x.js"⟩], outDir := some ⟨"out"⟩ }

/-- Both scripts as inputs, the one in the output folder last. -/
def innerLast : Arguments := { inputs := [⟨"x.js"⟩, ⟨"out/x.js"⟩], outDir := some ⟨"out"⟩ }

theorem outputs_of_runIn_innerFirst :
    (runIn innerFirst false ⟨"/w"⟩ twoScripts).1 = .ok ⟨2, 0⟩ ∧
      (∀ p ∈ innerFirst.inputs, twoScripts.HoldsFile (Path.join ⟨"/w"⟩ p)) ∧
      (runIn innerFirst false ⟨"/w"⟩ twoScripts).2.disk.read?
        (innerFirst.outputPath ⟨"/w"⟩ ⟨"out"⟩ ⟨"x.js"⟩) =
          some (.text "var a = new Proxy.Variable();\n") := by
  have hrun : (runIn innerFirst false ⟨"/w"⟩ twoScripts).1 = .ok ⟨2, 0⟩ := by decide +kernel
  have hfiles : ∀ p ∈ innerFirst.inputs, twoScripts.HoldsFile (Path.join ⟨"/w"⟩ p) := by
    unfold World.HoldsFile
    decide
  refine ⟨hrun, hfiles, ?_⟩
  have hpair : runIn innerFirst false ⟨"/w"⟩ twoScripts =
      (.ok ⟨2, 0⟩, (runIn innerFirst false ⟨"/w"⟩ twoScripts).2) := by rw [← hrun]
  obtain ⟨settings, hload, houtput⟩ := outputs_of_runIn hpair rfl rfl hfiles
    (show innerFirst.inputs = [⟨"out/x.js"⟩] ++ ⟨"x.js"⟩ :: [] from rfl)
  obtain rfl := settings_eq_of_gives rfl (by decide) hload
  refine (houtput "var a;" "var a = new Proxy.Variable();\n" (by decide)
    (by decide +kernel)).resolve_right ?_
  rintro ⟨earlier, hearlier, written, hplace, -⟩
  rw [List.mem_singleton] at hearlier
  subst hearlier
  exact absurd hplace (by decide +kernel)

/-- The script in the output folder is instrumented as the other one has left it. -/
theorem output_not_of_first_text :
    (runIn innerLast false ⟨"/w"⟩ twoScripts).1 = .ok ⟨2, 0⟩ ∧
      (∀ p ∈ innerLast.inputs, twoScripts.disk.isFile (Path.join ⟨"/w"⟩ p) = true) ∧
      twoScripts.disk.read? ⟨"/w/out/x.js"⟩ = some (.text "var b;") ∧
      (innerLast.resolve {} ⟨"/w"⟩).options.outputText false "var b;" =
        .ok "var b = new Proxy.Variable();\n" ∧
      (runIn innerLast false ⟨"/w"⟩ twoScripts).2.disk.read?
        (innerLast.outputPath ⟨"/w"⟩ ⟨"out"⟩ ⟨"out/x.js"⟩) =
          some (.text "var a = new Proxy.Variable(new Proxy.Variable());\n") := by
  decide +kernel

end BindingProxy
