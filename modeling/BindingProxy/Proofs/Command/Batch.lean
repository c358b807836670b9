import BindingProxy.Proofs.Command.Outputs
import BindingProxy.Proofs.Grammar.Progress
import Mathlib.Data.List.Forall2

/-!
# Scripts in a batch

Without an output folder the scripts of a run have nothing to do with each other.  Each of them comes
to a result, which is its output or the report of why there is none, and the result depends on the
disk only.  The run prints the outputs and reports in the order of the scripts and counts them.  All
of this needs that every token of the scripts can be read: a token that ends inside a character stops
the whole run.
-/

namespace BindingProxy

open RunM

variable {a : Arguments} {r : ResolvedOptions} {color : Bool} {folder p : Path} {w : World}

/-! ### The result of a script -/

/-- What comes of the script at a path: its output, or the report of why there is none. -/
inductive Path.ComesTo (p : Path) (a : Arguments) (r : ResolvedOptions) (color : Bool)
    (folder : Path) (d : Disk) : Except String String → Prop
  | unreadable {reason : String} (hread : World.readText (d.read? p) = .error reason) :
      ComesTo p a r color folder d
        (.error (fileReport color (p.label folder) ("failed to read file: " ++ reason) ++ "\n"))
  | refused {text : String} {e : SyntaxError} (hread : d.read? p = some (.text text))
      (hparse : parse text = .error (.refused e)) :
      ComesTo p a r color folder d
        (.error ((e.diagnostic text).report color (p.label folder) text ++ "\n"))
  | instrumented {text output : String} (hread : d.read? p = some (.text text))
      (houtput : r.options.outputText a.dumpTree text = .ok output) :
      ComesTo p a r color folder d (.ok output)

/-- No script at a path has a token that cannot be read. -/
def Disk.Readable (d : Disk) (p : Path) : Prop :=
  ∀ text ∈ (World.readText (d.read? p)).toOption, parse text ≠ .error .unreadable

instance (text : String) (failure : ParseFailure) : Decidable (parse text = .error failure) :=
  decidable_of_iff ((parse text).map (fun _ => ()) = .error failure) (by
    cases parse text <;> simp [Except.map])

lemma outputText_of_parse {o : Options} {text : String} {dumpTree : Bool} {failure : ParseFailure}
    (h : parse text = .error failure) : o.outputText dumpTree text = .error failure := by
  unfold Options.outputText Options.instrument
  rw [h]
  cases dumpTree <;> rfl

lemma exists_outputText_of_parse {o : Options} {text : String} {dumpTree : Bool} {tree : Node}
    (h : parse text = .ok tree) : ∃ output, o.outputText dumpTree text = .ok output := by
  unfold Options.outputText Options.instrument
  rw [h]
  cases dumpTree <;> exact ⟨_, rfl⟩

lemma Disk.Readable.exists_comesTo {d : Disk} (h : d.Readable p) :
    ∃ result, p.ComesTo a r color folder d result := by
  cases hread : World.readText (d.read? p) with
  | error reason => exact ⟨_, .unreadable hread⟩
  | ok text =>
    have htext := World.eq_text_of_readText hread
    rcases parse_ends text with ⟨tree, hparse⟩ | ⟨e, hparse⟩ | ⟨hparse, _⟩
    · obtain ⟨output, houtput⟩ := exists_outputText_of_parse hparse
      exact ⟨_, .instrumented htext houtput⟩
    · exact ⟨_, .refused htext hparse⟩
    · exact absurd hparse (h text (by simp [hread, Except.toOption]))

/-! ### One script after another -/

/-- The report in a result. -/
def report? : Except String String → Option String
  | .ok _ => none
  | .error report => some report

/-- A world after results have been printed. -/
def World.add (w : World) (results : List (Except String String)) : World :=
  { w with
    output := w.output ++ String.join (results.filterMap Except.toOption)
    errors := w.errors ++ String.join (results.filterMap report?) }

/-- An outcome after results have been counted. -/
def Outcome.add (outcome : Outcome) (results : List (Except String String)) : Outcome :=
  ⟨outcome.processed + results.length, outcome.failed + (results.filterMap report?).length⟩

@[simp]
lemma World.add_ok (w : World) (output : String) :
    w.add [.ok output] = { w with output := w.output ++ output } := by
  simp [World.add, List.filterMap_cons, report?, Except.toOption]

@[simp]
lemma World.add_error (w : World) (report : String) :
    w.add [.error report] = { w with errors := w.errors ++ report } := by
  simp [World.add, List.filterMap_cons, report?, Except.toOption]

lemma World.add_cons (w : World) (result : Except String String)
    (results : List (Except String String)) : w.add (result :: results) = (w.add [result]).add results := by
  cases result <;>
    simp [World.add, List.filterMap_cons, report?, Except.toOption, String.append_assoc]

lemma Outcome.add_cons (outcome : Outcome) (result : Except String String)
    (results : List (Except String String)) :
    outcome.add (result :: results) = (outcome.add [result]).add results := by
  cases result <;> simp [Outcome.add, List.filterMap_cons, report?] <;> omega

lemma instrumentOrReport_of_output {o : Options} {dumpTree : Bool} {label text output : String}
    (h : o.outputText dumpTree text = .ok output) :
    (instrumentOrReport o dumpTree color label text).Gives w (some output) w := by
  unfold instrumentOrReport
  rw [h]
  exact .pure

lemma instrumentOrReport_of_refused {o : Options} {dumpTree : Bool} {label text : String}
    {e : SyntaxError} (h : parse text = .error (.refused e)) :
    (instrumentOrReport o dumpTree color label text).Gives w none
      { w with errors := w.errors ++ ((e.diagnostic text).report color label text ++ "\n") } := by
  unfold instrumentOrReport
  rw [outputText_of_parse h]
  exact Gives.bind (.complain _) .pure

lemma processSource_gives {s : Source} {outcome : Outcome} {result : Except String String}
    (hdir : r.outDir = none) (h : s.path.ComesTo a r color folder w.disk result) :
    (processSource a r color folder outcome s).Gives w (outcome.add [result]) (w.add [result]) := by
  refine Gives.bind (.read _) ?_
  cases h with
  | unreadable hread =>
    rw [hread, World.add_error]
    exact Gives.bind (.complain _) .pure
  | refused hread hparse =>
    rw [hread, World.add_error]
    exact Gives.bind (instrumentOrReport_of_refused hparse) .pure
  | instrumented hread houtput =>
    rw [hread, World.add_ok]
    refine Gives.bind (instrumentOrReport_of_output houtput) ?_
    simp only [hdir]
    exact Gives.bind (.print _) .pure

/-- The scripts of a run come to their results one after another. -/
lemma foldlM_processSource_gives {sources : List Source} {outcome : Outcome} {d : Disk}
    {results : List (Except String String)} (hdir : r.outDir = none) (hdisk : w.disk = d)
    (h : List.Forall₂ (fun s result => s.path.ComesTo a r color folder d result) sources results) :
    (sources.foldlM (processSource a r color folder) outcome).Gives w (outcome.add results)
      (w.add results) := by
  induction h generalizing w outcome with
  | nil =>
    rw [List.foldlM_nil]
    simpa [World.add, Outcome.add] using Gives.pure
  | cons hresult _ ih =>
    rw [List.foldlM_cons, World.add_cons, Outcome.add_cons]
    exact Gives.bind (processSource_gives hdir (hdisk ▸ hresult)) (ih hdisk)

/-! ### Whole runs -/

/-- The last line of the reports, if there are any. -/
def summary (failed : Nat) : String :=
  if failed = 0 then ""
  else "\nFound " ++ toString failed ++ " " ++ (if failed == 1 then "error" else "errors") ++ ".\n"

lemma reportSummary_gives (outcome : Outcome) : (reportSummary outcome).Gives w ()
    { w with errors := w.errors ++ summary outcome.failed } := by
  unfold reportSummary summary
  by_cases hfailed : outcome.failed = 0
  · rw [if_neg (by simp [hfailed]), if_pos hfailed]
    simpa using Gives.pure
  · rw [if_pos (by simpa using hfailed), if_neg hfailed]
    exact .complain _

/-- A run without an output folder prints the results of its scripts. -/
lemma runIn_of_comesTo {settings : Settings} {found : List (List Source)}
    {results : List (Except String String)}
    (hload : (loadSettings a folder).Gives w settings w)
    (hdir : (a.resolve settings folder).outDir = none) (hclient : a.emitClient = none)
    (hinputs : a.inputs ≠ []) (hfound : (a.inputs.mapM (findSources folder)).Gives w found w)
    (hresults : List.Forall₂ (fun s result =>
      s.path.ComesTo a (a.resolve settings folder) color folder w.disk result) found.flatten results) :
    runIn a color folder w = (.ok (Outcome.add {} results),
      { w.add results with
        errors := (w.add results).errors ++ summary (Outcome.add {} results).failed }) := by
  have hempty : a.inputs.isEmpty = false := by simpa using hinputs
  have hprocess : (processInputs a (a.resolve settings folder) color folder).Gives w
      (Outcome.add {} results) (w.add results) := by
    refine Gives.bind hfound ?_
    rw [hdir]
    exact foldlM_processSource_gives hdir rfl hresults
  refine Gives.bind hload ?_
  rw [hclient, hempty]
  exact Gives.bind hprocess (Gives.bind (reportSummary_gives _) .pure)

/-- A disk as it can be: no file is where a folder is, and what leads to a file are names. -/
structure Disk.WellFormed (d : Disk) : Prop where
  apart : ∀ file ∈ d.files, d.hasFolder file.1 = false
  named : ∀ file ∈ d.files, ∀ name ∈ file.1, Path.isName name = true

lemma Disk.WellFormed.holdsFile (hdisk : w.disk.WellFormed) {content : Content}
    (hread : w.disk.read? p = some content) : w.HoldsFile p := by
  unfold Disk.read? at hread
  split at hread
  · next q hplace =>
    have hmem : (q, content) ∈ w.disk.files := by
      obtain ⟨before, after, hfiles, _⟩ := List.lookup_eq_some_iff.1 hread
      simp [hfiles]
    constructor
    · rw [Disk.isFile, hplace]
      simp [hread]
    · rw [Disk.isFolder, hplace]
      exact hdisk.apart _ hmem
  · cases hread

/-- The working folder `/w` with a script, a text that is none, and a file that holds no text. -/
def mixedScripts : World :=
  { disk :=
      { folders := [["w"], ["w", "in"]]
        files := [(["w", "a.js"], .text "var"), (["w", "in", "b.js"], .text "var b;"),
          (["w", "c.js"], .undecodable)] } }

/-- All of them as inputs. -/
def mixedInputs : Arguments := { inputs := [⟨"a.js"⟩, ⟨"in/b.js"⟩, ⟨"c.js"⟩] }

/-- The working folder `/w` with a script before another one that ends inside a character. -/
def cutScript : World :=
  { disk :=
      { folders := [["w"]]
        files := [(["w", "a.js"], .text "\\u123é"), (["w", "b.js"], .text "var b;")] } }

end BindingProxy
