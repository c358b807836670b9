import BindingProxy.Command.Client
import BindingProxy.Command.Host
import BindingProxy.Command.Report
import BindingProxy.Command.Settings
import BindingProxy.Json.Writer
import BindingProxy.Tree.Format

/-!
# The command

Inputs are files and folders; a folder stands for the scripts below it.  A script that cannot be
read or parsed is reported, and the run goes on with the others.  Under an output folder a file
keeps its path from the working folder, and the scripts of a folder keep their paths below it; two
scripts with the same output are refused before anything is written.
-/

namespace BindingProxy

/-- Why a run stops. -/
inductive RunError where
  | settingsUnreadable (path : Path)
  | settingsInvalid (path : Path)
  | folderNotCreated (path : Path)
  | clientNotWritten (path : Path)
  | outputNotWritten (path : Path)
  | standardInputUnreadable
  | inputMissing (input : Path)
  | outputTaken (path output : Path)
  /-- A script holds a token that cannot be read. -/
  | unreadableToken
  /-- The reading of a script did not come to an end. -/
  | stalled
deriving Repr, DecidableEq, Inhabited

/-- What lies behind an error. -/
inductive ErrorCause where
  | system | json
deriving Repr, DecidableEq, Inhabited

namespace RunError

/-- The messages of an error, from the outermost one inwards. -/
def messages : RunError → List String
  | settingsUnreadable path => ["failed to read config: " ++ path.text]
  | settingsInvalid path => ["invalid config: " ++ path.text, Settings.faultMessage]
  | folderNotCreated path => ["failed to create " ++ path.text]
  | clientNotWritten path => ["failed to write runtime: " ++ path.text]
  | outputNotWritten path => ["failed to write " ++ path.text]
  | standardInputUnreadable => ["failed to read stdin"]
  | inputMissing input => ["input not found: " ++ input.text]
  | outputTaken path output => [path.text ++ " would overwrite another output at " ++ output.text]
  | unreadableToken => ["a token ends inside a character"]
  | stalled => ["the parser did not come to an end"]

/-- What lies behind an error, if it comes from outside the command. -/
def cause? : RunError → Option ErrorCause
  | settingsUnreadable _ | folderNotCreated _ | clientNotWritten _ | outputNotWritten _
  | standardInputUnreadable => some .system
  | settingsInvalid _ => some .json
  | inputMissing _ | outputTaken _ _ | unreadableToken | stalled => none

end RunError

/-- How many scripts were processed, and how many of them could not be read or parsed. -/
structure Outcome where
  processed : Nat := 0
  failed : Nat := 0
deriving Repr, DecidableEq, Inhabited

/-- A script to instrument and the path of its output below the output folder. -/
structure Source where
  path : Path
  output : Path
deriving Repr, DecidableEq, Inhabited

/-! ### Names of files -/

/-- A file is a script by its extension. -/
def Path.isScript (p : Path) : Bool :=
  match p.extension? with
  | some extension => ["js", "mjs", "cjs"].contains extension
  | none => false

/-- The output of a file input: its path from the working folder, or only its name if it lies
elsewhere. -/
def Path.outputFrom (p folder : Path) : Path :=
  match p.below? folder with
  | some below => if below.isDescending then below else (p.fileName?.map Path.mk).getD p
  | none => (p.fileName?.map Path.mk).getD p

/-- How a script is called in reports: by its path from the working folder. -/
def Path.label (p folder : Path) : String := ((p.below? folder).getD p).text

/-- Where an output goes; the dump of a tree is a JSON file. -/
def Path.outputIn (output folder : Path) (dumpTree : Bool) : Path :=
  let target := folder.join output
  if dumpTree then ⟨target.text ++ ".json"⟩ else target

/-- The first source whose output is also that of an earlier one.  `taken` holds the outputs of the
earlier ones by their components. -/
def findTaken : List (List PathComponent) → List Source → Option Source
  | _, [] => none
  | taken, s :: sources =>
    if taken.contains s.output.components then some s
    else findTaken (s.output.components :: taken) sources

/-! ### Instrumenting a text -/

/-- What comes of a text: the instrumented script or the dump of its tree, or why there is none. -/
def Options.outputText (o : Options) (dumpTree : Bool) (text : String) :
    Except ParseFailure String :=
  if dumpTree then
    (parse text).map fun program => (o.instrumentTree program).1.toJson.pretty ++ "\n"
  else (o.instrument text).map (·.1)

/-! ### Running -/

variable {m : Type → Type} [Monad m] [Host m]

/-- The operations of a run, which an error stops. -/
abbrev RunM (m : Type → Type) := ExceptT RunError m

/-- Reads the settings file at a path. -/
def loadSettingsAt (path : Path) : RunM m Settings := do
  match ← Host.read (m := m) path with
  | .error _ => throw (.settingsUnreadable path)
  | .ok text =>
    match Settings.ofText? text with
    | none => throw (.settingsInvalid path)
    | some settings => return settings.relativeTo path

/-- Reads the settings file that the arguments name, or the one in the working folder if there is
one. -/
def loadSettings (a : Arguments) (folder : Path) : RunM m Settings := do
  match a.settingsFile with
  | some path => loadSettingsAt (folder.join path)
  | none =>
    let path := folder.join ⟨Settings.fileName⟩
    if ← Host.isFile (m := m) path then loadSettingsAt path else return {}

/-- Creates the folder around a path. -/
def createParent (path : Path) : RunM m Unit := do
  match path.parent? with
  | none => return
  | some parent =>
    if !(← Host.createFolders (m := m) parent) then throw (.folderNotCreated parent)

/-- Writes the client module. -/
def writeClient (path : Path) : RunM m Unit := do
  createParent path
  if !(← Host.write (m := m) path clientSource) then throw (.clientNotWritten path)

/-- Writes an output. -/
def writeOutput (path : Path) (text : String) : RunM m Unit := do
  createParent path
  if !(← Host.write (m := m) path text) then throw (.outputNotWritten path)

/-- The scripts that an input stands for. -/
def findSources (folder input : Path) : RunM m (List Source) := do
  let path := folder.join input
  if ← Host.isFolder (m := m) path then
    let files := (← Host.filesBelow (m := m) path).map fun names =>
      names.foldl (fun p name => p.join ⟨name⟩) path
    return (files.filter (·.isScript)).map fun file => ⟨file, (file.below? path).getD file⟩
  else if ← Host.isFile (m := m) path then
    return [⟨path, path.outputFrom folder⟩]
  else
    throw (.inputMissing input)

/-- Instruments a text.  If it cannot be parsed, that is reported, and there is no result. -/
def instrumentOrReport (o : Options) (dumpTree color : Bool) (label text : String) :
    RunM m (Option String) := do
  match o.outputText dumpTree text with
  | .ok output => return some output
  | .error (.refused e) =>
    Host.complain (m := m) ((e.diagnostic text).report color label text ++ "\n")
    return none
  | .error .unreadable => throw .unreadableToken
  | .error .stalled => throw .stalled

/-- Processes one script. -/
def processSource (a : Arguments) (r : ResolvedOptions) (color : Bool) (folder : Path)
    (outcome : Outcome) (s : Source) : RunM m Outcome := do
  let label := s.path.label folder
  let outcome := { outcome with processed := outcome.processed + 1 }
  let failed := { outcome with failed := outcome.failed + 1 }
  match ← Host.read (m := m) s.path with
  | .error reason =>
    Host.complain (m := m) (fileReport color label ("failed to read file: " ++ reason) ++ "\n")
    return failed
  | .ok text =>
    match ← instrumentOrReport r.options a.dumpTree color label text with
    | none => return failed
    | some output =>
      match r.outDir with
      | some outDir => writeOutput (s.output.outputIn outDir a.dumpTree) output
      | none => Host.print (m := m) output
      return outcome

/-- Processes the script on standard input. -/
def processInput (a : Arguments) (r : ResolvedOptions) (color : Bool) : RunM m Outcome := do
  match ← Host.input (m := m) with
  | none => throw .standardInputUnreadable
  | some text =>
    match ← instrumentOrReport r.options a.dumpTree color "<stdin>" text with
    | none => return ⟨1, 1⟩
    | some output =>
      Host.print (m := m) output
      return ⟨1, 0⟩

/-- Tells how many scripts failed, if any did. -/
def reportSummary (outcome : Outcome) : RunM m Unit := do
  if outcome.failed != 0 then
    let noun := if outcome.failed == 1 then "error" else "errors"
    Host.complain (m := m) ("\nFound " ++ toString outcome.failed ++ " " ++ noun ++ ".\n")

/-- Processes all inputs. -/
def processInputs (a : Arguments) (r : ResolvedOptions) (color : Bool) (folder : Path) :
    RunM m Outcome := do
  let sources := (← a.inputs.mapM (findSources folder)).flatten
  if r.outDir.isSome then
    match findTaken [] sources with
    | some s => throw (.outputTaken s.path s.output)
    | none => pure ()
  sources.foldlM (processSource a r color folder) {}

/-- Runs the command in a working folder. -/
def run (a : Arguments) (color : Bool) (folder : Path) : RunM m Outcome := do
  let settings ← loadSettings a folder
  let r := a.resolve settings folder
  match a.emitClient with
  | some path => writeClient (folder.join path)
  | none => pure ()
  if a.inputs.isEmpty && a.emitClient.isSome then return {}
  let outcome ←
    if a.inputs.isEmpty then processInput a r color
    else processInputs a r color folder
  reportSummary outcome
  return outcome

/-- What a run does to a world: the outcome or the error, and the world after it. -/
def runIn (a : Arguments) (color : Bool) (folder : Path) (w : World) :
    Except RunError Outcome × World :=
  (run (m := StateM World) a color folder).run.run w

end BindingProxy
