import BindingProxy.Files.Disk

/-!
# Hosts

A host is where the command runs: it has a disk and the standard streams.  The command is written
for any host.  A `World` is a host that is a plain value, so that what a run does can be computed
and reasoned about.
-/

namespace BindingProxy

/-- What the command asks of the place where it runs. -/
class Host (m : Type → Type) where
  isFile : Path → m Bool
  isFolder : Path → m Bool
  /-- The files below a folder, as lists of names seen from it, in the order of a walk. -/
  filesBelow : Path → m (List Place)
  /-- The text of a file, or why it cannot be read. -/
  read : Path → m (Except String String)
  /-- Creates a folder and the folders around it, and tells whether that succeeded. -/
  createFolders : Path → m Bool
  /-- Writes a file, and tells whether that succeeded. -/
  write : Path → String → m Bool
  /-- All of standard input, if it is text. -/
  input : m (Option String)
  /-- Writes to standard output. -/
  print : String → m Unit
  /-- Writes to standard error. -/
  complain : String → m Unit

/-- A host as a value. -/
structure World where
  disk : Disk := {}
  input : Content := .text ""
  output : String := ""
  errors : String := ""
deriving Repr, DecidableEq, Inhabited

namespace World

/-- The content of a file as text. -/
def readText : Option Content → Except String String
  | some (.text s) => .ok s
  | some .undecodable => .error "stream did not contain valid UTF-8"
  | none => .error "No such file or directory"

/-- Takes over a changed disk, if the change succeeded. -/
def update (change : Disk → Except Obstacle Disk) : StateM World Bool := do
  let w ← get
  match change w.disk with
  | .ok disk =>
    set { w with disk }
    return true
  | .error _ => return false

instance : Host (StateM World) where
  isFile p := return (← get).disk.isFile p
  isFolder p := return (← get).disk.isFolder p
  filesBelow p := do
    let disk := (← get).disk
    match disk.place p with
    | .ok place => return disk.filesBelow place
    | .error _ => return []
  read p := return readText ((← get).disk.read? p)
  createFolders p := update (·.createFolders p)
  write p text := update (·.write p text)
  input := do
    match (← get).input with
    | .text s => return some s
    | .undecodable => return none
  print text := modify fun w => { w with output := w.output ++ text }
  complain text := modify fun w => { w with errors := w.errors ++ text }

end World

end BindingProxy
