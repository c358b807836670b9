import BindingProxy.Command.Run

/-!
# The executable

Runs the command on the real disk and the standard streams.
-/

namespace BindingProxy

/-- The bytes of a stream up to its end, after the bytes `found`. -/
partial def readBytes (stream : IO.FS.Stream) (found : ByteArray) : IO ByteArray := do
  let bytes ← stream.read 65536
  if bytes.isEmpty then return found
  readBytes stream (found ++ bytes)

/-- The files below a folder, each folder's entries in the order of their names. -/
partial def listFiles (folder : String) : IO (List Place) := do
  let entries ← ((← IO.currentDir) / folder).readDir
  let sorted := entries.toList.mergeSort fun a b => a.fileName ≤ b.fileName
  let found ← sorted.mapM fun entry => do
    if ← entry.path.isDir then
      return (← listFiles entry.path.toString).map (entry.fileName :: ·)
    return [[entry.fileName]]
  return found.flatten

/-- Whether an action succeeds. -/
def succeeds (action : IO Unit) : IO Bool := do
  try
    action
    return true
  catch _ => return false

instance : Host IO where
  isFile p := do
    let path := (← IO.currentDir) / p.text
    return (← path.pathExists) && !(← path.isDir)
  isFolder p := do ((← IO.currentDir) / p.text).isDir
  filesBelow p := listFiles p.text
  read p := do
    try
      match String.fromUTF8? (← IO.FS.readBinFile p.text) with
      | some text => return .ok text
      | none => return .error "stream did not contain valid UTF-8"
    catch e => return .error e.toString
  createFolders p := succeeds (IO.FS.createDirAll p.text)
  write p text := succeeds (IO.FS.writeFile p.text text)
  input := return String.fromUTF8? (← readBytes (← IO.getStdin) .empty)
  print text := IO.print text
  complain text := IO.eprint text

/-- How to call the command. -/
def usage : String :=
  "Usage: bindingproxy [OPTIONS] [INPUTS]...\n\n" ++
  "  -o, --out-dir <DIR>            Write instrumented files here\n" ++
  "      --client                   Import the proxy types in every output\n" ++
  "      --namespace <NAME>         The name that holds the proxy types\n" ++
  "      --runtime-module <MODULE>  The module of the proxy types\n" ++
  "      --unwrap-call-arguments    Read variables that are arguments of calls\n" ++
  "  -c, --config <FILE>            The settings file\n" ++
  "      --dump-ast                 Print the syntax tree as JSON\n" ++
  "      --emit-runtime <FILE>      Write the module of the proxy types\n" ++
  "      --no-color                 Do not colour reports\n" ++
  "  -h, --help                     Print help\n" ++
  "  -V, --version                  Print version\n"

/-- The wording of a fault in the command line. -/
def ArgumentError.message : ArgumentError → String
  | unknown => "unexpected argument"
  | invalidValue => "a value is required"
  | unneededValue => "unexpected value for an option that takes none"
  | repeated => "an option was given more than once"
  | helpAsked => usage
  | versionAsked => "bindingproxy 0.1.0\n"

end BindingProxy

open BindingProxy in
/-- Runs the command and tells by the exit code whether all scripts could be processed. -/
def main (words : List String) : IO UInt32 := do
  match Arguments.ofWords words with
  | .error .helpAsked =>
    IO.print ArgumentError.helpAsked.message
    return 0
  | .error .versionAsked =>
    IO.print ArgumentError.versionAsked.message
    return 0
  | .error e =>
    IO.eprintln ("error: " ++ e.message)
    return 2
  | .ok a =>
    let color := !a.noColor && (← (← IO.getStderr).isTty)
    let folder := (← IO.currentDir).toString
    match ← (run (m := IO) a color ⟨folder⟩).run with
    | .error e =>
      IO.eprintln ("Error: " ++ ": ".intercalate e.messages)
      return 1
    | .ok outcome => return if outcome.failed == 0 then 0 else 1
