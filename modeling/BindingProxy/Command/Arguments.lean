import BindingProxy.Files.Path

/-!
# Command-line arguments

A word of the command line is a flag, an option with a value, or an input.  The value of an option
is joined to it (`--out-dir=lib`, `-olib`, `-o=lib`) or is the next word; after `--` all words are
inputs.  What has been read is stored when the next word shows that it is complete, so an unknown
word is noticed before a fault of the words just before it.
-/

namespace BindingProxy

/-- An option without a value. -/
inductive Flag where
  | importClient | readArguments | dumpTree | noColor
deriving Repr, DecidableEq, Inhabited

/-- An option with a value. -/
inductive Setting where
  | outDir | namespaceName | clientModule | settingsFile | emitClient
deriving Repr, DecidableEq, Inhabited

/-- Whether the value of an option is a path, which cannot be empty. -/
def Setting.isPath : Setting → Bool
  | outDir | settingsFile | emitClient => true
  | namespaceName | clientModule => false

/-- What an option is. -/
inductive OptionKind where
  | flag (f : Flag)
  | setting (s : Setting)
  | help
  | version
deriving Repr, DecidableEq, Inhabited

namespace OptionKind

/-- The option with a long name. -/
def ofLongName? : String → Option OptionKind
  | "out-dir" | "outDir" => some (setting .outDir)
  | "client" => some (flag .importClient)
  | "namespace" => some (setting .namespaceName)
  | "runtime-module" | "runtimeModule" => some (setting .clientModule)
  | "unwrap-call-arguments" | "unwrapCallArguments" => some (flag .readArguments)
  | "config" => some (setting .settingsFile)
  | "dump-ast" | "dumpAst" => some (flag .dumpTree)
  | "emit-runtime" | "emitRuntime" => some (setting .emitClient)
  | "no-color" => some (flag .noColor)
  | "help" => some help
  | "version" => some version
  | _ => none

/-- The option with a short name. -/
def ofShortName? : Char → Option OptionKind
  | 'o' => some (setting .outDir)
  | 'c' => some (setting .settingsFile)
  | 'h' => some help
  | 'V' => some version
  | _ => none

end OptionKind

/-- The arguments of the command. -/
structure Arguments where
  /-- Files and folders to instrument; without any, the script is read from standard input. -/
  inputs : List Path := []
  outDir : Option Path := none
  importClient : Bool := false
  namespaceName : Option String := none
  clientModule : Option String := none
  readArguments : Bool := false
  settingsFile : Option Path := none
  dumpTree : Bool := false
  /-- Where the module of the proxy types is to be written. -/
  emitClient : Option Path := none
  noColor : Bool := false
deriving Repr, DecidableEq, Inhabited

/-- Why a command line gives no arguments. -/
inductive ArgumentError where
  | unknown
  /-- A value is missing, or is empty where a path is needed. -/
  | invalidValue
  /-- A flag was given a value. -/
  | unneededValue
  | repeated
  | helpAsked
  | versionAsked
deriving Repr, DecidableEq, Inhabited

namespace Arguments

/-- Stores a flag. -/
def setFlag (a : Arguments) : Flag → Except ArgumentError Arguments
  | .importClient =>
    if a.importClient then .error .repeated else .ok { a with importClient := true }
  | .readArguments =>
    if a.readArguments then .error .repeated else .ok { a with readArguments := true }
  | .dumpTree => if a.dumpTree then .error .repeated else .ok { a with dumpTree := true }
  | .noColor => if a.noColor then .error .repeated else .ok { a with noColor := true }

/-- Whether an option has its value already. -/
def has (a : Arguments) : Setting → Bool
  | .outDir => a.outDir.isSome
  | .namespaceName => a.namespaceName.isSome
  | .clientModule => a.clientModule.isSome
  | .settingsFile => a.settingsFile.isSome
  | .emitClient => a.emitClient.isSome

/-- The arguments with the value of an option. -/
def withSetting (a : Arguments) (value : String) : Setting → Arguments
  | .outDir => { a with outDir := some ⟨value⟩ }
  | .namespaceName => { a with namespaceName := some value }
  | .clientModule => { a with clientModule := some value }
  | .settingsFile => { a with settingsFile := some ⟨value⟩ }
  | .emitClient => { a with emitClient := some ⟨value⟩ }

/-- Stores the value of an option. -/
def set (a : Arguments) (s : Setting) (value : String) : Except ArgumentError Arguments :=
  if a.has s then .error .repeated
  else if s.isPath && value.isEmpty then .error .invalidValue
  else .ok (a.withSetting value s)

/-- Stores inputs. -/
def addInputs (a : Arguments) (words : List String) : Except ArgumentError Arguments :=
  if words.any (·.isEmpty) then .error .invalidValue
  else .ok { a with inputs := a.inputs ++ words.map Path.mk }

end Arguments

/-- What has been read but not stored. -/
inductive Unstored where
  | nothing
  /-- An option whose value has to follow. -/
  | awaiting (s : Setting)
  | value (s : Setting) (value : String)
  | inputs (words : List String)
deriving Repr, DecidableEq, Inhabited

/-- The state of reading a command line. -/
structure ArgumentReader where
  stored : Arguments := {}
  unstored : Unstored := .nothing
  /-- Whether all further words are inputs. -/
  inputsOnly : Bool := false
deriving Repr, DecidableEq, Inhabited

namespace ArgumentReader

/-- The arguments with what has been read. -/
def store (r : ArgumentReader) : Except ArgumentError Arguments :=
  match r.unstored with
  | .nothing => .ok r.stored
  | .awaiting _ => .error .invalidValue
  | .value s value => r.stored.set s value
  | .inputs words => r.stored.addInputs words

/-- Reads an input. -/
def readInput (r : ArgumentReader) (word : String) : Except ArgumentError ArgumentReader :=
  match r.unstored with
  | .inputs words => .ok { r with unstored := .inputs (words ++ [word]) }
  | _ => do return { r with stored := ← r.store, unstored := .inputs [word] }

/-- Reads an option, perhaps with a value joined to it. -/
def readOption (r : ArgumentReader) (kind : OptionKind) (joined : Option String) :
    Except ArgumentError ArgumentReader := do
  match kind, joined with
  | .setting s, none => return { r with stored := ← r.store, unstored := .awaiting s }
  | .setting s, some value =>
    let stored ← r.store
    return { r with stored := ← stored.set s value, unstored := .nothing }
  | _, some _ => throw .unneededValue
  | .flag f, none =>
    let stored ← r.store
    return { r with stored := ← stored.setFlag f, unstored := .nothing }
  | .help, none =>
    let _ ← r.store
    throw .helpAsked
  | .version, none =>
    let _ ← r.store
    throw .versionAsked

/-- Reads an option by its long name, which ends before the first equals sign. -/
def readLong (r : ArgumentReader) (text : List Char) : Except ArgumentError ArgumentReader :=
  match OptionKind.ofLongName? (String.ofList (text.takeWhile (· ≠ '='))) with
  | none => .error .unknown
  | some kind =>
    match text.dropWhile (· ≠ '=') with
    | [] => r.readOption kind none
    | _ :: value => r.readOption kind (some (String.ofList value))

/-- Reads an option by its short name.  The text after it is its value, without an equals sign in
front; a flag leaves that text alone. -/
def readShort (r : ArgumentReader) (name : Char) (text : List Char) :
    Except ArgumentError ArgumentReader :=
  match OptionKind.ofShortName? name with
  | none => .error .unknown
  | some (.setting s) =>
    match text with
    | [] => r.readOption (.setting s) none
    | '=' :: value => r.readOption (.setting s) (some (String.ofList value))
    | value => r.readOption (.setting s) (some (String.ofList value))
  | some kind => r.readOption kind none

/-- Reads one word. -/
def readWord (r : ArgumentReader) (word : String) : Except ArgumentError ArgumentReader :=
  if r.inputsOnly then r.readInput word
  else
    match word.toList with
    | ['-', '-'] => .ok { r with inputsOnly := true }
    | '-' :: '-' :: text => r.readLong text
    | '-' :: name :: text => r.readShort name text
    | _ =>
      match r.unstored with
      | .awaiting s => .ok { r with unstored := .value s word }
      | _ => r.readInput word

end ArgumentReader

/-- The arguments that the words of a command line give. -/
def Arguments.ofWords (words : List String) : Except ArgumentError Arguments := do
  (← words.foldlM ArgumentReader.readWord {}).store

end BindingProxy
