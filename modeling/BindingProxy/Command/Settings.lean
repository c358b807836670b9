import BindingProxy.Command.Arguments
import BindingProxy.Json.Decode
import BindingProxy.Json.Reader
import BindingProxy.Proxy.Instrument

/-!
# Settings

What can be set besides the command line: options given as a JSON value, and a settings file.  A
settings file is strict about its keys; arguments of the command line win over it.
-/

namespace BindingProxy

/-! ### Options as JSON -/

/-- The names given by the members of an object; other members are of no interest. -/
def ProxyNames.ofMembers? (members : List (String × Json)) : Option ProxyNames := do
  let names : ProxyNames := {}
  return {
    namespaceName := ← Json.member? members "namespace" names.namespaceName Json.text?
    clientModule := ← Json.member? members "runtimeModule" names.clientModule Json.text? }

/-- Names given as a JSON record. -/
def ProxyNames.ofJson? (value : Json) : Option ProxyNames := do
  ProxyNames.ofMembers? (← value.record? ["namespace", "runtimeModule"])

/-- A layout given as a JSON record. -/
def Layout.ofJson? (value : Json) : Option Layout := do
  let members ← value.record? ["indent", "newLine"]
  let layout : Layout := {}
  return {
    indent := ← Json.member? members "indent" layout.indent Json.text?
    newLine := ← Json.member? members "newLine" layout.newLine Json.text? }

/-- Options given as a JSON object. -/
def Options.ofJson? : Json → Option Options
  | .object members => do
    return {
      importClient := ← Json.member? members "injectClient" false Json.truth?
      names := ← ProxyNames.ofMembers? members
      readArguments := ← Json.member? members "unwrapCallArguments" false Json.truth?
      layout := ← Json.member? members "printer" {} Layout.ofJson? }
  | _ => none

/-! ### The settings file -/

/-- What a settings file sets. -/
structure Settings where
  namespaceName : Option String := none
  clientModule : Option String := none
  importClient : Option Bool := none
  readArguments : Option Bool := none
  outDir : Option Path := none
  indent : Option String := none
deriving Repr, DecidableEq, Inhabited

namespace Settings

/-- The name of the settings file. -/
def fileName : String := "jspector.json"

/-- What is said of a text that holds no settings. -/
def faultMessage : String := "failed to parse " ++ fileName

/-- The keys of a settings file. -/
def keys : List String :=
  ["namespace", "runtimeModule", "injectClient", "unwrapCallArguments", "outDir", "indent"]

/-- Settings given as a JSON record; no key may be repeated or unknown. -/
def ofJson? (value : Json) : Option Settings := do
  let members ← value.record? keys
  let found := members.map (·.1)
  guard (found.all keys.contains && found.eraseDups.length == found.length)
  return {
    namespaceName := ← Json.member? members "namespace" none (Json.nullable? Json.text?)
    clientModule := ← Json.member? members "runtimeModule" none (Json.nullable? Json.text?)
    importClient := ← Json.member? members "injectClient" none (Json.nullable? Json.truth?)
    readArguments := ← Json.member? members "unwrapCallArguments" none (Json.nullable? Json.truth?)
    outDir := (← Json.member? members "outDir" none (Json.nullable? Json.text?)).map Path.mk
    indent := ← Json.member? members "indent" none (Json.nullable? Json.text?) }

/-- The settings in the text of a settings file. -/
def ofText? (text : String) : Option Settings := do ofJson? (← Json.parse? text)

/-- The settings of a file at a path: its output folder is seen from the folder of the file. -/
def relativeTo (s : Settings) (path : Path) : Settings :=
  { s with outDir := s.outDir.map (path.parent?.getD ⟨""⟩).join }

end Settings

/-! ### All together -/

/-- Everything that is set for one run of the command. -/
structure ResolvedOptions where
  options : Options := {}
  outDir : Option Path := none
deriving Repr, DecidableEq, Inhabited

/-- The options that arguments and settings give together, in a working folder. -/
def Arguments.resolve (a : Arguments) (s : Settings) (folder : Path) : ResolvedOptions :=
  let names : ProxyNames := {}
  let layout : Layout := {}
  { options :=
      { importClient := a.importClient || s.importClient.getD false
        names :=
          { namespaceName := (a.namespaceName.or s.namespaceName).getD names.namespaceName
            clientModule := (a.clientModule.or s.clientModule).getD names.clientModule }
        readArguments := a.readArguments || s.readArguments.getD false
        layout := { indent := s.indent.getD layout.indent } }
    outDir := (a.outDir.or s.outDir).map folder.join }

end BindingProxy
