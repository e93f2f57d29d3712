import IdlFront.Json.Display
import IdlFront.Project.Limits
import IdlFront.Schema
import IdlFront.Yaml.Value

/-! # Project settings

* `ProjectConfig` — which files belong to a project, where its artifacts go, and how many diagnostics of
  a file are printed.
* `ProjectConfig.check` — the settings that data denotes.
* `SettingsReader` — what reads and checks data, which need not be the reader and the check of this library.
* `SettingsReader.loadConfig`, `loadConfig` — the settings in a file. A missing file stands for the settings
  of `ProjectConfig.standard`, and an empty one for those of a mapping without entries.
-/

namespace IdlFront

/-! ## Settings -/

/-- The settings of a project. The patterns and the build directory are seen from its directory.
    A cap of zero prints all diagnostics. -/
structure ProjectConfig where
  sources : List String
  exclude : List String
  buildDirectory : String
  maxDiagnostics : Nat
  deriving DecidableEq, Repr

/-- The settings of a project that states none. -/
def ProjectConfig.standard : ProjectConfig := ⟨["**/*.idl"], [], ".xidl-build", 0⟩

/-- The name of the file with the settings of the project in its directory. -/
def configFileName : String := ".xidl.yaml"

/-! ## Checking data -/

namespace Yaml.Value

def toScalar : Value → Scalar
  | .null => .null
  | .bool b => .bool b
  | .integer n => .integer n
  | .real x => .real x
  | .text s => .text s
  | .timestamp _ | .sequence _ | .mapping _ => .other

def checkTexts : Value → Checked (List String)
  | .sequence items => Checked.items 0 (items.map fun item => item.toScalar.toText)
  | _ => .fail .listType

def checkNat (v : Value) : Checked Nat :=
  v.toScalar.toInteger.andThen fun n => if 0 ≤ n then .ok n.toNat else .fail .greaterThanEqual

/-- The step into a mapping by a key. Truth values count as numbers, and numbers of more than
    64 bits as names. -/
def step : Value → DataStep
  | .text s | .timestamp s => .key s
  | .bool b => .index (if b then 1 else 0)
  | .integer n =>
    if -9223372036854775808 ≤ n ∧ n ≤ 9223372036854775807 then .index n
    else .key (Json.integer n).display
  | .real x => .key (Json.real x).display
  | _ => .key Json.null.display

end Yaml.Value

namespace ProjectConfig

open Yaml (Value)

abbrev Settings := List (Value × Value)

def Settings.get? (settings : Settings) (name : String) : Option Value :=
  (settings.find? fun pair => match pair.1 with
    | .text s => s == name
    | _ => false).map Prod.snd

/-- The names of each setting, the preferred one in front. -/
def settingNames : List (List String) :=
  [["sources"], ["exclude"], ["build-directory", "build_directory"],
    ["max-diagnostics", "max_diagnostics"]]

def nameIn? (settings : Settings) (names : List String) : Option String :=
  names.find? fun name => (settings.get? name).isSome

/-- A setting, with the value it has if it is not given. -/
def setting {α : Type} (settings : Settings) (names : List String) (default : α)
    (check : Value → Checked α) : Checked α :=
  match nameIn? settings names with
  | none => .ok default
  | some name => (check ((settings.get? name).getD .null)).within (.key name)

def extraFaults (settings : Settings) : List Fault :=
  let given := settingNames.filterMap (nameIn? settings)
  settings.filterMap fun pair =>
    match pair.1 with
    | .text s => if s ∈ given then none else some ⟨[.key s], .extraForbidden⟩
    | key => some ⟨[key.step], .invalidKey⟩

def checkExtras (settings : Settings) : Checked Unit :=
  match extraFaults settings with
  | [] => .ok ()
  | faults => .faulty faults

def check (settings : Settings) : Checked ProjectConfig :=
  (fun sources exclude buildDirectory maxDiagnostics _ =>
      ⟨sources, exclude, buildDirectory, maxDiagnostics⟩)
    <$> setting settings ["sources"] standard.sources Value.checkTexts
    <*> setting settings ["exclude"] standard.exclude Value.checkTexts
    <*> setting settings ["build-directory", "build_directory"] standard.buildDirectory
      (fun v => v.toScalar.toText)
    <*> setting settings ["max-diagnostics", "max_diagnostics"] standard.maxDiagnostics
      Value.checkNat
    <*> checkExtras settings

end ProjectConfig

/-! ## Readers -/

/-- What a text of YAML is to the loader of settings. -/
inductive Document (Mapping : Type) where
  | nothing
  | mapping (m : Mapping)
  | other

/-- Why a text has no document: an error of YAML, or one that no reader of YAML should end with. -/
inductive DocumentError where
  | yaml (cause : String)
  | foreign (cause : String)
  deriving DecidableEq, Repr

/-- Why a mapping has no settings: the faults of it, or an error that no check should end with. -/
inductive SettingsError where
  | invalid (faults : List Fault)
  | foreign (cause : String)
  deriving DecidableEq, Repr

/-- A reader of YAML, and the check of the mappings it reads. -/
structure SettingsReader where
  Mapping : Type
  empty : Mapping
  read : String → Except DocumentError (Document Mapping)
  check : Mapping → Except SettingsError ProjectConfig

/-- The reader and the check of this library. -/
def SettingsReader.standard : SettingsReader where
  Mapping := ProjectConfig.Settings
  empty := []
  read text :=
    match Yaml.read text with
    | .ok .null => .ok .nothing
    | .ok (.mapping settings) => .ok (.mapping settings)
    | .ok _ => .ok .other
    | .error .malformed => .error (.yaml "the text is not a YAML document")
    | .error (.flaw flaw) => .error (.foreign flaw.message)
  check settings := (ProjectConfig.check settings).toExcept.mapError .invalid

/-! ## Loading -/

/-- What is wrong with a file of settings. -/
inductive ConfigError where
  | unreadable (path : Path) (cause : FileError)
  | malformed (path : Path) (cause : String)
  | notAMapping (path : Path)
  | invalid (path : Path) (faults : List Fault)
  deriving DecidableEq, Repr

namespace ConfigError

/-- What is wrong, on one line. -/
def summary : ConfigError → String
  | .unreadable path cause => s!"Cannot read config file '{path.text}': " ++ cause.message
  | .malformed path _ => s!"Invalid YAML in config file '{path.text}'"
  | .notAMapping path => s!"{path.text}: project config must be a YAML mapping"
  | .invalid path _ => s!"Invalid config file '{path.text}'"

/-- The particulars that follow the line, if there are any. -/
def details : ConfigError → List String
  | .malformed _ cause => [cause]
  | .invalid _ faults => faults.map Fault.render
  | _ => []

def message (e : ConfigError) : String :=
  match e.details with
  | [] => e.summary
  | details => e.summary ++ ": " ++ "\n".intercalate details

end ConfigError

/-- Why there are no settings: an error of theirs, bytes that are no text, an error of the reader or the
    check that neither should end with, or a breakdown. -/
inductive LoadError where
  | config (e : ConfigError)
  | notUtf8 (e : Text.Utf8Error)
  | foreign (cause : String)
  | breakdown (b : Breakdown)
  deriving DecidableEq, Repr

def LoadError.message : LoadError → String
  | .config e => e.message
  | .notUtf8 e => e.message
  | .foreign cause => cause
  | .breakdown b => b.message

namespace SettingsReader

variable (reader : SettingsReader)

def checkConfig (path : Path) (m : reader.Mapping) : Except LoadError ProjectConfig :=
  match reader.check m with
  | .ok config => .ok config
  | .error (.invalid faults) => .error (.config (.invalid path faults))
  | .error (.foreign cause) => .error (.foreign cause)

def readConfig (path : Path) (text : String) : Except LoadError ProjectConfig :=
  match reader.read text with
  | .error (.yaml cause) => .error (.config (.malformed path cause))
  | .error (.foreign cause) => .error (.foreign cause)
  | .ok .nothing => reader.checkConfig path reader.empty
  | .ok (.mapping m) => reader.checkConfig path m
  | .ok .other => .error (.config (.notAMapping path))

def loadConfig [Limits] (fs : FileStore) (path : Path) : Except LoadError ProjectConfig :=
  if Limits.lookup fs path then .error (.breakdown .limit)
  else if fs.hasEntry path then
    match fs.readText path with
    | .ok text => reader.readConfig path text
    | .error (.refused e) => .error (.config (.unreadable path e))
    | .error (.notUtf8 e) => .error (.notUtf8 e)
  else .ok .standard

end SettingsReader

def loadConfig [Limits] (fs : FileStore) (path : Path) : Except LoadError ProjectConfig :=
  SettingsReader.standard.loadConfig fs path

end IdlFront
