import IdlFront.Command.Session

/-! # The command `check`

* `Target` — a file to check, and the settings of the project it was found through.
* `Command.targets` — the targets of paths: files, and the sources of project directories.
* `Command.check` — print every diagnostic of the targets, up to the cap of their projects.
-/

namespace IdlFront

/-- A file to check. It has settings if it was found through the directory of a project. -/
structure Target where
  path : Path
  config : Option ProjectConfig
  deriving DecidableEq, Repr

namespace Command

variable [Limits]

def projectTargets (directory : Path) : Command (Option (List Target)) := do
  match ← loadProject directory with
  | none => return none
  | some config =>
    return some ((← sourcesOf config directory).map fun source => ⟨source, some config⟩)

def targetsAt (path : Path) : Command (Option (List Target)) := do
  lookUp path
  let fs ← files
  if fs.hasDirectory path then projectTargets path
  else if fs.hasEntry path then return some [⟨path, none⟩]
  else
    reportAll [.error (.noSuchPath path)]
    return none

def targets : List Path → Command (Option (List Target))
  | [] => return some []
  | path :: paths => do
    match ← targetsAt path with
    | none => return none
    | some found =>
      match ← targets paths with
      | none => return none
      | some more => return some (found ++ more)

/-- The settings for a target: its own, or those of the working directory, which are loaded once. -/
def configFor (target : Target) (own : Option ProjectConfig) : Command (Option ProjectConfig) :=
  match target.config, own with
  | some config, _ => return some config
  | none, some config => return some config
  | none, none => do loadProject (← here)

/-- Check targets, given the settings of the working directory if they have been loaded, and the number
    of errors so far. The result is the number of errors, none if checking could not go on. -/
def checkTargets (own : Option ProjectConfig) (total : Nat) :
    List Target → Command (Option Nat)
  | [] => return some total
  | target :: rest => do
    match parseFile (← files) target.path with
    | .error e =>
      reportAll [.error (← buildError e)]
      return none
    | .ok result =>
      if result.errorCount = 0 then checkTargets own total rest
      else
        match ← configFor target own with
        | none => return none
        | some config =>
          reportAll (diagnosticReports target.path result.diagnostics config.maxDiagnostics)
          checkTargets (if target.config.isSome then own else some config)
            (total + result.errorCount) rest

/-- Check what paths name, or the project in the working directory if there are none. The exit code
    is zero if nothing has a diagnostic. -/
def check (paths : List String) : Command Nat := do
  let found ←
    if paths.isEmpty then projectTargets (← here) else targets (paths.map Path.ofText)
  match found with
  | none => return 1
  | some [] =>
    say "No IDL files found."
    return 0
  | some found =>
    say s!"Checking {found.length} IDL file(s)..."
    match ← checkTargets none 0 found with
    | none => return 1
    | some 0 =>
      say "No issues found."
      return 0
    | some total =>
      reportAll [.totalErrors total]
      return 1

end Command

end IdlFront
