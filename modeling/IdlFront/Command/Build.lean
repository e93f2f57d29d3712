import IdlFront.Command.Session

/-! # The command `build`

* `Command.build` — build the sources of a project and print the diagnostics of those that have some.
-/

namespace IdlFront.Command

/-- The reports of results, and how many of them have diagnostics. -/
def failures (results : FileResults) (cap : Nat) : List Report × Nat :=
  let failed := results.filter fun r => r.2.errorCount ≠ 0
  (failed.flatMap fun r => diagnosticReports r.1 r.2.diagnostics cap, failed.length)

variable [Limits]

def buildSources (config : ProjectConfig) (directory : Path) (sources : List Path) :
    Command Nat := do
  let place := config.buildPlace directory
  say s!"Building {sources.length} IDL file(s) into '{place.text}'..."
  match ← changeFiles (buildFiles sources directory place) with
  | .error e => fail (← buildError e)
  | .ok results =>
    let (reports, failed) := failures results config.maxDiagnostics
    reportAll reports
    if failed = 0 then
      say s!"Built {results.length} artifact(s)."
      return 0
    else
      reportAll [.failedFiles failed]
      return 1

/-- Build the project in a directory that is named in full. -/
def buildIn (directory : Path) : Command Nat := do
  lookUp directory
  if (← files).hasDirectory directory then
    match ← loadProject directory with
    | none => return 1
    | some config =>
      match ← sourcesOf config directory with
      | [] =>
        say "No IDL files found."
        return 0
      | sources => buildSources config directory sources
  else fail (.noSuchDirectory directory)

/-- Build the project in a directory. The exit code is zero if no source has a diagnostic. -/
def build (directory : String) : Command Nat := do
  let fs ← files
  if fs.refuses (.ofText directory) then throw (.breakdown .nullCharacter)
  else buildIn ((Path.ofText directory).resolve fs.here)

end IdlFront.Command
