import IdlFront.Command.Request
import IdlFront.Project.Build
import IdlFront.Project.Sources

/-! # Sessions

What commands do besides changing files is printing:

* `CommandError`, `Report` — what goes to the error output.
* `CommandFailure` — what ends a command without an exit code.
* `Session` — the files and everything printed; `Command` — what changes a session.
* `loadProject`, `reportDiagnostics` — what several commands do.
-/

namespace IdlFront

/-! ## Reports -/

/-- Why a command does not do what it is asked to. -/
inductive CommandError where
  | config (e : ConfigError)
  | build (e : BuildError)
  | noSuchPath (path : Path)
  | noSuchDirectory (path : Path)
  | unwritable (output : String) (cause : FileError)
  deriving DecidableEq, Repr

def CommandError.message : CommandError → String
  | .config e => e.message
  | .build e => e.message
  | .noSuchPath path => s!"path '{path.text}' does not exist."
  | .noSuchDirectory path => s!"directory '{path.text}' does not exist."
  | .unwritable output cause => s!"Cannot write artifact '{output}': " ++ cause.message

/-- What is printed on the error output. -/
inductive Report where
  | diagnostic (path : Path) (d : Diagnostic)
  | notShown (path : Path) (count : Nat)
  | totalErrors (count : Nat)
  | failedFiles (count : Nat)
  | error (e : CommandError)
  | usage (e : UsageError)
  deriving DecidableEq, Repr

def Report.text : Report → String
  | .diagnostic path d =>
    s!"{path.text}:{d.line}:{d.column}: " ++ d.severity.label ++ ": " ++ d.message
  | .notShown path count => s!"{path.text}: {count} more error(s) not shown"
  | .totalErrors count => s!"Found {count} error(s)."
  | .failedFiles count => s!"{count} file(s) failed to parse; no artifact written for them."
  | .error e => "Error: " ++ e.message
  | .usage e => "\n".intercalate e.lines

/-! ## Sessions -/

/-- What ends a command without an exit code. -/
inductive CommandFailure where
  | pattern (e : GlobError)
  | notUtf8 (e : Text.Utf8Error)
  | foreign (cause : String)
  | refused (e : FileError)
  | breakdown (b : Breakdown)
  deriving DecidableEq, Repr

def CommandFailure.message : CommandFailure → String
  | .pattern e => e.message
  | .notUtf8 e => e.message
  | .foreign cause => cause
  | .refused e => e.message
  | .breakdown b => b.message

/-- The files, the lines printed, and the reports. -/
structure Session where
  files : FileStore
  output : List String
  reports : List Report
  deriving DecidableEq, Repr

abbrev Command := EStateM CommandFailure Session

namespace Command

def files : Command FileStore := fun s => .ok s.files s

def say (line : String) : Command Unit := fun s => .ok () { s with output := s.output ++ [line] }

def reportAll (rs : List Report) : Command Unit := fun s =>
  .ok () { s with reports := s.reports ++ rs }

/-- Print an error; the exit code of a command that fails is one. -/
def fail (e : CommandError) : Command Nat := do
  reportAll [.error e]
  return 1

/-- Change files. What is refused is an outcome of its own. -/
def changeFiles {ε α : Type} (action : EStateM ε FileStore α) : Command (Except ε α) := fun s =>
  match action s.files with
  | .ok a fs => .ok (.ok a) { s with files := fs }
  | .error e fs => .ok (.error e) { s with files := fs }

section Limited

variable [Limits]

/-- Ask the platform about a path before anything is looked up there. -/
def lookUp (p : Path) : Command Unit := do
  if Limits.lookup (← files) p then throw (.breakdown .limit)

/-- The settings of the project in a directory, none if there is an error, which is printed. -/
def loadProject (directory : Path) : Command (Option ProjectConfig) := do
  match loadConfig (← files) (directory.join (.ofText configFileName)) with
  | .ok config => return some config
  | .error (.config e) =>
    reportAll [.error (.config e)]
    return none
  | .error (.notUtf8 e) => throw (.notUtf8 e)
  | .error (.foreign cause) => throw (.foreign cause)
  | .error (.breakdown b) => throw (.breakdown b)

def sourcesOf (config : ProjectConfig) (directory : Path) : Command (List Path) := do
  match findSources (← files) config directory with
  | .ok sources => return sources
  | .error (.pattern e) => throw (.pattern e)
  | .error (.breakdown b) => throw (.breakdown b)

end Limited

/-- The error that a command prints for a failure. The other failures end the command. -/
def buildError : BuildFailure → Command CommandError
  | .error e => return .build e
  | .artifactRefused e => throw (.refused e)
  | .breakdown b => throw (.breakdown b)

def here : Command Path := do return ⟨.root, (← files).here⟩

end Command

/-- The reports of the diagnostics of a file, no more than a cap, and of the number left out. A cap of
    zero leaves none out. -/
def diagnosticReports (path : Path) (ds : List Diagnostic) (cap : Nat) : List Report :=
  let shown := if cap = 0 then ds else ds.take cap
  let hidden := ds.length - shown.length
  shown.map (.diagnostic path) ++ if 0 < hidden then [.notShown path hidden] else []

end IdlFront
