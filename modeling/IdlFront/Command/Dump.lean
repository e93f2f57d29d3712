import IdlFront.Command.Session

/-! # The command `dump`

* `Command.dump` — print the artifact of one file, or write it into a file.
-/

namespace IdlFront.Command

variable [Limits]

/-- Write an artifact into a file that the user has named. -/
def writeOutput (tree : IdlFile) (output : String) : Command (Option CommandError) := do
  match ← changeFiles (writeArtifact tree (.ofText output)) with
  | .ok () => return none
  | .error (.refused e) => return some (.unwritable output e)
  | .error (.breakdown b) => throw (.breakdown b)

/-- Print the diagnostics of a file and its artifact. The exit code is zero if it has no
    diagnostic; an empty name of the output stands for none. -/
def dump (source : String) (output : Option String) : Command Nat := do
  let path := Path.ofText source
  match parseFile (← files) path with
  | .error e => fail (← buildError e)
  | .ok result =>
    reportAll (diagnosticReports path result.diagnostics 0)
    let code := if result.errorCount = 0 then 0 else 1
    match output.getD "" with
    | "" =>
      if Limits.tree result.tree then throw (.breakdown .limit)
      else
        say (Artifact.serialize result.tree)
        return code
    | output =>
      match ← writeOutput result.tree output with
      | some e => fail e
      | none =>
        say s!"Wrote {output}"
        return code

end IdlFront.Command
