import IdlFront.Command.Build
import IdlFront.Command.Check
import IdlFront.Command.Dump

/-! # Running commands

* `Request.run` — do what is asked.
* `runArguments` — what arguments lead to: the exit code or the failure, the files afterwards, and
  everything printed.
-/

namespace IdlFront

/-- Do what is asked. The result is the exit code. -/
def Request.run [Limits] : Request → Command Nat
  | .help i => do
    i.help.forM Command.say
    return 0
  | .check paths => Command.check paths
  | .dump source output => Command.dump source output
  | .build directory => Command.build directory

/-- What a run of the program leads to. -/
structure Outcome where
  ending : Except CommandFailure Nat
  files : FileStore
  output : List String
  reports : List Report

def Command.outcome (c : Command Nat) (fs : FileStore) : Outcome :=
  match c ⟨fs, [], []⟩ with
  | .ok code s => ⟨.ok code, s.files, s.output, s.reports⟩
  | .error e s => ⟨.error e, s.files, s.output, s.reports⟩

/-- Do what arguments ask for. Arguments that ask for nothing lead to the exit code two. -/
def runArguments [Limits] (arguments : List String) (fs : FileStore) : Outcome :=
  match Request.ofArguments arguments with
  | .ok request => request.run.outcome fs
  | .error e => ⟨.ok 2, fs, [], [.usage e]⟩

end IdlFront
