import IdlFront.Command.Arguments

/-! # Requests

* `Request` — what a run of the program is asked to do.
* `Request.ofArguments` — the request that arguments make.
-/

namespace IdlFront

inductive Request where
  | help (interface : Interface)
  | check (paths : List String)
  | dump (source : String) (output : Option String)
  | build (directory : String)
  deriving DecidableEq, Repr

/-- The request for a command with these findings. A build without a directory is one of the working
    directory. -/
def Subcommand.request (c : Subcommand) (found : Findings) : Request :=
  let operand := found.operand.getD []
  match c with
  | .check => .check operand
  | .dump => .dump (operand.head?.getD "") found.value
  | .build => .build (operand.head?.getD ".")

namespace Request

def unlessLeftovers (leftovers : List String) (r : Request) : Except UsageError Request :=
  if leftovers.isEmpty then .ok r else .error ⟨.xidl, .unrecognized leftovers⟩

/-- The outcome of a scan for an interface, continued by `next` if nothing came in between. -/
def ofScan (i : Interface) (scan : Except Interruption Findings)
    (next : Findings → Except UsageError Request) : Except UsageError Request :=
  match scan with
  | .error .help => .ok (.help i)
  | .error (.problem p) => .error ⟨i, p⟩
  | .ok found => next found

/-- The request that arguments make. Without a command they ask for help. -/
def ofArguments (arguments : List String) : Except UsageError Request :=
  ofScan .xidl (Interface.xidl.scan arguments) fun outer =>
    match outer.operand with
    | some (name :: rest) =>
      match Subcommand.ofName? name with
      | some c =>
        ofScan c.interface (c.interface.scan rest) fun inner =>
          unlessLeftovers (outer.leftovers ++ inner.leftovers) (c.request inner)
      | none => .error ⟨.xidl, .unknownCommand name⟩
    | _ => unlessLeftovers outer.leftovers (.help .xidl)

end Request

end IdlFront
