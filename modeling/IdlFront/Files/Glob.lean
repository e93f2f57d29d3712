import IdlFront.Files.Store
import IdlFront.Files.Wildcard

/-! # Globs

Patterns for paths: names, wildcards for names, and `**` for any directories on the way.

* `Glob` — a pattern, step by step.
* `Glob.parse` — the pattern that a text denotes, or why it denotes none.
* `Glob.select` — the paths in a directory that a pattern matches.
-/

namespace IdlFront

/-- A step of a pattern: into an entry with a name, into those with a name like this, or through any
    number of directories. -/
inductive GlobStep where
  | child (name : String)
  | like (names : Wildcard)
  | anyDepth
  deriving DecidableEq, Repr

/-- A pattern for paths. -/
structure Glob where
  steps : List GlobStep
  directoriesOnly : Bool
  deriving DecidableEq, Repr

/-- Why a text is no pattern. The last two are patterns without a name, with and without a slash at
    the end. -/
inductive GlobError where
  | empty
  | absolute
  | mixedDoubleStar
  | noStep
  | noStepSlash
  deriving DecidableEq, Repr

def GlobError.message : GlobError → String
  | .empty => "Unacceptable pattern: ''"
  | .absolute => "Non-relative patterns are unsupported"
  | .mixedDoubleStar => "Invalid pattern: '**' can only be an entire path component"
  | .noStep | .noStepSlash => "Pattern without a name"

namespace Glob

/-! ## Reading -/

/-- Are there two stars side by side? -/
def hasDoubleStar : List Char → Bool
  | '*' :: '*' :: _ => true
  | _ :: cs => hasDoubleStar cs
  | [] => false

/-- The step that a name of a pattern stands for. -/
def step (name : String) : Except GlobError GlobStep :=
  if name = "**" then .ok .anyDepth
  else if hasDoubleStar name.toList then .error .mixedDoubleStar
  else if Wildcard.isSpecial name then .ok (.like (.ofText name))
  else .ok (.child name)

/-- The pattern that a text denotes. With a slash at its end it stands for directories only. -/
def parse (text : String) : Except GlobError Glob :=
  if text = "" then .error .empty
  else if (Path.ofText text).isAbsolute then .error .absolute
  else
    let directoriesOnly := text.toList.getLast? = some '/'
    match (Path.ofText text).names with
    | [] => .error (if directoriesOnly then .noStepSlash else .noStep)
    | names => (fun steps => ⟨steps, directoriesOnly⟩) <$> names.mapM step

/-! ## Selecting -/

def namesIn (fs : FileStore) (p : Path) : List String :=
  match fs.locate p with
  | .ok r => fs.children r
  | .error _ => []

def directoriesIn (fs : FileStore) (p : Path) : List Path :=
  match fs.locate p with
  | .ok r => (fs.directoriesBelow r).map fun way => ⟨p.anchor, p.names ++ way⟩
  | .error _ => []

/-- Is there an entry at the path, a directory if it has to be one? -/
def isThere (fs : FileStore) (directory : Bool) (p : Path) : Bool :=
  if directory then fs.hasDirectory p else fs.hasEntry p

/-- The paths that steps lead to from a directory. All steps but the last one lead to directories,
    and so does that one if `directoriesOnly`. -/
def selectFrom (fs : FileStore) (directoriesOnly : Bool) : List GlobStep → Path → List Path
  | [], p => [p]
  | .child name :: rest, p =>
    if isThere fs (directoriesOnly || !rest.isEmpty) (p.child name) then
      selectFrom fs directoriesOnly rest (p.child name)
    else []
  | .like names :: rest, p =>
    (namesIn fs p).flatMap fun name =>
      if names.accepts name && isThere fs (directoriesOnly || !rest.isEmpty) (p.child name) then
        selectFrom fs directoriesOnly rest (p.child name)
      else []
  | .anyDepth :: rest, p => (directoriesIn fs p).flatMap (selectFrom fs directoriesOnly rest)

/-- The paths in a directory that the pattern matches; none if there is no directory. -/
def select (g : Glob) (fs : FileStore) (directory : Path) : List Path :=
  if fs.hasDirectory directory then selectFrom fs g.directoriesOnly g.steps directory else []

end Glob

end IdlFront
