import IdlFront.Artifact.Decode
import IdlFront.Parser
import IdlFront.Project.Limits

/-! # Building projects

Files are read, parsed and kept as artifacts:

* `parseFile`, `parseFiles` — the results of parsing files.
* `artifactPath` — where the artifact of a source goes.
* `readArtifact`, `writeArtifact` — trees in files.
* `buildFiles` — the results for several sources. An artifact that is newer than its source stands for
  it, and a source without diagnostics leaves an artifact.
-/

namespace IdlFront

/-! ## Errors -/

/-- Why a build cannot go on. -/
inductive BuildError where
  | notUtf8 (source : Path) (cause : Text.Utf8Error)
  | unreadable (source : Path) (cause : FileError)
  | outsideRoot (source root : Path)
  | unknownAge (source : Path) (cause : FileError)
  | unwritable (artifact : Path) (cause : FileError)
  deriving DecidableEq, Repr

def BuildError.message : BuildError → String
  | .notUtf8 source cause =>
    s!"Source file '{source.text}' is not valid UTF-8: " ++ cause.message
  | .unreadable source cause => s!"Cannot read source file '{source.text}': " ++ cause.message
  | .outsideRoot source root =>
    s!"Source file '{source.text}' is not under the project root '{root.text}'"
  | .unknownAge source cause => s!"Cannot stat source file '{source.text}': " ++ cause.message
  | .unwritable artifact cause => s!"Cannot write artifact '{artifact.text}': " ++ cause.message

/-- Why a build ends early: an error of its own, an artifact that is there and newer than its source but
    cannot be read as a file, or a breakdown. -/
inductive BuildFailure where
  | error (e : BuildError)
  | artifactRefused (e : FileError)
  | breakdown (b : Breakdown)
  deriving DecidableEq, Repr

variable [Limits]

/-! ## Parsing files -/

def parseFile (fs : FileStore) (source : Path) : Except BuildFailure ParseResult :=
  if fs.refuses source then .error (.breakdown .nullCharacter)
  else
    match fs.readText source with
    | .ok text => if Limits.source text then .error (.breakdown .limit) else .ok (parse text)
    | .error (.notUtf8 e) => .error (.error (.notUtf8 source e))
    | .error (.refused e) => .error (.error (.unreadable source e))

/-- Results by path, in the order in which the paths came first. -/
abbrev FileResults := List (Path × ParseResult)

/-- Set the result of a path: in the place it has, or at the end. -/
def FileResults.put (p : Path) (r : ParseResult) : FileResults → FileResults
  | [] => [(p, r)]
  | (q, old) :: rest => if q = p then (q, r) :: rest else (q, old) :: put p r rest

def parseFiles (fs : FileStore) (sources : List Path) : Except BuildFailure FileResults :=
  sources.foldlM (fun results source => return results.put source (← parseFile fs source)) []

/-! ## Artifacts -/

def artifactSuffix : String := ".xidl.json"

/-- Where the artifact of a source goes: as far below the build directory as the source is below the
    root, with the suffix of its name replaced. A path that cannot be resolved counts as outside. -/
def artifactPath (here : Route) (source root buildDirectory : Path) : Except BuildError Path :=
  if source.hasNull || root.hasNull then .error (.outsideRoot source root)
  else
    match (source.resolve here).relativeTo? (root.resolve here) with
    | none => .error (.outsideRoot source root)
    | some way => .ok ((buildDirectory.join way.parent).join (.ofText (way.stem ++ artifactSuffix)))

/-- Why a file holds no artifact that can be read. -/
inductive ArtifactReadError where
  | refused (e : FileError)
  | notUtf8 (e : Text.Utf8Error)
  | notArtifact (e : ArtifactError)
  | tooDeep

def readArtifact (fs : FileStore) (p : Path) : Except ArtifactReadError IdlFile :=
  match fs.readText p with
  | .error (.refused e) => .error (.refused e)
  | .error (.notUtf8 e) => .error (.notUtf8 e)
  | .ok text =>
    if Limits.json text then .error .tooDeep
    else (Artifact.deserialize text).mapError .notArtifact

/-- Why a tree is not written: the file system refuses it, or the platform breaks down over it. -/
inductive WriteFailure where
  | refused (e : FileError)
  | breakdown (b : Breakdown)
  deriving DecidableEq, Repr

/-- Make something at a path, unless the platform does not cope with the path. -/
def makeAt (p : Path) (action : FileAction Unit) : EStateM WriteFailure FileStore Unit := fun fs =>
  if Limits.make fs p then .error (.refused ⟨.nameTooLong, p⟩) fs
  else
    match action fs with
    | .ok () fs' => .ok () fs'
    | .error e fs' => .error (.refused e) fs'

/-- Write a tree into a file, making the directories on the way. -/
def writeArtifact (tree : IdlFile) (p : Path) : EStateM WriteFailure FileStore Unit := fun fs =>
  if fs.refuses p then .error (.breakdown .nullCharacter) fs
  else
    match makeAt p.parent (FileStore.makeDirectories p.parent) fs with
    | .error e fs' => .error e fs'
    | .ok () fs' =>
      if Limits.tree tree then .error (.breakdown .limit) fs'
      else makeAt p (FileStore.writeText p (Artifact.serialize tree)) fs'

/-! ## Building -/

/-- Is there an artifact, and is it newer than the source? -/
def isUpToDate (fs : FileStore) (source artifact : Path) : Except BuildError Bool :=
  if fs.hasEntry artifact then
    match fs.modified artifact, fs.modified source with
    | .ok artifactTime, .ok sourceTime => .ok (sourceTime < artifactTime)
    | .error e, _ => .error (.unknownAge source e)
    | _, .error e => .error (.unknownAge source e)
  else .ok false

/-- The result that an artifact stands for, if it is up to date and can be read. -/
def cachedResult (fs : FileStore) (source artifact : Path) :
    Except BuildFailure (Option ParseResult) :=
  if Limits.lookup fs artifact then .error (.breakdown .limit)
  else
    match isUpToDate fs source artifact with
    | .error e => .error (.error e)
    | .ok false => .ok none
    | .ok true =>
      match readArtifact fs artifact with
      | .ok tree => .ok (some ⟨tree, []⟩)
      | .error (.refused e) => .error (.artifactRefused e)
      | .error .tooDeep => .error (.breakdown .limit)
      | .error _ => .ok none

abbrev BuildAction := EStateM BuildFailure FileStore

/-- Parse a source, and keep its tree if it has no diagnostics. -/
def rebuildFile (source artifact : Path) : BuildAction ParseResult := fun fs =>
  match parseFile fs source with
  | .error e => .error e fs
  | .ok result =>
    if result.errorCount = 0 then
      match writeArtifact result.tree artifact fs with
      | .ok () fs' => .ok result fs'
      | .error (.refused e) fs' => .error (.error (.unwritable artifact e)) fs'
      | .error (.breakdown b) fs' => .error (.breakdown b) fs'
    else .ok result fs

/-- The result for a source, from its artifact or anew. -/
def buildFile (root buildDirectory source : Path) : BuildAction ParseResult := fun fs =>
  match artifactPath fs.here source root buildDirectory with
  | .error e => .error (.error e) fs
  | .ok artifact =>
    match cachedResult fs source artifact with
    | .error e => .error e fs
    | .ok (some result) => .ok result fs
    | .ok none => rebuildFile source artifact fs

/-- The results for the sources of a list, added to results there are. -/
def buildFilesFrom (root buildDirectory : Path) : FileResults → List Path → BuildAction FileResults
  | results, [] => fun fs => .ok results fs
  | results, source :: sources => fun fs =>
    match buildFile root buildDirectory source fs with
    | .error e fs' => .error e fs'
    | .ok result fs' => buildFilesFrom root buildDirectory (results.put source result) sources fs'

/-- The results for several sources, in the order in which the sources came first. -/
def buildFiles (sources : List Path) (root buildDirectory : Path) : BuildAction FileResults :=
  buildFilesFrom root buildDirectory [] sources

end IdlFront
