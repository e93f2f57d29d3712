import IdlFront.Files.Glob
import IdlFront.Project.Config

/-! # Sources of projects

* `findSources` — the files that the settings of a project select, in the order of their names. Files
  in the build directory are never selected, so it has to be a path that can be resolved.
-/

namespace IdlFront

namespace ProjectConfig

/-- Is a file left out? The patterns see its path from the directory of the project as one text. -/
def excludes (config : ProjectConfig) (relative : Path) : Bool :=
  config.exclude.any fun pattern => (Wildcard.ofText pattern).accepts relative.text

def buildPlace (config : ProjectConfig) (root : Path) : Path :=
  root.join (.ofText config.buildDirectory)

/-- Is there a null character in the way to the build directory, which is one from the root unless it is
    absolute? -/
def isUnresolvable (config : ProjectConfig) (fs : FileStore) (root : Path) : Bool :=
  let place := Path.ofText config.buildDirectory
  place.hasNull || (!place.isAbsolute && fs.refuses root)

/-- Is the path a source of the project? -/
def selects (config : ProjectConfig) (fs : FileStore) (root p : Path) : Bool :=
  fs.hasFile p
    && !((p.resolve fs.here).isBelow ((config.buildPlace root).resolve fs.here))
    && !config.excludes ⟨.here, p.names.drop root.names.length⟩

end ProjectConfig

/-- A list of paths in order with one more path, unless it is there. -/
def Path.insertInto (p : Path) : List Path → List Path
  | [] => [p]
  | q :: qs =>
    if p = q then q :: qs
    else if p.le q then p :: q :: qs
    else q :: p.insertInto qs

/-- Why the sources of a project cannot be found. -/
inductive SourcesError where
  | pattern (e : GlobError)
  | breakdown (b : Breakdown)
  deriving DecidableEq, Repr

def SourcesError.message : SourcesError → String
  | .pattern e => e.message
  | .breakdown b => b.message

/-- The files of a directory that any of the patterns matches, and that are not left out. -/
def ProjectConfig.choose (config : ProjectConfig) (fs : FileStore) (root : Path)
    (patterns : List Glob) : List Path :=
  ((patterns.flatMap fun g => g.select fs root).filter (config.selects fs root)).foldl
    (fun ps p => p.insertInto ps) []

def findSources [Limits] (fs : FileStore) (config : ProjectConfig) (root : Path) :
    Except SourcesError (List Path) :=
  if config.isUnresolvable fs root then .error (.breakdown .nullCharacter)
  else
    match config.sources.mapM Glob.parse with
    | .error e => .error (.pattern e)
    | .ok patterns =>
      if Limits.search fs config.sources root then .error (.breakdown .limit)
      else .ok (config.choose fs root patterns)

end IdlFront
