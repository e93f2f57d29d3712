import IdlFront.Command

/-! # The program

* `Program.load` — the files below a directory as a store.
* `Program.save` — write back what a run has changed.
* `main` — load what a request is about, run it, save, and print.
-/

namespace IdlFront.Program

def routeText (r : Route) : String := "/" ++ "/".intercalate r

def timeStamp (t : IO.FS.SystemTime) : Int := t.sec * 1000000000 + t.nsec.toNat

/-- The store with what is at a route; the contents of a directory come with it if `deep`. What
    cannot be read is left out. -/
partial def load (deep : Bool) (fs : FileStore) (r : Route) : IO FileStore := do
  try
    let place ← IO.FS.realPath (routeText r)
    let facts ← place.metadata
    let time := timeStamp facts.modified
    let fs := { fs with clock := max fs.clock (time + 1) }
    match facts.type with
    | .dir =>
      let fs := if r = [] then fs else fs.put r (.directory time)
      if deep then
        (← place.readDir).foldlM (fun fs child => load true fs (r ++ [child.fileName])) fs
      else return fs
    | .file =>
      let content ← IO.FS.readBinFile (routeText r)
      return fs.put r (.file content.toList time)
    | _ => return fs
  catch _ => return fs

def loadPath (deep : Bool) (fs : FileStore) (p : Path) : IO FileStore := do
  let r := (p.resolve fs.here).names
  let above := (List.range r.length).map r.take
  load deep (← above.foldlM (load false) fs) r

/-- The places that the settings of a project speak of: the build directory, and the patterns up to
    the first wildcard. -/
def projectPlaces (fs : FileStore) (directory : Path) : List Path :=
  match loadConfig fs (directory.join (.ofText configFileName)) with
  | .ok config =>
    config.buildPlace directory :: config.sources.map fun pattern =>
      directory.join ⟨.here, (Path.ofText pattern).names.takeWhile fun n => !Wildcard.isSpecial n⟩
  | .error _ => []

/-- The store with everything that a request is about. -/
def loadFor (fs : FileStore) : Request → IO FileStore
  | .help _ => return fs
  | .dump source output => do
    loadPath false (← loadPath false fs (.ofText source)) (.ofText (output.getD ""))
  | .check paths => do
    loadProjects (⟨.here, []⟩ :: paths.map Path.ofText) fs
  | .build directory => loadProjects [.ofText directory] fs
where
  /-- The store with several directories and the places their settings speak of. -/
  loadProjects (directories : List Path) (fs : FileStore) : IO FileStore := do
    let fs ← directories.foldlM (loadPath true) fs
    (directories.flatMap (projectPlaces fs)).foldlM (loadPath true) fs

/-- Write back the entries that differ from those before. -/
def save (old new : FileStore) : IO Unit :=
  new.entries.forM fun (r, e) =>
    if old.entry? r = some e then return
    else match e with
      | .directory _ => IO.FS.createDirAll (routeText r)
      | .file content _ => IO.FS.writeBinFile (routeText r) ⟨content.toArray⟩

end IdlFront.Program

open IdlFront in
def main (arguments : List String) : IO UInt32 := do
  let here := (Path.ofText (← IO.currentDir).toString).names
  let empty : FileStore := ⟨[], here, 0⟩
  let fs ← match Request.ofArguments arguments with
    | .ok request => Program.loadFor empty request
    | .error _ => pure empty
  let outcome := runArguments arguments fs
  Program.save fs outcome.files
  outcome.output.forM IO.println
  outcome.reports.forM fun r => IO.eprintln r.text
  match outcome.ending with
  | .ok code => return code.toUInt32
  | .error e =>
    IO.eprintln e.message
    return 1
