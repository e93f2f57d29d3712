import IdlFront.Files.Path
import IdlFront.Text.Utf8

/-! # Stores of files

* `FileStore` — files and directories by their way from the root, the working directory, and the clock
  that changes are stamped with.
* `FileStore.entry?`, `FileStore.put` — a store as a map.
* `FileStore.find` — what is at a path. Every directory on the way has to be there, also before `..`.
* `FileStore.refuses` — a path that no file system can be asked about.
* `FileStore.readText` — the text of a file.
* `FileAction` — what changes a store and may be refused: `makeDirectories`, `writeBytes`, `remove`.
-/

namespace IdlFront

/-! ## Entries -/

/-- The names on the way from the root to an entry. -/
abbrev Route := List String

/-- A file or a directory, and when it was last changed. -/
inductive Entry where
  | file (content : List UInt8) (modified : Int)
  | directory (modified : Int)
  deriving DecidableEq, Repr

/-- When the entry was last changed. -/
def Entry.modified : Entry → Int
  | .file _ t => t
  | .directory t => t

/-- The entry, last changed at a time. -/
def Entry.stamped (time : Int) : Entry → Entry
  | .file content _ => .file content time
  | .directory _ => .directory time

/-- Is the entry a directory? -/
def Entry.isDirectory : Entry → Bool
  | .directory _ => true
  | .file _ _ => false

/-- Files and directories by route. The root is a directory that need not be listed. -/
structure FileStore where
  entries : List (Route × Entry)
  here : Route
  clock : Int
  deriving DecidableEq, Repr

namespace FileStore

def entry? (fs : FileStore) (r : Route) : Option Entry :=
  if r = [] then some (.directory 0) else (fs.entries.find? fun e => e.1 == r).map Prod.snd

/-- The store with an entry at a route, in place of the one before. -/
def put (fs : FileStore) (r : Route) (e : Entry) : FileStore :=
  if fs.entries.any fun e => e.1 == r then
    { fs with entries := fs.entries.map fun old => if old.1 == r then (r, e) else old }
  else { fs with entries := fs.entries ++ [(r, e)] }

def erase (fs : FileStore) (r : Route) : FileStore :=
  { fs with entries := fs.entries.filter fun e => e.1 != r }

/-- The store with the directory of a route changed now. -/
def touchParent (fs : FileStore) (r : Route) : FileStore :=
  match fs.entry? r.dropLast with
  | some e => if r.dropLast = [] then fs else fs.put r.dropLast (e.stamped fs.clock)
  | none => fs

def children (fs : FileStore) (r : Route) : List String :=
  fs.entries.filterMap fun e => if e.1 ≠ [] ∧ e.1.dropLast = r then e.1.getLast? else none

/-- The ways from a directory to itself and to all directories below it. -/
def directoriesBelow (fs : FileStore) (r : Route) : List Route :=
  [] :: fs.entries.filterMap fun e =>
    if e.2.isDirectory ∧ r <+: e.1 ∧ r ≠ e.1 then some (e.1.drop r.length) else none

end FileStore

/-! ## Refusals -/

/-- Why the entry that a path denotes cannot be used. -/
inductive Refusal where
  | noEntry
  | alreadyThere
  | notDirectory
  | isDirectory
  | nameTooLong
  deriving DecidableEq, Repr

def Refusal.number : Refusal → Nat
  | .noEntry => 2
  | .alreadyThere => 17
  | .notDirectory => 20
  | .isDirectory => 21
  | .nameTooLong => 36

def Refusal.label : Refusal → String
  | .noEntry => "No such file or directory"
  | .alreadyThere => "File exists"
  | .notDirectory => "Not a directory"
  | .isDirectory => "Is a directory"
  | .nameTooLong => "File name too long"

/-- A refusal and the path it is about. -/
structure FileError where
  refusal : Refusal
  path : Path
  deriving DecidableEq, Repr

def FileError.message (e : FileError) : String :=
  s!"[Errno {e.refusal.number}] {e.refusal.label}: " ++ Text.quoted e.path.text

/-- Why a file has no text. -/
inductive ReadError where
  | refused (e : FileError)
  | notUtf8 (e : Text.Utf8Error)
  deriving DecidableEq, Repr

/-! ## Looking -/

namespace FileStore

/-- The route that names lead to from another one. Each name is looked up in a directory; whether
    there is an entry for the last one is left open. -/
def follow (fs : FileStore) : Route → List String → Except Refusal Route
  | r, [] => .ok r
  | r, name :: names =>
    match fs.entry? r with
    | some (.directory _) =>
      follow fs (if name = ".." then r.dropLast else r ++ [name]) names
    | some (.file _ _) => .error .notDirectory
    | none => .error .noEntry

def locate (fs : FileStore) (p : Path) : Except Refusal Route :=
  fs.follow (if p.isAbsolute then [] else fs.here) p.names

def find (fs : FileStore) (p : Path) : Except FileError Entry :=
  match fs.locate p with
  | .error refusal => .error ⟨refusal, p⟩
  | .ok r =>
    match fs.entry? r with
    | some e => .ok e
    | none => .error ⟨.noEntry, p⟩

/-- Is there anything at the path? -/
def hasEntry (fs : FileStore) (p : Path) : Bool :=
  match fs.find p with
  | .ok _ => true
  | .error _ => false

/-- Is there a directory at the path? -/
def hasDirectory (fs : FileStore) (p : Path) : Bool :=
  match fs.find p with
  | .ok (.directory _) => true
  | _ => false

/-- Is there a file at the path? -/
def hasFile (fs : FileStore) (p : Path) : Bool :=
  match fs.find p with
  | .ok (.file _ _) => true
  | _ => false

/-- Is the path refused before anything is looked up, for a null character in a name? A store that has an
    entry there all the same knows the path. -/
def refuses (fs : FileStore) (p : Path) : Bool := p.hasNull && !fs.hasEntry p

/-- When the entry at the path was last changed. -/
def modified (fs : FileStore) (p : Path) : Except FileError Int :=
  Entry.modified <$> fs.find p

def readBytes (fs : FileStore) (p : Path) : Except FileError (List UInt8) :=
  match fs.find p with
  | .ok (.file content _) => .ok content
  | .ok (.directory _) => .error ⟨.isDirectory, p⟩
  | .error e => .error e

/-- The text of a file, its lines ended by line feeds. -/
def readText (fs : FileStore) (p : Path) : Except ReadError String :=
  match fs.readBytes p with
  | .error e => .error (.refused e)
  | .ok bytes =>
    match Text.Utf8.decode bytes with
    | .error e => .error (.notUtf8 e)
    | .ok cs => .ok (String.ofList (Text.withLineFeeds cs))

end FileStore

/-! ## Changing -/

/-- What changes a store. A refusal leaves the changes made before it. -/
abbrev FileAction := EStateM FileError FileStore

namespace FileStore

/-- Add an entry at a route that has none. -/
def add (fs : FileStore) (r : Route) (e : Entry) : FileStore := (fs.touchParent r).put r e

def makeDirectory (p : Path) : FileAction Unit := fun fs =>
  match fs.locate p with
  | .error refusal => .error ⟨refusal, p⟩ fs
  | .ok r =>
    match fs.entry? r with
    | some _ => .error ⟨.alreadyThere, p⟩ fs
    | none => .ok () (fs.add r (.directory fs.clock))

/-- Make a directory if there is none yet. -/
def ensureDirectory (p : Path) : FileAction Unit := fun fs =>
  match makeDirectory p fs with
  | .ok () fs' => .ok () fs'
  | .error e fs' =>
    if e.refusal ≠ .noEntry ∧ fs'.hasDirectory p then .ok () fs' else .error e fs'

/-- Make a directory and those on the way to it, where there are none yet. -/
def makeDirectories (p : Path) : FileAction Unit := fun fs =>
  match ensureDirectory p fs with
  | .ok () fs' => .ok () fs'
  | .error e fs' =>
    if e.refusal = .noEntry ∧ p.names ≠ [] then
      match makeDirectories p.parent fs' with
      | .ok () fs'' => ensureDirectory p fs''
      | .error e fs'' => .error e fs''
    else .error e fs'
termination_by p.names.length
decreasing_by
  rename_i h
  have := List.length_pos_iff.2 h.2
  simp only [Path.parent, List.length_dropLast]
  omega

/-- Write a file, which is made if it is not there. -/
def writeBytes (p : Path) (content : List UInt8) : FileAction Unit := fun fs =>
  match fs.locate p with
  | .error refusal => .error ⟨refusal, p⟩ fs
  | .ok r =>
    match fs.entry? r with
    | some (.directory _) => .error ⟨.isDirectory, p⟩ fs
    | some (.file _ _) => .ok () (fs.put r (.file content fs.clock))
    | none => .ok () (fs.add r (.file content fs.clock))

def writeText (p : Path) (text : String) : FileAction Unit :=
  writeBytes p (Text.Utf8.encode text.toList)

/-- Set the time at which an entry was last changed. -/
def stamp (p : Path) (time : Int) : FileAction Unit := fun fs =>
  match fs.locate p with
  | .error refusal => .error ⟨refusal, p⟩ fs
  | .ok r =>
    match fs.entry? r with
    | some e => .ok () (fs.put r (e.stamped time))
    | none => .error ⟨.noEntry, p⟩ fs

def remove (p : Path) : FileAction Unit := fun fs =>
  match fs.locate p with
  | .error refusal => .error ⟨refusal, p⟩ fs
  | .ok r =>
    match fs.entry? r with
    | some (.file _ _) => .ok () ((fs.touchParent r).erase r)
    | some (.directory _) => .error ⟨.isDirectory, p⟩ fs
    | none => .error ⟨.noEntry, p⟩ fs

end FileStore

end IdlFront
