import IdlFront.Text.Quoted

/-! # Paths

* `Path` — where it starts from, and the names on the way. A path keeps `..`, since what that means
  depends on what is there; names that are empty or `.` are dropped.
* `Path.ofText`, `Path.text` — paths as they are written.
* `Path.join`, `Path.parent`, `Path.stem`, `Path.relativeTo?` — paths from paths.
* `Path.hasNull` — no entry has a null character in its name.
* `Path.resolve` — the path without `..`, from a working directory.
* `Path.le` — the order of listings: name by name.
-/

namespace IdlFront

/-- Where a path starts: at the working directory, at the root, or at the root written twice. -/
inductive Anchor where
  | here
  | root
  | doubleRoot
  deriving DecidableEq, Repr

def Anchor.text : Anchor → String
  | .here => ""
  | .root => "/"
  | .doubleRoot => "//"

/-- A path: its start and the names on the way. -/
structure Path where
  anchor : Anchor
  names : List String
  deriving DecidableEq, Repr

namespace Path

/-! ## Text -/

def pieces (cs : List Char) : List (List Char) :=
  match cs with
  | [] => [[]]
  | '/' :: rest => [] :: pieces rest
  | c :: rest =>
    match pieces rest with
    | piece :: more => (c :: piece) :: more
    | [] => [[c]]

def namesOf (cs : List Char) : List String :=
  ((pieces cs).filter fun piece => piece ≠ [] ∧ piece ≠ ['.']).map String.ofList

/-- Where a text starts. Three slashes are as good as one, but two are not. -/
def anchorOf : List Char → Anchor
  | '/' :: '/' :: '/' :: _ => .root
  | '/' :: '/' :: _ => .doubleRoot
  | '/' :: _ => .root
  | _ => .here

def ofText (s : String) : Path := ⟨anchorOf s.toList, namesOf s.toList⟩

def text (p : Path) : String :=
  if p.anchor = .here ∧ p.names = [] then "."
  else p.anchor.text ++ "/".intercalate p.names

/-- Does the path not depend on the working directory? -/
def isAbsolute (p : Path) : Bool := p.anchor != .here

/-- Is there a null character in one of the names? To resolve such a path is an error of its own. -/
def hasNull (p : Path) : Bool := p.names.any fun name => name.toList.contains '\x00'

/-! ## Paths from paths -/

def join (p q : Path) : Path :=
  if q.isAbsolute then q else ⟨p.anchor, p.names ++ q.names⟩

def child (p : Path) (name : String) : Path := ⟨p.anchor, p.names ++ [name]⟩

/-- The path without its last name. -/
def parent (p : Path) : Path := ⟨p.anchor, p.names.dropLast⟩

/-- The last name. -/
def name (p : Path) : String := p.names.getLast?.getD ""

/-- A name without its suffix: the part before the last dot, unless that dot is the first or the
    last character. -/
def stemOf (cs : List Char) : List Char :=
  let behind := cs.reverse.takeWhile (· != '.')
  let front := cs.take (cs.length - behind.length - 1)
  if behind.length < cs.length ∧ behind ≠ [] ∧ front ≠ [] then front else cs

/-- The last name without its suffix. -/
def stem (p : Path) : String := String.ofList (stemOf p.name.toList)

/-- The way to the path from one above it. -/
def relativeTo? (p q : Path) : Option Path :=
  if p.anchor = q.anchor ∧ q.names <+: p.names then
    some ⟨.here, p.names.drop q.names.length⟩
  else none

/-- Is the path a place below another one? -/
def isBelow (p q : Path) : Bool :=
  p.anchor == q.anchor && q.names.isPrefixOf p.names && q.names.length < p.names.length

/-! ## Resolving -/

/-- The names on the way from a place, each `..` taking back the name before it. -/
def walkNames (start : List String) (names : List String) : List String :=
  names.foldl (fun way name => if name = ".." then way.dropLast else way ++ [name]) start

/-- The path without `..`, seen from a working directory. -/
def resolve (here : List String) (p : Path) : Path :=
  ⟨.root, walkNames (if p.isAbsolute then [] else here) p.names⟩

/-! ## Order -/

/-- Does a list of names come before another one, or is it the same? -/
def namesLe : List String → List String → Bool
  | [], _ => true
  | _ :: _, [] => false
  | a :: as, b :: bs => if a < b then true else if a = b then namesLe as bs else false

/-- Does a path come before another one in listings, or is it the same? Names are compared before
    the names below them. -/
def le (p q : Path) : Bool :=
  let whole (p : Path) : List String := if p.isAbsolute then p.anchor.text :: p.names else p.names
  namesLe (whole p) (whole q)

end Path

end IdlFront
