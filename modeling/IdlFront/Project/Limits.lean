import IdlFront.Files.Store
import IdlFront.Tree

/-! # Limits

A platform does not cope with everything: a path can be too long for its file system, and data can be nested
too deep to be read, parsed or written.

* `Limits` — what is too much for a platform. There are no limits unless a statement is made for given ones.
* `Breakdown` — what ends a run although nothing in the program is prepared for it.
-/

namespace IdlFront

/-- What is too much for a platform: a search for patterns in a directory, a path to ask about or to make
    something at, a text to read as JSON, a source text to parse, or a tree to write. -/
class Limits where
  search : FileStore → List String → Path → Bool
  lookup : FileStore → Path → Bool
  make : FileStore → Path → Bool
  json : String → Bool
  source : String → Bool
  tree : IdlFile → Bool

namespace Limits

/-- No limits. -/
instance unlimited : Limits where
  search _ _ _ := false
  lookup _ _ := false
  make _ _ := false
  json _ := false
  source _ := false
  tree _ := false

variable {fs : FileStore} {patterns : List String} {p : Path} {text : String} {t : IdlFile}

@[simp] theorem search_unlimited : Limits.search fs patterns p = false := rfl

@[simp] theorem lookup_unlimited : Limits.lookup fs p = false := rfl

@[simp] theorem make_unlimited : Limits.make fs p = false := rfl

@[simp] theorem json_unlimited : Limits.json text = false := rfl

@[simp] theorem source_unlimited : Limits.source text = false := rfl

@[simp] theorem tree_unlimited : Limits.tree t = false := rfl

end Limits

/-- What ends a run although nothing is prepared for it: a null character in a name that something is asked
    about, or a limit of the platform. -/
inductive Breakdown where
  | nullCharacter
  | limit
  deriving DecidableEq, Repr

def Breakdown.message : Breakdown → String
  | .nullCharacter => "embedded null byte"
  | .limit => "beyond the limits of the platform"

end IdlFront
