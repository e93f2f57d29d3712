import IdlFront.Tree.Walk

/-! # Names in a tree

* `NameSet` — a set of texts, kept as an increasing list.
* `NameIndex` — the names and literal texts of a tree, in three sets.
* `collectNames` — the index of a tree.
-/

namespace IdlFront

/-! ## Sets of texts -/

/-- A set of texts in increasing order of their code points. -/
abbrev NameSet := List String

def NameSet.insert (x : String) : NameSet → NameSet
  | [] => [x]
  | y :: ys => if x < y then x :: y :: ys else if x = y then y :: ys else y :: insert x ys

def NameSet.insertAll (xs : List String) (set : NameSet) : NameSet :=
  xs.foldl (fun set x => set.insert x) set

/-! ## The index -/

/-- The qualified names of namespaces; the names of enumerations and of their members and the texts
    of their values; and the texts of attribute arguments. -/
structure NameIndex where
  namespaces : NameSet
  enums : NameSet
  expressions : NameSet
  deriving DecidableEq, Repr

namespace NameIndex

def empty : NameIndex := ⟨[], [], []⟩

def addNamespace (ns : Namespace) (index : NameIndex) : NameIndex :=
  { index with namespaces := index.namespaces.insert ns.qualifiedName }

def addEnum (d : EnumDecl) (index : NameIndex) : NameIndex :=
  { index with enums := index.enums.insert d.name }

def addEnumMember (m : EnumMember) (index : NameIndex) : NameIndex :=
  { index with
    enums := (index.enums.insert m.name).insertAll (m.value.toList.map Literal.text) }

def addAttribute (a : Attribute) (index : NameIndex) : NameIndex :=
  { index with expressions := index.expressions.insertAll (a.arguments.map Literal.text) }

def visitor : Visitor NameIndex :=
  { onNamespace := some addNamespace
    onEnum := some addEnum
    onEnumMember := some addEnumMember
    onAttribute := some addAttribute }

end NameIndex

def collectNames (tree : IdlFile) : NameIndex := walk NameIndex.visitor tree .empty

end IdlFront
