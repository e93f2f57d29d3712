import IdlFront.Tree

/-! # Walking a tree

A visitor holds what to do at each class of nodes, for the classes it cares about, and a walk does it
in the order of the text.

* `Visitor` — an action on some state for each class of nodes, where wanted.
* `walk` — the actions of a visitor at every node of a tree: attributes before what they are attached
  to, a declaration before what it contains.
-/

namespace IdlFront

variable {σ : Type}

/-- Actions on a state, one for each class of nodes; `none` where the class is of no interest. -/
structure Visitor (σ : Type) where
  onNamespace : Option (Namespace → σ → σ) := none
  onEnum : Option (EnumDecl → σ → σ) := none
  onEnumMember : Option (EnumMember → σ → σ) := none
  onDelegate : Option (DelegateDecl → σ → σ) := none
  onStruct : Option (StructDecl → σ → σ) := none
  onInterface : Option (InterfaceDecl → σ → σ) := none
  onAttribute : Option (Attribute → σ → σ) := none

/-- Do an action at a node, if there is one. -/
def visit {α : Type} (action : Option (α → σ → σ)) (node : α) (s : σ) : σ :=
  match action with
  | some f => f node s
  | none => s

def visitAll {α : Type} (action : Option (α → σ → σ)) (nodes : List α) (s : σ) : σ :=
  nodes.foldl (fun s node => visit action node s) s

def EnumMember.walk (v : Visitor σ) (m : EnumMember) (s : σ) : σ :=
  visit v.onEnumMember m (visitAll v.onAttribute m.attributes s)

/-- Walk an enumeration behind its attributes. -/
def EnumDecl.walk (v : Visitor σ) (d : EnumDecl) (s : σ) : σ :=
  d.members.foldl (fun s m => m.walk v s) (visit v.onEnum d s)

/-- Walk an interface behind its attributes. Of its members only the attributes are visited. -/
def InterfaceDecl.walk (v : Visitor σ) (d : InterfaceDecl) (s : σ) : σ :=
  d.members.foldl (fun s m => visitAll v.onAttribute m.attributes s) (visit v.onInterface d s)

mutual

def Namespace.walk (v : Visitor σ) : Namespace → σ → σ
  | ⟨name, ds, attributes, span⟩, s =>
    Declaration.walkAll v ds
      (visit v.onNamespace ⟨name, ds, attributes, span⟩ (visitAll v.onAttribute attributes s))

def Declaration.walk (v : Visitor σ) : Declaration → σ → σ
  | .namespace_ ns, s => ns.walk v s
  | .enum d, s => d.walk v (visitAll v.onAttribute d.attributes s)
  | .struct d, s => visit v.onStruct d (visitAll v.onAttribute d.attributes s)
  | .delegate d, s => visit v.onDelegate d (visitAll v.onAttribute d.attributes s)
  | .interface d, s => d.walk v (visitAll v.onAttribute d.attributes s)

def Declaration.walkAll (v : Visitor σ) : List Declaration → σ → σ
  | [], s => s
  | d :: ds, s => Declaration.walkAll v ds (d.walk v s)

end

def walk (v : Visitor σ) (tree : IdlFile) (s : σ) : σ :=
  tree.namespaces.foldl (fun s ns => ns.walk v s) s

end IdlFront
