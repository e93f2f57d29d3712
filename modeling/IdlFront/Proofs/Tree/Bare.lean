import IdlFront.Tree

/-! # Trees without places

Every class of nodes has a bare form, in which all spans are the same one: trees are equal up to spans
if their bare forms are equal.
-/

namespace IdlFront

/-- The span that stands for all others. -/
def Span.bare (_ : Span) : Span := ⟨0, 0, 0, 0⟩

def Literal.bare (l : Literal) : Literal := { l with span := l.span.bare }

mutual

def TypeRef.bare : TypeRef → TypeRef
  | ⟨name, arguments, isArray, span⟩ => ⟨name, TypeRef.allBare arguments, isArray, span.bare⟩

def TypeRef.allBare : List TypeRef → List TypeRef
  | [] => []
  | t :: ts => t.bare :: TypeRef.allBare ts

end

theorem TypeRef.allBare_eq (ts : List TypeRef) : TypeRef.allBare ts = ts.map TypeRef.bare := by
  induction ts with
  | nil => rfl
  | cons t ts ih => rw [allBare, ih, List.map_cons]

def Parameter.bare (p : Parameter) : Parameter := { p with type := p.type.bare, span := p.span.bare }

def Attribute.bare (a : Attribute) : Attribute :=
  { a with arguments := a.arguments.map Literal.bare, span := a.span.bare }

def EnumMember.bare (m : EnumMember) : EnumMember :=
  ⟨m.name, m.value.map Literal.bare, m.attributes.map Attribute.bare, m.span.bare⟩

def EnumDecl.bare (d : EnumDecl) : EnumDecl :=
  ⟨d.name, d.members.map EnumMember.bare, d.attributes.map Attribute.bare, d.span.bare⟩

def StructField.bare (f : StructField) : StructField :=
  { f with type := f.type.bare, span := f.span.bare }

def StructDecl.bare (d : StructDecl) : StructDecl :=
  ⟨d.name, d.fields.map StructField.bare, d.attributes.map Attribute.bare, d.span.bare⟩

def DelegateDecl.bare (d : DelegateDecl) : DelegateDecl :=
  ⟨d.name, d.returnType.bare, d.parameters.map Parameter.bare, d.attributes.map Attribute.bare,
    d.span.bare⟩

def InterfaceMember.bare : InterfaceMember → InterfaceMember
  | .method m => .method ⟨m.name, m.returnType.bare, m.parameters.map Parameter.bare,
      m.attributes.map Attribute.bare, m.span.bare⟩
  | .property p => .property ⟨p.name, p.type.bare, p.accessors, p.attributes.map Attribute.bare,
      p.span.bare⟩
  | .event e => .event ⟨e.name, e.type.bare, e.attributes.map Attribute.bare, e.span.bare⟩

def InterfaceDecl.bare (d : InterfaceDecl) : InterfaceDecl :=
  ⟨d.name, d.bases.map TypeRef.bare, d.members.map InterfaceMember.bare,
    d.attributes.map Attribute.bare, d.span.bare⟩

mutual

def Namespace.bare : Namespace → Namespace
  | ⟨name, ds, attributes, span⟩ =>
    ⟨name, Declaration.allBare ds, attributes.map Attribute.bare, span.bare⟩

def Declaration.bare : Declaration → Declaration
  | .namespace_ ns => .namespace_ ns.bare
  | .enum d => .enum d.bare
  | .struct d => .struct d.bare
  | .delegate d => .delegate d.bare
  | .interface d => .interface d.bare

def Declaration.allBare : List Declaration → List Declaration
  | [] => []
  | d :: ds => d.bare :: Declaration.allBare ds

end

theorem Declaration.allBare_eq (ds : List Declaration) :
    Declaration.allBare ds = ds.map Declaration.bare := by
  induction ds with
  | nil => rfl
  | cons d ds ih => rw [allBare, ih, List.map_cons]

def Import.bare (i : Import) : Import := { i with span := i.span.bare }

/-- The tree with all spans taken out. -/
def IdlFile.bare (tree : IdlFile) : IdlFile :=
  ⟨tree.imports.map Import.bare, tree.namespaces.map Namespace.bare⟩

end IdlFront
