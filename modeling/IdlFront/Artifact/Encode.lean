import IdlFront.Json.Printer
import IdlFront.Tree

/-! # Trees as JSON

* `IdlFile.toJson` — a tree as a JSON object. Every field of a node is written, in a fixed order,
  absent values as `null`; declarations and interface members carry their `kind`.
* `Artifact.version`, `Artifact.serialize` — the text of an artifact: the tree's object with the
  version of the format in front.
-/

namespace IdlFront

def Span.toJson (s : Span) : Json :=
  .object [("line", .integer s.line), ("column", .integer s.column), ("start", .integer s.start),
    ("end", .integer s.stop)]

def Literal.toJson (l : Literal) : Json :=
  .object [("kind", .string l.kind.label), ("text", .string l.text), ("span", l.span.toJson)]

mutual

def TypeRef.toJson : TypeRef → Json
  | ⟨name, arguments, isArray, span⟩ =>
    .object [("name", .string name), ("type_arguments", .array (TypeRef.toJsonAll arguments)),
      ("is_array", .bool isArray), ("span", span.toJson)]

def TypeRef.toJsonAll : List TypeRef → List Json
  | [] => []
  | t :: ts => t.toJson :: TypeRef.toJsonAll ts

end

def Parameter.toJson (p : Parameter) : Json :=
  .object [("name", .string p.name), ("type", p.type.toJson),
    ("modifier", (p.modifier.map fun m => Json.string m.label).getD .null),
    ("span", p.span.toJson)]

def Attribute.toJson (a : Attribute) : Json :=
  .object [("name", .string a.name), ("arguments", .array (a.arguments.map Literal.toJson)),
    ("span", a.span.toJson)]

def attributesField (attributes : List Attribute) : String × Json :=
  ("attributes", .array (attributes.map Attribute.toJson))

def EnumMember.toJson (m : EnumMember) : Json :=
  .object [("name", .string m.name), ("value", (m.value.map Literal.toJson).getD .null),
    attributesField m.attributes, ("span", m.span.toJson)]

def EnumDecl.toJson (d : EnumDecl) : Json :=
  .object [("kind", .string "enum"), ("name", .string d.name),
    ("members", .array (d.members.map EnumMember.toJson)),
    attributesField d.attributes, ("span", d.span.toJson)]

def StructField.toJson (f : StructField) : Json :=
  .object [("name", .string f.name), ("type", f.type.toJson), ("span", f.span.toJson)]

def StructDecl.toJson (d : StructDecl) : Json :=
  .object [("kind", .string "struct"), ("name", .string d.name),
    ("fields", .array (d.fields.map StructField.toJson)),
    attributesField d.attributes, ("span", d.span.toJson)]

def DelegateDecl.toJson (d : DelegateDecl) : Json :=
  .object [("kind", .string "delegate"), ("name", .string d.name),
    ("return_type", d.returnType.toJson),
    ("parameters", .array (d.parameters.map Parameter.toJson)),
    attributesField d.attributes, ("span", d.span.toJson)]

def Method.toJson (m : Method) : Json :=
  .object [("kind", .string "method"), ("name", .string m.name),
    ("return_type", m.returnType.toJson),
    ("parameters", .array (m.parameters.map Parameter.toJson)),
    attributesField m.attributes, ("span", m.span.toJson)]

def Property.toJson (p : Property) : Json :=
  .object [("kind", .string "property"), ("name", .string p.name), ("type", p.type.toJson),
    ("accessors", .array (p.accessors.map fun a => .string a.label)),
    attributesField p.attributes, ("span", p.span.toJson)]

def Event.toJson (e : Event) : Json :=
  .object [("kind", .string "event"), ("name", .string e.name), ("type", e.type.toJson),
    attributesField e.attributes, ("span", e.span.toJson)]

def InterfaceMember.toJson : InterfaceMember → Json
  | .method m => m.toJson
  | .property p => p.toJson
  | .event e => e.toJson

def InterfaceDecl.toJson (d : InterfaceDecl) : Json :=
  .object [("kind", .string "interface"), ("name", .string d.name),
    ("bases", .array (d.bases.map TypeRef.toJson)),
    ("members", .array (d.members.map InterfaceMember.toJson)),
    attributesField d.attributes, ("span", d.span.toJson)]

mutual

def Namespace.toJson : Namespace → Json
  | ⟨name, ds, attributes, span⟩ =>
    .object [("kind", .string "namespace"), ("name", Json.strings name),
      ("declarations", .array (Declaration.toJsonAll ds)),
      attributesField attributes, ("span", span.toJson)]

def Declaration.toJson : Declaration → Json
  | .namespace_ ns => ns.toJson
  | .enum d => d.toJson
  | .struct d => d.toJson
  | .delegate d => d.toJson
  | .interface d => d.toJson

def Declaration.toJsonAll : List Declaration → List Json
  | [] => []
  | d :: ds => d.toJson :: Declaration.toJsonAll ds

end

def Import.toJson (i : Import) : Json :=
  .object [("path", .string i.path), ("span", i.span.toJson)]

def IdlFile.fields (tree : IdlFile) : Json.Fields :=
  [("imports", .array (tree.imports.map Import.toJson)),
   ("namespaces", .array (tree.namespaces.map Namespace.toJson))]

def IdlFile.toJson (tree : IdlFile) : Json := .object tree.fields

namespace Artifact

/-- The version of the format, as artifacts state it. -/
def version : String := "1"

def versionKey : String := "v"

def serialize (tree : IdlFile) : String :=
  (Json.object ((versionKey, .string version) :: tree.fields)).print

end Artifact

end IdlFront
