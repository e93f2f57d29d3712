import IdlFront.Artifact.Encode
import IdlFront.Json.Display
import IdlFront.Json.Reader
import IdlFront.Schema

/-! # Trees from JSON

The schema of artifacts, node by node. Unknown fields are ignored, some fields may be missing, and all
faults of a text are found in one pass, in the order of the fields of each node.

* `Json.required`, `Json.optional` — a field of a node.
* `IdlFile.check` — the tree that fields denote.
* `ArtifactError` — why a text is no artifact.
* `Artifact.deserialize` — the tree of an artifact's text.
-/

namespace IdlFront

/-! ## Fields -/

namespace Json

def toScalar : Json → Scalar
  | .null => .null
  | .bool b => .bool b
  | .integer n => .integer n
  | .real x => .real x
  | .string s => .text s
  | .array _ | .object _ => .other

def checkText (j : Json) : Checked String := j.toScalar.toText

def checkInteger (j : Json) : Checked Int := j.toScalar.toInteger

def checkBool (j : Json) : Checked Bool := j.toScalar.toBool

def checkList {α : Type} (item : Json → Checked α) : Json → Checked (List α)
  | .array items => Checked.items 0 (items.map item)
  | _ => .fail .listType

def checkWord {α : Type} (ofLabel? : String → Option α) (kind : FaultKind) : Json → Checked α
  | .string s =>
    match ofLabel? s with
    | some a => .ok a
    | none => .fail kind
  | _ => .fail kind

/-- The value as a node, given by its fields. -/
def checkNode {α : Type} (node : Fields → Checked α) : Json → Checked α
  | .object fields => node fields
  | _ => .fail .modelType

variable {α : Type}

def required (fields : Fields) (key : String) (check : Json → Checked α) : Checked α :=
  match fields.get? key with
  | some v => (check v).within (.key key)
  | none => .faulty [⟨[.key key], .missing⟩]

/-- A field that may be missing, with the value it has then. -/
def optional (fields : Fields) (key : String) (default : α) (check : Json → Checked α) : Checked α :=
  match fields.get? key with
  | some v => (check v).within (.key key)
  | none => .ok default

/-- A check that lets `null` stand for no value. -/
def nullable (check : Json → Checked α) : Json → Checked (Option α)
  | .null => .ok none
  | j => some <$> check j

end Json

open Json

/-! ## Parts of declarations -/

def Span.check : Json → Checked Span := checkNode fun fields =>
  Span.mk <$> required fields "line" checkInteger <*> required fields "column" checkInteger
    <*> required fields "start" checkInteger <*> required fields "end" checkInteger

/-- The field that holds the span of a node. -/
def spanOf (fields : Fields) : Checked Span := required fields "span" Span.check

/-- The field that holds the name of a node. -/
def nameOf (fields : Fields) : Checked String := required fields "name" checkText

def Literal.check : Json → Checked Literal := checkNode fun fields =>
  Literal.mk <$> required fields "kind" (checkWord LiteralKind.ofLabel? .enumError)
    <*> required fields "text" checkText <*> spanOf fields

def TypeRef.check : Json → Checked TypeRef
  | .object fields =>
    TypeRef.mk <$> nameOf fields
      <*> (match _found : Fields.get? fields "type_arguments" with
        | none => .ok []
        | some (.array items) =>
          (Checked.items 0 (items.attach.map fun ⟨j, _⟩ => TypeRef.check j)).within
            (.key "type_arguments")
        | some _ => (Checked.fail .listType).within (.key "type_arguments"))
      <*> optional fields "is_array" false checkBool <*> spanOf fields
  | _ => .fail .modelType
termination_by j => j.size
decreasing_by
  have := size_lt_of_get? _found
  have := size_lt_of_mem ‹_›
  omega

def Parameter.check : Json → Checked Parameter := checkNode fun fields =>
  Parameter.mk <$> nameOf fields <*> required fields "type" TypeRef.check
    <*> optional fields "modifier" none (nullable (checkWord Modifier.ofLabel? .enumError))
    <*> spanOf fields

def Attribute.check : Json → Checked Attribute := checkNode fun fields =>
  Attribute.mk <$> nameOf fields <*> optional fields "arguments" [] (checkList Literal.check)
    <*> spanOf fields

/-- The field that holds the attributes of a node. -/
def attributesOf (fields : Fields) : Checked (List Attribute) :=
  optional fields "attributes" [] (checkList Attribute.check)

def parametersOf (fields : Fields) : Checked (List Parameter) :=
  optional fields "parameters" [] (checkList Parameter.check)

/-! ## Declarations -/

/-- An enum member has an integral value or none. -/
def checkInitializer : Option Literal → Checked (Option Literal)
  | none => .ok none
  | some l =>
    if l.kind.isIntegral then .ok (some l)
    else .fail (.valueError ("enum initializer must be an integer literal, not " ++ l.kind.label))

def EnumMember.check : Json → Checked EnumMember := checkNode fun fields =>
  EnumMember.mk <$> nameOf fields
    <*> optional fields "value" none (fun j => (nullable Literal.check j).andThen checkInitializer)
    <*> attributesOf fields <*> spanOf fields

def EnumDecl.check (fields : Fields) : Checked EnumDecl :=
  EnumDecl.mk <$> nameOf fields <*> optional fields "members" [] (checkList EnumMember.check)
    <*> attributesOf fields <*> spanOf fields

def StructField.check : Json → Checked StructField := checkNode fun fields =>
  StructField.mk <$> nameOf fields <*> required fields "type" TypeRef.check <*> spanOf fields

def StructDecl.check (fields : Fields) : Checked StructDecl :=
  StructDecl.mk <$> nameOf fields <*> optional fields "fields" [] (checkList StructField.check)
    <*> attributesOf fields <*> spanOf fields

def DelegateDecl.check (fields : Fields) : Checked DelegateDecl :=
  DelegateDecl.mk <$> nameOf fields <*> required fields "return_type" TypeRef.check
    <*> parametersOf fields <*> attributesOf fields <*> spanOf fields

def Method.check (fields : Fields) : Checked Method :=
  Method.mk <$> nameOf fields <*> required fields "return_type" TypeRef.check
    <*> parametersOf fields <*> attributesOf fields <*> spanOf fields

def Property.check (fields : Fields) : Checked Property :=
  Property.mk <$> nameOf fields <*> required fields "type" TypeRef.check
    <*> optional fields "accessors" Accessor.all
      (checkList (checkWord Accessor.ofLabel? .literalError))
    <*> attributesOf fields <*> spanOf fields

def Event.check (fields : Fields) : Checked Event :=
  Event.mk <$> nameOf fields <*> required fields "type" TypeRef.check
    <*> attributesOf fields <*> spanOf fields

/-- A node of one of several classes, told apart by its `kind`. Its faults name the class. -/
def checkTagged {α : Type} (node : String → Option (Fields → Checked α)) : Json → Checked α
  | .object fields =>
    match Fields.get? fields "kind" with
    | none => .fail .unionTagNotFound
    | some (.string tag) =>
      match node tag with
      | some check => (check fields).within (.key tag)
      | none => .fail .unionTagInvalid
    | some _ => .fail .unionTagInvalid
  | _ => .fail .modelAttributesType

def InterfaceMember.classOf? : String → Option (Fields → Checked InterfaceMember)
  | "method" => some fun fields => InterfaceMember.method <$> Method.check fields
  | "property" => some fun fields => InterfaceMember.property <$> Property.check fields
  | "event" => some fun fields => InterfaceMember.event <$> Event.check fields
  | _ => none

def InterfaceDecl.check (fields : Fields) : Checked InterfaceDecl :=
  InterfaceDecl.mk <$> nameOf fields <*> optional fields "bases" [] (checkList TypeRef.check)
    <*> optional fields "members" [] (checkList (checkTagged InterfaceMember.classOf?))
    <*> attributesOf fields <*> spanOf fields

/-- The class of declarations with a tag, given that of namespaces. -/
def Declaration.classOf? (namespace_ : Fields → Checked Namespace) :
    String → Option (Fields → Checked Declaration)
  | "namespace" => some fun fields => Declaration.namespace_ <$> namespace_ fields
  | "enum" => some fun fields => Declaration.enum <$> EnumDecl.check fields
  | "struct" => some fun fields => Declaration.struct <$> StructDecl.check fields
  | "delegate" => some fun fields => Declaration.delegate <$> DelegateDecl.check fields
  | "interface" => some fun fields => Declaration.interface <$> InterfaceDecl.check fields
  | _ => none

def namespaceKind (fields : Fields) : Checked Unit :=
  optional fields "kind" () (checkWord (fun s => if s = "namespace" then some () else none)
    .literalError)

mutual

def Namespace.check (fields : Fields) : Checked Namespace :=
  (fun _ name ds attributes span => ⟨name, ds, attributes, span⟩) <$> namespaceKind fields
    <*> required fields "name" (checkList checkText)
    <*> (match _found : Fields.get? fields "declarations" with
      | none => .ok []
      | some (.array items) =>
        (Checked.items 0 (items.attach.map fun ⟨j, _⟩ => Declaration.check j)).within
          (.key "declarations")
      | some _ => (Checked.fail .listType).within (.key "declarations"))
    <*> attributesOf fields <*> spanOf fields
termination_by (Json.object fields).size
decreasing_by
  have := size_lt_of_get? _found
  have := size_lt_of_mem ‹_›
  omega

def Declaration.check : Json → Checked Declaration
  | .object fields =>
    checkTagged (Declaration.classOf? fun _ => Namespace.check fields) (.object fields)
  | _ => .fail .modelAttributesType
termination_by j => j.size + 1

end

/-! ## Files -/

def Import.check : Json → Checked Import := checkNode fun fields =>
  Import.mk <$> required fields "path" checkText <*> spanOf fields

def IdlFile.check (fields : Fields) : Checked IdlFile :=
  IdlFile.mk <$> optional fields "imports" [] (checkList Import.check)
    <*> optional fields "namespaces" [] (checkList (checkNode Namespace.check))

/-! ## Artifacts -/

/-- Why a text is no artifact. -/
inductive ArtifactError where
  | notJson
  | notAnObject
  | unsupportedVersion (found : Json)
  | invalid (faults : List Fault)

/-- The wording of a refusal; details that are not part of it follow after a colon. -/
def ArtifactError.message : ArtifactError → String
  | .notJson => "Artifact is not JSON"
  | .notAnObject => "Artifact must be a JSON object"
  | .unsupportedVersion found => "Unsupported artifact format version: " ++ found.display
  | .invalid _ => "Invalid artifact"

namespace Artifact

def deserialize (text : String) : Except ArtifactError IdlFile :=
  match Json.read? text with
  | none => .error .notJson
  | some (.object fields) =>
    match Fields.get? fields versionKey with
    | some (.string v) =>
      if v = version then
        (IdlFile.check (Fields.erase fields versionKey)).toExcept.mapError .invalid
      else .error (.unsupportedVersion (.string v))
    | found => .error (.unsupportedVersion (found.getD .null))
  | some _ => .error .notAnObject

end Artifact

end IdlFront
