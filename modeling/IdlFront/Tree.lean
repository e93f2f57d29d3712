/-! # Parse trees

The syntax tree of one source text. Every node that the text spells out has a `Span`.

* `Literal`, `TypeRef`, `Parameter`, `Attribute` — the parts that declarations are made of.
* `EnumDecl`, `StructDecl`, `DelegateDecl`, `InterfaceDecl`, `Namespace` — what can be declared.
* `Declaration` — any of these, as the body of a namespace holds them.
* `IdlFile` — the imports and namespaces of a text.

All node types have decidable equality.
-/

namespace IdlFront

/-! ## Places -/

/-- The text that a node covers: where it starts, by line and column counted from one and by offset,
    and the offset after its last character. -/
structure Span where
  line : Int
  column : Int
  start : Int
  stop : Int
  deriving DecidableEq, Repr

/-- Does the second span lie within the first? -/
def Span.contains (a b : Span) : Bool := a.start ≤ b.start && b.stop ≤ a.stop

/-! ## Parts of declarations -/

/-- The kinds of literals. A name stands where a literal could. -/
inductive LiteralKind where
  | uuid | integer | hex | float | string | name
  deriving DecidableEq, Repr

namespace LiteralKind

def all : List LiteralKind := [.uuid, .integer, .hex, .float, .string, .name]

def label : LiteralKind → String
  | .uuid => "uuid"
  | .integer => "integer"
  | .hex => "hex"
  | .float => "float"
  | .string => "string"
  | .name => "name"

def ofLabel? (s : String) : Option LiteralKind := all.find? fun k => k.label == s

/-- May a literal of this kind be the value of an enum member? -/
def isIntegral : LiteralKind → Bool
  | .integer | .hex => true
  | _ => false

end LiteralKind

/-- A literal exactly as it is written. -/
structure Literal where
  kind : LiteralKind
  text : String
  span : Span
  deriving DecidableEq, Repr

/-- A use of a type: its dotted name, what it is applied to, and whether it is an array of these. -/
structure TypeRef where
  name : String
  arguments : List TypeRef
  isArray : Bool
  span : Span

def TypeRef.voidName : String := "void"

/-- Is it the type without values? -/
def TypeRef.isVoid (t : TypeRef) : Bool := t.name == voidName

/-- How an argument is passed, where it is not by value. -/
inductive Modifier where
  | ref | constRef | out
  deriving DecidableEq, Repr

namespace Modifier

def all : List Modifier := [.ref, .constRef, .out]

def label : Modifier → String
  | .ref => "ref"
  | .constRef => "const ref"
  | .out => "out"

def ofLabel? (s : String) : Option Modifier := all.find? fun m => m.label == s

end Modifier

/-- A parameter of a delegate or method. -/
structure Parameter where
  name : String
  type : TypeRef
  modifier : Option Modifier
  span : Span

/-- An attribute attached to what follows it. -/
structure Attribute where
  name : String
  arguments : List Literal
  span : Span
  deriving DecidableEq, Repr

/-! ## Declarations -/

/-- A member of an enumeration. -/
structure EnumMember where
  name : String
  value : Option Literal
  attributes : List Attribute
  span : Span
  deriving DecidableEq, Repr

/-- An enumeration. -/
structure EnumDecl where
  name : String
  members : List EnumMember
  attributes : List Attribute
  span : Span
  deriving DecidableEq, Repr

/-- A field of a struct. -/
structure StructField where
  name : String
  type : TypeRef
  span : Span

/-- A struct. -/
structure StructDecl where
  name : String
  fields : List StructField
  attributes : List Attribute
  span : Span

/-- A delegate: the signature of a callback. -/
structure DelegateDecl where
  name : String
  returnType : TypeRef
  parameters : List Parameter
  attributes : List Attribute
  span : Span

/-- A method of an interface. -/
structure Method where
  name : String
  returnType : TypeRef
  parameters : List Parameter
  attributes : List Attribute
  span : Span

/-- The two accessors of a property. -/
inductive Accessor where
  | get | set
  deriving DecidableEq, Repr

namespace Accessor

/-- Both accessors, which a property has if it names none. -/
def all : List Accessor := [.get, .set]

def label : Accessor → String
  | .get => "get"
  | .set => "set"

def ofLabel? (s : String) : Option Accessor := all.find? fun a => a.label == s

end Accessor

/-- A property of an interface. -/
structure Property where
  name : String
  type : TypeRef
  accessors : List Accessor
  attributes : List Attribute
  span : Span

/-- An event of an interface. -/
structure Event where
  name : String
  type : TypeRef
  attributes : List Attribute
  span : Span

/-- A member of an interface. -/
inductive InterfaceMember where
  | method (m : Method)
  | property (p : Property)
  | event (e : Event)

def InterfaceMember.attributes : InterfaceMember → List Attribute
  | .method m => m.attributes
  | .property p => p.attributes
  | .event e => e.attributes

/-- An interface. -/
structure InterfaceDecl where
  name : String
  bases : List TypeRef
  members : List InterfaceMember
  attributes : List Attribute
  span : Span

mutual

/-- A namespace, named by one or more segments, and what is declared in it. -/
structure Namespace where
  name : List String
  declarations : List Declaration
  attributes : List Attribute
  span : Span

/-- What the body of a namespace can declare. -/
inductive Declaration where
  | namespace_ (ns : Namespace)
  | enum (d : EnumDecl)
  | struct (d : StructDecl)
  | delegate (d : DelegateDecl)
  | interface (d : InterfaceDecl)

end

/-- The name of a namespace, its segments joined by dots. -/
def Namespace.qualifiedName (ns : Namespace) : String := ".".intercalate ns.name

def Declaration.attributes : Declaration → List Attribute
  | .namespace_ ns => ns.attributes
  | .enum d => d.attributes
  | .struct d => d.attributes
  | .delegate d => d.attributes
  | .interface d => d.attributes

/-- An import of another file, by the path that the literal between the quotes denotes. -/
structure Import where
  path : String
  span : Span
  deriving DecidableEq, Repr

/-- The tree of one source text. -/
structure IdlFile where
  imports : List Import
  namespaces : List Namespace

def IdlFile.empty : IdlFile := ⟨[], []⟩

/-! ## Equality

Types and namespaces contain lists of themselves, so their equality is decided together with that of
such lists. -/

mutual

def TypeRef.decEq : (a b : TypeRef) → Decidable (a = b)
  | ⟨n, as, r, s⟩, ⟨m, bs, q, t⟩ =>
    match decEqList as bs with
    | isFalse h => isFalse fun e => h (by cases e; rfl)
    | isTrue h =>
      if hr : n = m ∧ r = q ∧ s = t then isTrue (by obtain ⟨rfl, rfl, rfl⟩ := hr; rw [h])
      else isFalse fun e => hr (by cases e; exact ⟨rfl, rfl, rfl⟩)

def TypeRef.decEqList : (as bs : List TypeRef) → Decidable (as = bs)
  | [], [] => isTrue rfl
  | [], _ :: _ => isFalse fun e => by cases e
  | _ :: _, [] => isFalse fun e => by cases e
  | a :: as, b :: bs =>
    match TypeRef.decEq a b with
    | isFalse h => isFalse fun e => h (by cases e; rfl)
    | isTrue h =>
      match decEqList as bs with
      | isFalse hs => isFalse fun e => hs (by cases e; rfl)
      | isTrue hs => isTrue (by rw [h, hs])

end

instance : DecidableEq TypeRef := TypeRef.decEq

deriving instance DecidableEq for
  Parameter, StructField, StructDecl, DelegateDecl, Method, Property, Event, InterfaceMember,
  InterfaceDecl

mutual

def Namespace.decEq : (a b : Namespace) → Decidable (a = b)
  | ⟨n, ds, as, s⟩, ⟨m, es, bs, t⟩ =>
    match Declaration.decEqList ds es with
    | isFalse h => isFalse fun e => h (by cases e; rfl)
    | isTrue h =>
      if hr : n = m ∧ as = bs ∧ s = t then isTrue (by obtain ⟨rfl, rfl, rfl⟩ := hr; rw [h])
      else isFalse fun e => hr (by cases e; exact ⟨rfl, rfl, rfl⟩)

def Declaration.decEq : (a b : Declaration) → Decidable (a = b)
  | .namespace_ a, .namespace_ b =>
    match Namespace.decEq a b with
    | isFalse h => isFalse fun e => h (by cases e; rfl)
    | isTrue h => isTrue (by rw [h])
  | .enum a, .enum b =>
    if h : a = b then isTrue (by rw [h]) else isFalse fun e => h (by cases e; rfl)
  | .struct a, .struct b =>
    if h : a = b then isTrue (by rw [h]) else isFalse fun e => h (by cases e; rfl)
  | .delegate a, .delegate b =>
    if h : a = b then isTrue (by rw [h]) else isFalse fun e => h (by cases e; rfl)
  | .interface a, .interface b =>
    if h : a = b then isTrue (by rw [h]) else isFalse fun e => h (by cases e; rfl)
  | .namespace_ _, .enum _ | .namespace_ _, .struct _ | .namespace_ _, .delegate _
  | .namespace_ _, .interface _ | .enum _, .namespace_ _ | .enum _, .struct _
  | .enum _, .delegate _ | .enum _, .interface _ | .struct _, .namespace_ _ | .struct _, .enum _
  | .struct _, .delegate _ | .struct _, .interface _ | .delegate _, .namespace_ _
  | .delegate _, .enum _ | .delegate _, .struct _ | .delegate _, .interface _
  | .interface _, .namespace_ _ | .interface _, .enum _ | .interface _, .struct _
  | .interface _, .delegate _ => isFalse fun e => by cases e

def Declaration.decEqList : (as bs : List Declaration) → Decidable (as = bs)
  | [], [] => isTrue rfl
  | [], _ :: _ => isFalse fun e => by cases e
  | _ :: _, [] => isFalse fun e => by cases e
  | a :: as, b :: bs =>
    match Declaration.decEq a b with
    | isFalse h => isFalse fun e => h (by cases e; rfl)
    | isTrue h =>
      match Declaration.decEqList as bs with
      | isFalse hs => isFalse fun e => hs (by cases e; rfl)
      | isTrue hs => isTrue (by rw [h, hs])

end

instance : DecidableEq Namespace := Namespace.decEq

instance : DecidableEq Declaration := Declaration.decEq

deriving instance DecidableEq for IdlFile

end IdlFront
