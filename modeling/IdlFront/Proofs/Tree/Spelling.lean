import IdlFront.Parser.State
import IdlFront.Proofs.Lexical.Names

/-! # How trees spell their sources

What the names and literals of a tree are in the source it comes from, class by class: declared names
are names, attributes and types have dotted names, and literals are the text that their spans cover.

* `Literal.SpelledIn`, `TypeRef.SpelledIn` — the leaves, and uses of types with their arguments.
* `Attribute.SpelledIn`, …, `Declaration.SpelledIn` — nodes whose names are such, and all below them.
* `IdlFile.SpelledIn` — whole trees.
-/

namespace IdlFront

open Lexical

variable (source : String)

/-! ## Parts of declarations -/

/-- A name is what its span reads as without trivia and rejected characters. Any other literal is the
    text of its span. -/
def Literal.SpelledIn (l : Literal) : Prop :=
  match l.kind with
  | .name => IsDottedName l.text ∧ ReadsAs source l.span.start l.span.stop l.text
  | _ => l.text = textBetween source l.span.start l.span.stop

/-- Either the keyword `void` alone, or a dotted name that starts with an identifier and is not
    `void`, perhaps with arguments. -/
inductive TypeRef.SpelledIn : TypeRef → Prop where
  | void {t : Token} :
      t ∈ (tokenize source).tokens → t.kind = .keyword .void →
      SpelledIn ⟨TypeRef.voidName, [], false, Parser.tokenSpan t⟩
  | named {t : Token} {name : String} {arguments : List TypeRef} {isArray : Bool} {span : Span} :
      t ∈ (tokenize source).tokens → t.kind = .identifier → t.offset = span.start →
      IsDottedName name → name ≠ TypeRef.voidName → (∀ a ∈ arguments, SpelledIn a) →
      SpelledIn ⟨name, arguments, isArray, span⟩

structure Parameter.SpelledIn (p : Parameter) : Prop where
  name : IsPlainName p.name
  type : p.type.SpelledIn source

structure Attribute.SpelledIn (a : Attribute) : Prop where
  name : IsDottedName a.name
  arguments : ∀ l ∈ a.arguments, l.SpelledIn source

/-! ## Declarations -/

structure EnumMember.SpelledIn (m : EnumMember) : Prop where
  name : IsPlainName m.name
  value : ∀ l ∈ m.value, l.SpelledIn source ∧ l.kind ∈ [.integer, .hex]
  attributes : ∀ a ∈ m.attributes, a.SpelledIn source

structure EnumDecl.SpelledIn (d : EnumDecl) : Prop where
  name : IsPlainName d.name
  members : ∀ m ∈ d.members, m.SpelledIn source
  attributes : ∀ a ∈ d.attributes, a.SpelledIn source

structure StructField.SpelledIn (f : StructField) : Prop where
  name : IsPlainName f.name
  type : f.type.SpelledIn source

structure StructDecl.SpelledIn (d : StructDecl) : Prop where
  name : IsPlainName d.name
  fields : ∀ f ∈ d.fields, f.SpelledIn source
  attributes : ∀ a ∈ d.attributes, a.SpelledIn source

structure DelegateDecl.SpelledIn (d : DelegateDecl) : Prop where
  name : IsPlainName d.name
  returnType : d.returnType.SpelledIn source
  parameters : ∀ p ∈ d.parameters, p.SpelledIn source
  attributes : ∀ a ∈ d.attributes, a.SpelledIn source

structure Method.SpelledIn (m : Method) : Prop where
  name : IsPlainName m.name
  returnType : m.returnType.SpelledIn source
  parameters : ∀ p ∈ m.parameters, p.SpelledIn source
  attributes : ∀ a ∈ m.attributes, a.SpelledIn source

/-- No accessor is there twice, and `Accessor` has none but `get` and `set`. -/
structure Property.SpelledIn (p : Property) : Prop where
  name : IsPlainName p.name
  type : p.type.SpelledIn source
  accessors : p.accessors.Nodup
  attributes : ∀ a ∈ p.attributes, a.SpelledIn source

structure Event.SpelledIn (e : Event) : Prop where
  name : IsPlainName e.name
  type : e.type.SpelledIn source
  attributes : ∀ a ∈ e.attributes, a.SpelledIn source

def InterfaceMember.SpelledIn : InterfaceMember → Prop
  | .method m => m.SpelledIn source
  | .property p => p.SpelledIn source
  | .event e => e.SpelledIn source

structure InterfaceDecl.SpelledIn (d : InterfaceDecl) : Prop where
  name : IsPlainName d.name
  bases : ∀ b ∈ d.bases, b.SpelledIn source
  members : ∀ m ∈ d.members, m.SpelledIn source
  attributes : ∀ a ∈ d.attributes, a.SpelledIn source

mutual

/-- One or more names, with what is declared behind them. -/
inductive Namespace.SpelledIn : Namespace → Prop where
  | mk {name : List String} {declarations : List Declaration} {attributes : List Attribute}
      {span : Span} :
      name ≠ [] → (∀ n ∈ name, IsPlainName n) → (∀ d ∈ declarations, Declaration.SpelledIn d) →
      (∀ a ∈ attributes, a.SpelledIn source) →
      Namespace.SpelledIn ⟨name, declarations, attributes, span⟩

inductive Declaration.SpelledIn : Declaration → Prop where
  | namespace_ {ns : Namespace} : Namespace.SpelledIn ns → Declaration.SpelledIn (.namespace_ ns)
  | enum {d : EnumDecl} : d.SpelledIn source → Declaration.SpelledIn (.enum d)
  | struct {d : StructDecl} : d.SpelledIn source → Declaration.SpelledIn (.struct d)
  | delegate {d : DelegateDecl} : d.SpelledIn source → Declaration.SpelledIn (.delegate d)
  | interface {d : InterfaceDecl} : d.SpelledIn source → Declaration.SpelledIn (.interface d)

end

def IdlFile.SpelledIn (tree : IdlFile) : Prop := ∀ ns ∈ tree.namespaces, ns.SpelledIn source

end IdlFront
