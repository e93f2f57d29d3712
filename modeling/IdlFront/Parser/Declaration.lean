import IdlFront.Parser.Attribute
import IdlFront.Parser.Recovery

/-! # Declarations

The parsers of everything that a namespace can declare. Each takes the first token of the declaration
and its attributes, which have been read before it is known what is declared.

* `Parser.enumDecl` — members with commas between them.
* `Parser.structDecl`, `Parser.delegateDecl`, `Parser.interfaceDecl`.
* `Parser.accessors` — the accessor block of a property.
* `Parser.namespaceDecl`, `Parser.declaration` — namespaces and the declarations in them.
-/

namespace IdlFront.Parser

/-! ## Enumerations -/

/-- Token kinds that an initializer may not have but that are read as one. -/
def isMistakenInitializer : TokenKind → Bool
  | .float | .string | .uuid | .identifier => true
  | _ => false

/-- The value of an enum member. A literal or name that is no integer is reported and read, and the
    member has no value. -/
def initializer : Parser (Option Literal) := do
  let t ← current
  if t.kind = .integer ∨ t.kind = .hex then
    discard advance
    return t.literal?
  else
    let problem := Problem.expected [.integer, .hex] t
    if isMistakenInitializer t.kind then
      report t problem
      if t.kind = .identifier then discard segments else discard advance
      return none
    else
      refuse t problem

def enumMember : Parser EnumMember := do
  let start ← current
  let attributes ← attributeLists
  let name ← expect .identifier
  let value ← if ← accept (.punct .equals) then initializer else pure none
  return ⟨name.value, value, attributes, ← spanFrom start⟩

/-- What stands between two members: a comma, or a report that it is missing. Where neither a member
    nor the end of the list follows, the list skips ahead. -/
def memberSeparator : Parser Unit := do
  if ← accept (.punct .comma) then
    return ()
  else
    let t ← current
    if t.kind = .punct .rbrace ∨ t.kind = .eof then
      return ()
    else
      report t (.expected [.punct .comma, .punct .rbrace] t)
      if t.kind = .identifier ∨ t.kind = .punct .lbracket then
        return ()
      else
        synchronize enumResume
        discard (accept (.punct .comma))

/-- One more member of an enumeration, with what stands behind it. -/
def enumMemberRound (members : List EnumMember) : Parser (List EnumMember) := do
  let member ← recovering enumResume false enumMember
  memberSeparator
  return members ++ member.toList

def enumMembers : Parser (List EnumMember) := iterate untilClosed enumMemberRound []

def enumDecl (start : Token) (attributes : List Attribute) : Parser EnumDecl := do
  discard (expect (.keyword .enum))
  let name ← expect .identifier
  discard (expect (.punct .lbrace))
  let members ← enumMembers
  expectOrReport (.punct .rbrace)
  return ⟨name.value, members, attributes, ← spanFrom start⟩

/-! ## Structs -/

def structField : Parser StructField := do
  let start ← current
  let type ← typeRef
  let name ← expect .identifier
  expectOrReport (.punct .semicolon)
  return ⟨name.value, type, ← spanFrom start⟩

def structFields : Parser (List StructField) :=
  iterate untilClosed (fun fields => do
    let field ← recovering blockResume true structField
    return fields ++ field.toList) []

def structDecl (start : Token) (attributes : List Attribute) : Parser StructDecl := do
  discard (expect (.keyword .struct))
  let name ← expect .identifier
  discard (expect (.punct .lbrace))
  let fields ← structFields
  expectOrReport (.punct .rbrace)
  return ⟨name.value, fields, attributes, ← spanFrom start⟩

/-! ## Delegates -/

def delegateDecl (start : Token) (attributes : List Attribute) : Parser DelegateDecl := do
  discard (expect (.keyword .delegate))
  let returnType ← typeRef
  let name ← expect .identifier
  discard (expect (.punct .lparen))
  let parameters ← parameters
  discard (expect (.punct .rparen))
  expectOrReport (.punct .semicolon)
  return ⟨name.value, returnType, parameters, attributes, ← spanFrom start⟩

/-! ## Interfaces -/

def accessorOf? (t : Token) : Option Accessor :=
  if t.kind = .identifier then Accessor.ofLabel? t.value else none

/-- One accessor and its semicolon, given those before it. What is no accessor is reported and
    skipped within the block, and a repeated accessor is reported and counted once. -/
def accessor (before : List Accessor) : Parser (List Accessor) := do
  let t ← current
  match accessorOf? t with
  | none =>
    report t (.expectedAccessor t)
    synchronize blockResume
    return before
  | some a =>
    discard advance
    if a ∈ before then report t (.duplicateAccessor t.value)
    expectOrReport (.punct .semicolon)
    return if a ∈ before then before else before ++ [a]

def accessors : Parser (List Accessor) := do
  discard (expect (.punct .lbrace))
  let found ← iterate untilClosed accessor []
  let t ← current
  if found.isEmpty && t.kind == .punct .rbrace then report t .noAccessors
  expectOrReport (.punct .rbrace)
  return found

/-- A member of an interface. What follows the name tells a method from a property, and a property
    without an accessor block has both accessors. -/
def interfaceMember : Parser InterfaceMember := do
  let start ← current
  let attributes ← attributeLists
  if ← accept (.keyword .event) then
    let type ← typeRef
    let name ← expect .identifier
    expectOrReport (.punct .semicolon)
    return .event ⟨name.value, type, attributes, ← spanFrom start⟩
  else
    let type ← typeRef
    let name ← expect .identifier
    if ← accept (.punct .lparen) then
      let parameters ← parameters
      discard (expect (.punct .rparen))
      expectOrReport (.punct .semicolon)
      return .method ⟨name.value, type, parameters, attributes, ← spanFrom start⟩
    else if ← check [.punct .lbrace] then
      let accessors ← accessors
      discard (accept (.punct .semicolon))
      return .property ⟨name.value, type, accessors, attributes, ← spanFrom start⟩
    else
      expectOrReport (.punct .semicolon)
      return .property ⟨name.value, type, Accessor.all, attributes, ← spanFrom start⟩

/-- The base interfaces after a colon. None if there is no colon. -/
def bases : Parser (List TypeRef) := do
  if ← accept (.punct .colon) then separated (.punct .comma) typeRef else return []

def interfaceMembers : Parser (List InterfaceMember) :=
  iterate untilClosed (fun members => do
    let member ← recovering interfaceResume true interfaceMember
    return members ++ member.toList) []

def interfaceDecl (start : Token) (attributes : List Attribute) : Parser InterfaceDecl := do
  discard (expect (.keyword .interface))
  let name ← expect .identifier
  let bases ← bases
  discard (expect (.punct .lbrace))
  let members ← interfaceMembers
  expectOrReport (.punct .rbrace)
  return ⟨name.value, bases, members, attributes, ← spanFrom start⟩

/-! ## Namespaces -/

/-- One more declaration in a namespace, given the parser of one and those before it. A semicolon
    after a declaration is allowed. -/
def declarationRound (declaration : Parser Declaration) (ds : List Declaration) :
    Parser (List Declaration) := do
  match ← recovering bodyResume true declaration with
  | some d =>
    discard (accept (.punct .semicolon))
    return ds ++ [d]
  | none => return ds

/-- The declarations in a namespace, given the parser of one. -/
def declarations (declaration : Parser Declaration) : Parser (List Declaration) :=
  iterate untilClosed (declarationRound declaration) []

/-- A namespace, given the parser of the declarations in it. -/
def namespacePhrase (inner : Parser Declaration) (start : Token) (attributes : List Attribute) :
    Parser Namespace := do
  discard (expect (.keyword .namespace_))
  let name ← segments
  discard (expect (.punct .lbrace))
  let ds ← declarations inner
  expectOrReport (.punct .rbrace)
  return ⟨name, ds, attributes, ← spanFrom start⟩

/-- What a declaration is behind its attributes, given the parser of the declarations in a nested
    namespace. -/
def declarationBody (inner : Parser Declaration) (start : Token) (attributes : List Attribute) :
    Parser Declaration := do
  let t ← current
  match t.kind with
  | .keyword .namespace_ => Declaration.namespace_ <$> namespacePhrase inner start attributes
  | .keyword .enum => Declaration.enum <$> enumDecl start attributes
  | .keyword .struct => Declaration.struct <$> structDecl start attributes
  | .keyword .delegate => Declaration.delegate <$> delegateDecl start attributes
  | .keyword .interface => Declaration.interface <$> interfaceDecl start attributes
  | _ => unexpected declarationKeywords

/-- A declaration, given the parser of the declarations in a nested namespace. -/
def declarationPhrase (inner : Parser Declaration) : Parser Declaration := do
  let start ← current
  let attributes ← attributeLists
  declarationBody inner start attributes

def declaration : Parser Declaration := nested (unexpected declarationKeywords) declarationPhrase

def namespaceDecl (start : Token) (attributes : List Attribute) : Parser Namespace :=
  namespacePhrase declaration start attributes

end IdlFront.Parser
