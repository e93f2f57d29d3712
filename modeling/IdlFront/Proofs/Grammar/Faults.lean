import IdlFront.Proofs.Grammar.Beginnings
import IdlFront.Proofs.Parser.Skipping

/-! # The grammar with faults

Which token lists are phrases of the language but for some faults that the parser gets over, what is
reported of the faults, and which part of a parse tree the phrase still stands for.

* `IsStray`, `IsStump`, `IsGap` — regions in a list that are no items of it, each with the report it
  costs.
* `IsMistake` — what stands for an integer in the initializer of an enum member, but is none.
* `Interspersed` — items of a list with regions among them.
* `Faulty.IsFile` and the relations before it — the productions in which faults can be.

The relations carry the reports in the order of the text. A phrase of the grammar has none.
-/

namespace IdlFront.Grammar

variable {α : Type}

/-! ## Regions -/

/-- The first token begins no item of the list, and the region ends at its first semicolon outside of
    braces. -/
inductive IsStray (resume beginnings expected : List TokenKind) :
    List Token → Diagnostic → Prop where
  | mk {ts : List Token} {first c : Token} :
      Skipped resume ts → c.kind = .punct .semicolon → (ts ++ [c]).head? = some first →
      first.kind ∉ beginnings →
      IsStray resume beginnings expected (ts ++ [c]) (first.report (.expected expected first))

/-- The keywords of the declarations whose name comes next. -/
def namedKeywords : List TokenKind :=
  [.keyword .namespace_, .keyword .enum, .keyword .struct, .keyword .interface]

/-- The keyword of a declaration without the name, then tokens among which no declaration can go
    on. -/
inductive IsStump : List Token → Diagnostic → Prop where
  | mk {k first : Token} {ts : List Token} :
      k.kind ∈ namedKeywords → first.kind ≠ .identifier → Skipped bodyResume (first :: ts) →
      IsStump (k :: first :: ts) (first.report (.expected [.identifier] first))

/-- Between two commas stands no member, perhaps nothing at all. The report is made at the first of
    the tokens, or at the second comma. -/
inductive IsGap : List Token → Token → Diagnostic → Prop where
  | mk {ts : List Token} {c first : Token} :
      Skipped enumResume ts → c.kind = .punct .comma → (ts ++ [c]).head? = some first →
      first.kind ≠ .identifier → first.kind ≠ .punct .lbracket →
      IsGap ts c (first.report (.expected [.identifier] first))

/-- What a field cannot begin with makes a region of the struct. -/
abbrev IsStrayField : List Token → Diagnostic → Prop :=
  IsStray blockResume typeBeginnings [.identifier]

/-- The same for members of an interface. A semicolon at the start could be the optional one behind
    the member before. -/
abbrev IsStrayMember : List Token → Diagnostic → Prop :=
  IsStray interfaceResume (.punct .semicolon :: .punct .lbracket :: memberBeginnings) [.identifier]

abbrev IsStrayDeclaration : List Token → Diagnostic → Prop :=
  IsStray bodyResume (.punct .semicolon :: .punct .lbracket :: declarationKeywords)
    declarationKeywords

abbrev IsStrayTopLevel : List Token → Diagnostic → Prop :=
  IsStray topLevelResume [.keyword .import_, .punct .lbracket, .keyword .namespace_]
    [.keyword .namespace_, .keyword .import_]

/-- A region in the body of a namespace, given what follows it there. A stump ends with a semicolon,
    or where declarations go on. -/
inductive IsBodyRegion : List Token → List Token → Diagnostic → Prop where
  | stray {ts rest : List Token} {d : Diagnostic} :
      IsStrayDeclaration ts d → IsBodyRegion ts rest d
  | stump {ts rest : List Token} {d : Diagnostic} :
      IsStump ts d → rest = [] ∨ nextKind rest ∈ bodyResume → IsBodyRegion ts rest d
  | closedStump {c : Token} {ts rest : List Token} {d : Diagnostic} :
      IsStump ts d → c.kind = .punct .semicolon → IsBodyRegion (ts ++ [c]) rest d

/-! ## Initializers -/

/-- `FLOAT | STRING | UUID | qualified` -/
inductive IsMistake : List Token → Prop where
  | literal {t : Token} : t.kind ∈ [.float, .string, .uuid] → IsMistake [t]
  | name {ts : List Token} {names : List String} : IsQualified ts names → IsMistake ts

/-! ## Repetition -/

/-- `(phrase | region)*`. What a region is may depend on what follows it in the list. -/
inductive Interspersed (region : List Token → List Token → Diagnostic → Prop)
    (phrase : List Token → List Diagnostic → α → Prop) :
    List Token → List Diagnostic → List α → Prop where
  | nil : Interspersed region phrase [] [] []
  | item {ds es : List Diagnostic} {ts us : List Token} {a : α} {as : List α} :
      phrase ts ds a → Interspersed region phrase us es as →
      Interspersed region phrase (ts ++ us) (ds ++ es) (a :: as)
  | region {d : Diagnostic} {es : List Diagnostic} {ts us : List Token} {as : List α} :
      region ts us d → Interspersed region phrase us es as →
      Interspersed region phrase (ts ++ us) (d :: es) as

/-- A phrase of the grammar, of which nothing is reported. -/
inductive Proper (phrase : List Token → α → Prop) : List Token → List Diagnostic → α → Prop where
  | mk {ts : List Token} {a : α} : phrase ts a → Proper phrase ts [] a

namespace Faulty

inductive Followed (mark : TokenKind) (phrase : List Token → List Diagnostic → α → Prop) :
    List Token → List Diagnostic → α → Prop where
  | bare {ds : List Diagnostic} {ts : List Token} {a : α} :
      phrase ts ds a → Followed mark phrase ts ds a
  | marked {ds : List Diagnostic} {ts : List Token} {a : α} {c : Token} :
      phrase ts ds a → c.kind = mark → Followed mark phrase (ts ++ [c]) ds a

inductive Attributed
    (phrase : List Token → List Diagnostic → (List Attribute → Span → α) → Prop) :
    List Token → List Diagnostic → α → Prop where
  | mk {ds : List Diagnostic} {as ts : List Token} {attributes : List Attribute}
      {node : List Attribute → Span → α} :
      AreAttributes as attributes → phrase ts ds node →
      Attributed phrase (as ++ ts) ds (node attributes (spanOver (as ++ ts)))

/-! ## Declarations -/

/-- `IDENT ('=' (INTEGER | HEX | mistake))?`. A member with a mistake has no value. -/
inductive IsMember :
    List Token → List Diagnostic → (List Attribute → Span → EnumMember) → Prop where
  | proper {ts : List Token} {node : List Attribute → Span → EnumMember} :
      Grammar.IsMember ts node → IsMember ts [] node
  | mistaken {n e first : Token} {ts : List Token} :
      n.kind = .identifier → e.kind = .punct .equals → IsMistake (first :: ts) →
      IsMember (n :: e :: first :: ts) [first.report (.expected [.integer, .hex] first)]
        fun attributes span => ⟨n.value, none, attributes, span⟩

/-- Members, each with a comma behind it but perhaps for the last, and gaps with the commas behind
    them. -/
inductive AreMembers : List Token → List Diagnostic → List EnumMember → Prop where
  | none : AreMembers [] [] []
  | last {ds : List Diagnostic} {ts : List Token} {m : EnumMember} :
      Attributed IsMember ts ds m → AreMembers ts ds [m]
  | member {ds es : List Diagnostic} {ts us : List Token} {c : Token} {m : EnumMember}
      {members : List EnumMember} :
      Attributed IsMember ts ds m → c.kind = .punct .comma → AreMembers us es members →
      AreMembers (ts ++ c :: us) (ds ++ es) (m :: members)
  | gap {d : Diagnostic} {es : List Diagnostic} {ts us : List Token} {c : Token}
      {members : List EnumMember} :
      IsGap ts c d → AreMembers us es members → AreMembers (ts ++ c :: us) (d :: es) members

/-- `'enum' IDENT '{' members '}'` -/
inductive IsEnum : List Token → List Diagnostic → (List Attribute → Span → EnumDecl) → Prop where
  | mk {ds : List Diagnostic} {k n l r : Token} {ts : List Token} {members : List EnumMember} :
      k.kind = .keyword .enum → n.kind = .identifier → l.kind = .punct .lbrace →
      AreMembers ts ds members → r.kind = .punct .rbrace →
      IsEnum (k :: n :: l :: ts ++ [r]) ds fun attributes span =>
        ⟨n.value, members, attributes, span⟩

abbrev AreFields : List Token → List Diagnostic → List StructField → Prop :=
  Interspersed (fun ts _ d => IsStrayField ts d) (Proper IsField)

inductive IsStruct :
    List Token → List Diagnostic → (List Attribute → Span → StructDecl) → Prop where
  | mk {ds : List Diagnostic} {k n l r : Token} {ts : List Token} {fields : List StructField} :
      k.kind = .keyword .struct → n.kind = .identifier → l.kind = .punct .lbrace →
      AreFields ts ds fields → r.kind = .punct .rbrace →
      IsStruct (k :: n :: l :: ts ++ [r]) ds fun attributes span =>
        ⟨n.value, fields, attributes, span⟩

abbrev AreInterfaceMembers : List Token → List Diagnostic → List InterfaceMember → Prop :=
  Interspersed (fun ts _ d => IsStrayMember ts d) (Proper (Grammar.Attributed IsInterfaceMember))

inductive IsInterface :
    List Token → List Diagnostic → (List Attribute → Span → InterfaceDecl) → Prop where
  | mk {ds : List Diagnostic} {k n l r : Token} {bs ts : List Token} {bases : List TypeRef}
      {members : List InterfaceMember} :
      k.kind = .keyword .interface → n.kind = .identifier → AreBases bs bases →
      l.kind = .punct .lbrace → AreInterfaceMembers ts ds members → r.kind = .punct .rbrace →
      IsInterface (k :: n :: bs ++ l :: ts ++ [r]) ds fun attributes span =>
        ⟨n.value, bases, members, attributes, span⟩

/-! ## Namespaces and files -/

/-- `'namespace' qualified '{' (declaration ';'? | region)* '}'` -/
inductive IsNamespace (declaration : List Token → List Diagnostic → Declaration → Prop) :
    List Token → List Diagnostic → (List Attribute → Span → Namespace) → Prop where
  | mk {ds : List Diagnostic} {k l r : Token} {ns ts : List Token} {name : List String}
      {declarations : List Declaration} :
      k.kind = .keyword .namespace_ → IsQualified ns name → l.kind = .punct .lbrace →
      Interspersed IsBodyRegion (Followed (.punct .semicolon) declaration) ts ds declarations →
      r.kind = .punct .rbrace →
      IsNamespace declaration (k :: ns ++ l :: ts ++ [r]) ds fun attributes span =>
        ⟨name, declarations, attributes, span⟩

/-- A declaration of the grammar, or one with faults in it. -/
inductive IsDeclaration : List Token → List Diagnostic → Declaration → Prop where
  | proper {ts : List Token} {d : Declaration} : Grammar.IsDeclaration ts d → IsDeclaration ts [] d
  | namespace_ {ds : List Diagnostic} {ts : List Token} {ns : Namespace} :
      Attributed (IsNamespace IsDeclaration) ts ds ns → IsDeclaration ts ds (.namespace_ ns)
  | enum {ds : List Diagnostic} {ts : List Token} {d : EnumDecl} :
      Attributed IsEnum ts ds d → IsDeclaration ts ds (.enum d)
  | struct {ds : List Diagnostic} {ts : List Token} {d : StructDecl} :
      Attributed IsStruct ts ds d → IsDeclaration ts ds (.struct d)
  | interface {ds : List Diagnostic} {ts : List Token} {d : InterfaceDecl} :
      Attributed IsInterface ts ds d → IsDeclaration ts ds (.interface d)

abbrev AreDeclarations : List Token → List Diagnostic → List Declaration → Prop :=
  Interspersed IsBodyRegion (Followed (.punct .semicolon) IsDeclaration)

/-- An item of the grammar, or a namespace with faults in it. -/
inductive IsTopLevel : List Token → List Diagnostic → TopLevel → Prop where
  | proper {ts : List Token} {item : TopLevel} : Grammar.IsTopLevel ts item → IsTopLevel ts [] item
  | namespace_ {ds : List Diagnostic} {ts : List Token} {ns : Namespace} :
      Attributed (IsNamespace IsDeclaration) ts ds ns → IsTopLevel ts ds (.namespace_ ns)

abbrev AreTopLevels : List Token → List Diagnostic → List TopLevel → Prop :=
  Interspersed (fun ts _ d => IsStrayTopLevel ts d) IsTopLevel

inductive IsFile : List Token → List Diagnostic → IdlFile → Prop where
  | mk {ds : List Diagnostic} {ts : List Token} {items : List TopLevel} :
      AreTopLevels ts ds items → IsFile ts ds (treeOf items)

end Faulty

end IdlFront.Grammar
