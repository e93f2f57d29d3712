import IdlFront.Proofs.Parser.Reading

/-! # The grammar

Which token lists are phrases of the language, and which part of a parse tree each phrase stands
for. Every production is a relation between the tokens of a phrase and its meaning:

* `Many`, `Separated`, `Attributed` — repetition, lists with separators, phrases behind attributes.
* `IsType`, `IsAttribute`, … — one relation per production of the grammar.
* `IsFile` — whole files.

No relation knows of parsers: there is no lookahead, no greed, and no recovery in them. The children
of a node stand in the order of the text, and the span of a node runs from the first to the last
token of its phrase.
-/

namespace IdlFront.Grammar

variable {α : Type}

/-! ## Repetition -/

/-- Any number of phrases: `phrase*`. -/
inductive Many (phrase : List Token → α → Prop) : List Token → List α → Prop where
  | nil : Many phrase [] []
  | cons {ts us : List Token} {a : α} {as : List α} :
      phrase ts a → Many phrase us as → Many phrase (ts ++ us) (a :: as)

section Many

variable {phrase : List Token → α → Prop} {ts us : List Token} {a : α} {as bs : List α}

theorem Many.append (h : Many phrase ts as) (h' : Many phrase us bs) :
    Many phrase (ts ++ us) (as ++ bs) := by
  induction h with
  | nil => exact h'
  | cons first _ ih =>
    rw [List.append_assoc]
    exact .cons first ih

theorem Many.snoc (h : Many phrase ts as) (last : phrase us a) :
    Many phrase (ts ++ us) (as ++ [a]) := by
  simpa using h.append (.cons last .nil)

theorem Many.of_mem (h : Many phrase ts as) (mem : a ∈ as) : ∃ us, us ⊆ ts ∧ phrase us a := by
  induction h with
  | nil => cases mem
  | cons first _ ih =>
    cases mem with
    | head => exact ⟨_, List.subset_append_left _ _, first⟩
    | tail _ mem =>
      obtain ⟨us, sub, phrase⟩ := ih mem
      exact ⟨us, List.Subset.trans sub (List.subset_append_right _ _), phrase⟩

end Many

/-- One or more phrases with a separator between them: `phrase (separator phrase)*`. -/
inductive Separated (separator : TokenKind) (phrase : List Token → α → Prop) :
    List Token → List α → Prop where
  | one {ts : List Token} {a : α} : phrase ts a → Separated separator phrase ts [a]
  | cons {ts us : List Token} {a : α} {c : Token} {as : List α} :
      phrase ts a → c.kind = separator → Separated separator phrase us as →
      Separated separator phrase (ts ++ c :: us) (a :: as)

/-- A phrase, perhaps with a token of a kind after it: `phrase mark?`. -/
inductive Followed (mark : TokenKind) (phrase : List Token → α → Prop) : List Token → α → Prop where
  | bare {ts : List Token} {a : α} : phrase ts a → Followed mark phrase ts a
  | marked {ts : List Token} {a : α} {c : Token} :
      phrase ts a → c.kind = mark → Followed mark phrase (ts ++ [c]) a

/-! ## Names and types -/

/-- `IDENT` -/
inductive IsIdentifier : List Token → String → Prop where
  | mk {t : Token} : t.kind = .identifier → IsIdentifier [t] t.value

/-- `qualified := IDENT ('.' IDENT)*` -/
abbrev IsQualified : List Token → List String → Prop := Separated (.punct .dot) IsIdentifier

/-- `('<' type (',' type)* '>')?` -/
inductive AreTypeArguments (type : List Token → TypeRef → Prop) :
    List Token → List TypeRef → Prop where
  | none : AreTypeArguments type [] []
  | some {l r : Token} {ts : List Token} {arguments : List TypeRef} :
      l.kind = .punct .langle → Separated (.punct .comma) type ts arguments →
      r.kind = .punct .rangle → AreTypeArguments type (l :: ts ++ [r]) arguments

/-- `('[' ']')?` -/
inductive IsArrayMark : List Token → Bool → Prop where
  | absent : IsArrayMark [] false
  | present {l r : Token} :
      l.kind = .punct .lbracket → r.kind = .punct .rbracket → IsArrayMark [l, r] true

/-- `type := 'void' | qualified ('<' type (',' type)* '>')? ('[' ']')?` -/
inductive IsType : List Token → TypeRef → Prop where
  | void {t : Token} : t.kind = .keyword .void → IsType [t] ⟨TypeRef.voidName, [], false, spanOver [t]⟩
  | named {ns as ms : List Token} {names : List String} {arguments : List TypeRef}
      {isArray : Bool} :
      IsQualified ns names → AreTypeArguments IsType as arguments → IsArrayMark ms isArray →
      IsType (ns ++ as ++ ms) ⟨".".intercalate names, arguments, isArray, spanOver (ns ++ as ++ ms)⟩

/-! ## Parameters -/

/-- `('ref' | 'const' 'ref' | 'out')?` -/
inductive IsModifier : List Token → Option Modifier → Prop where
  | absent : IsModifier [] none
  | ref {t : Token} : t.kind = .keyword .ref → IsModifier [t] (some .ref)
  | constRef {t u : Token} :
      t.kind = .keyword .const → u.kind = .keyword .ref → IsModifier [t, u] (some .constRef)
  | out {t : Token} : t.kind = .keyword .out → IsModifier [t] (some .out)

/-- `param := ('ref' | 'const' 'ref' | 'out')? type IDENT` -/
inductive IsParameter : List Token → Parameter → Prop where
  | mk {ms ts : List Token} {n : Token} {modifier : Option Modifier} {type : TypeRef} :
      IsModifier ms modifier → IsType ts type → n.kind = .identifier →
      IsParameter (ms ++ ts ++ [n]) ⟨n.value, type, modifier, spanOver (ms ++ ts ++ [n])⟩

/-- `params?`, where `params := param (',' param)*` -/
inductive AreParameters : List Token → List Parameter → Prop where
  | none : AreParameters [] []
  | some {ts : List Token} {parameters : List Parameter} :
      Separated (.punct .comma) IsParameter ts parameters → AreParameters ts parameters

/-! ## Attributes -/

/-- The kinds of tokens that are literals, and the kinds of literals they are. -/
inductive IsLiteralKind : TokenKind → LiteralKind → Prop where
  | uuid : IsLiteralKind .uuid .uuid
  | integer : IsLiteralKind .integer .integer
  | hex : IsLiteralKind .hex .hex
  | float : IsLiteralKind .float .float
  | string : IsLiteralKind .string .string

theorem isLiteralKind_iff {kind : TokenKind} {l : LiteralKind} :
    IsLiteralKind kind l ↔ kind.literalKind? = some l := by
  constructor
  · intro h
    cases h <;> rfl
  · intro h
    cases kind <;> cases h <;> constructor

/-- `argument := UUID | INTEGER | HEX | FLOAT | STRING | qualified` -/
inductive IsArgument : List Token → Literal → Prop where
  | literal {t : Token} {kind : LiteralKind} :
      IsLiteralKind t.kind kind → IsArgument [t] ⟨kind, t.value, spanOver [t]⟩
  | name {ts : List Token} {names : List String} :
      IsQualified ts names → IsArgument ts ⟨.name, ".".intercalate names, spanOver ts⟩

/-- `('(' (argument (',' argument)*)? ')')?` -/
inductive AreArguments : List Token → List Literal → Prop where
  | none : AreArguments [] []
  | empty {l r : Token} :
      l.kind = .punct .lparen → r.kind = .punct .rparen → AreArguments [l, r] []
  | some {l r : Token} {ts : List Token} {arguments : List Literal} :
      l.kind = .punct .lparen → Separated (.punct .comma) IsArgument ts arguments →
      r.kind = .punct .rparen → AreArguments (l :: ts ++ [r]) arguments

/-- `attribute := qualified ('(' (argument (',' argument)*)? ')')?` -/
inductive IsAttribute : List Token → Attribute → Prop where
  | mk {ns as : List Token} {names : List String} {arguments : List Literal} :
      IsQualified ns names → AreArguments as arguments →
      IsAttribute (ns ++ as) ⟨".".intercalate names, arguments, spanOver (ns ++ as)⟩

/-- `attributes := '[' attribute (',' attribute)* ']'` -/
inductive IsAttributeList : List Token → List Attribute → Prop where
  | mk {l r : Token} {ts : List Token} {attributes : List Attribute} :
      l.kind = .punct .lbracket → Separated (.punct .comma) IsAttribute ts attributes →
      r.kind = .punct .rbracket → IsAttributeList (l :: ts ++ [r]) attributes

/-- `attributes*` -/
inductive AreAttributes : List Token → List Attribute → Prop where
  | mk {ts : List Token} {lists : List (List Attribute)} :
      Many IsAttributeList ts lists → AreAttributes ts lists.flatten

/-- `attributes* phrase`. The phrase gives a node that still lacks its attributes and its span, and
    the span of the node covers the attributes. -/
inductive Attributed (phrase : List Token → (List Attribute → Span → α) → Prop) :
    List Token → α → Prop where
  | mk {as ts : List Token} {attributes : List Attribute} {node : List Attribute → Span → α} :
      AreAttributes as attributes → phrase ts node →
      Attributed phrase (as ++ ts) (node attributes (spanOver (as ++ ts)))

/-! ## Enumerations, structs and delegates -/

/-- `('=' (INTEGER | HEX))?` -/
inductive IsInitializer : List Token → Option Literal → Prop where
  | absent : IsInitializer [] none
  | integer {e t : Token} : e.kind = .punct .equals → t.kind = .integer →
      IsInitializer [e, t] (some ⟨.integer, t.value, spanOver [t]⟩)
  | hex {e t : Token} : e.kind = .punct .equals → t.kind = .hex →
      IsInitializer [e, t] (some ⟨.hex, t.value, spanOver [t]⟩)

/-- `IDENT ('=' (INTEGER | HEX))?` -/
inductive IsMember : List Token → (List Attribute → Span → EnumMember) → Prop where
  | mk {n : Token} {ts : List Token} {value : Option Literal} :
      n.kind = .identifier → IsInitializer ts value →
      IsMember (n :: ts) fun attributes span => ⟨n.value, value, attributes, span⟩

/-- `(member (',' member)* ','?)?`, where `member := attributes* IDENT ('=' (INTEGER | HEX))?` -/
inductive AreMembers : List Token → List EnumMember → Prop where
  | none : AreMembers [] []
  | some {ts : List Token} {members : List EnumMember} :
      Followed (.punct .comma) (Separated (.punct .comma) (Attributed IsMember)) ts members →
      AreMembers ts members

/-- `enum := 'enum' IDENT '{' (member (',' member)* ','?)? '}'` -/
inductive IsEnum : List Token → (List Attribute → Span → EnumDecl) → Prop where
  | mk {k n l r : Token} {ts : List Token} {members : List EnumMember} :
      k.kind = .keyword .enum → n.kind = .identifier → l.kind = .punct .lbrace →
      AreMembers ts members → r.kind = .punct .rbrace →
      IsEnum (k :: n :: l :: ts ++ [r]) fun attributes span => ⟨n.value, members, attributes, span⟩

/-- `type IDENT ';'` -/
inductive IsField : List Token → StructField → Prop where
  | mk {ts : List Token} {n c : Token} {type : TypeRef} :
      IsType ts type → n.kind = .identifier → c.kind = .punct .semicolon →
      IsField (ts ++ [n, c]) ⟨n.value, type, spanOver (ts ++ [n, c])⟩

/-- `struct := 'struct' IDENT '{' (type IDENT ';')* '}'` -/
inductive IsStruct : List Token → (List Attribute → Span → StructDecl) → Prop where
  | mk {k n l r : Token} {ts : List Token} {fields : List StructField} :
      k.kind = .keyword .struct → n.kind = .identifier → l.kind = .punct .lbrace →
      Many IsField ts fields → r.kind = .punct .rbrace →
      IsStruct (k :: n :: l :: ts ++ [r]) fun attributes span => ⟨n.value, fields, attributes, span⟩

/-- `delegate := 'delegate' type IDENT '(' params? ')' ';'` -/
inductive IsDelegate : List Token → (List Attribute → Span → DelegateDecl) → Prop where
  | mk {k n l r c : Token} {ts ps : List Token} {returnType : TypeRef}
      {parameters : List Parameter} :
      k.kind = .keyword .delegate → IsType ts returnType → n.kind = .identifier →
      l.kind = .punct .lparen → AreParameters ps parameters → r.kind = .punct .rparen →
      c.kind = .punct .semicolon →
      IsDelegate (k :: ts ++ n :: l :: ps ++ [r, c]) fun attributes span =>
        ⟨n.value, returnType, parameters, attributes, span⟩

/-! ## Interfaces -/

/-- `('get' | 'set') ';'` -/
inductive IsAccessor : List Token → Accessor → Prop where
  | mk {t c : Token} {accessor : Accessor} :
      t.kind = .identifier → t.value = accessor.label → c.kind = .punct .semicolon →
      IsAccessor [t, c] accessor

/-- `'{' (('get' | 'set') ';')+ '}'`, where no accessor is repeated -/
inductive AreAccessors : List Token → List Accessor → Prop where
  | mk {l r : Token} {ts : List Token} {accessors : List Accessor} :
      l.kind = .punct .lbrace → Many IsAccessor ts accessors → accessors ≠ [] →
      accessors.Nodup → r.kind = .punct .rbrace → AreAccessors (l :: ts ++ [r]) accessors

/-- `'event' type IDENT ';' | type IDENT '(' params? ')' ';' | type IDENT accessors ';'? |
    type IDENT ';'`. A property that names no accessors has both. -/
inductive IsInterfaceMember : List Token → (List Attribute → Span → InterfaceMember) → Prop where
  | event {k n c : Token} {ts : List Token} {type : TypeRef} :
      k.kind = .keyword .event → IsType ts type → n.kind = .identifier →
      c.kind = .punct .semicolon →
      IsInterfaceMember (k :: ts ++ [n, c]) fun attributes span =>
        .event ⟨n.value, type, attributes, span⟩
  | method {n l r c : Token} {ts ps : List Token} {returnType : TypeRef}
      {parameters : List Parameter} :
      IsType ts returnType → n.kind = .identifier → l.kind = .punct .lparen →
      AreParameters ps parameters → r.kind = .punct .rparen → c.kind = .punct .semicolon →
      IsInterfaceMember (ts ++ n :: l :: ps ++ [r, c]) fun attributes span =>
        .method ⟨n.value, returnType, parameters, attributes, span⟩
  | property {n : Token} {ts bs : List Token} {type : TypeRef} {accessors : List Accessor} :
      IsType ts type → n.kind = .identifier →
      Followed (.punct .semicolon) AreAccessors bs accessors →
      IsInterfaceMember (ts ++ n :: bs) fun attributes span =>
        .property ⟨n.value, type, accessors, attributes, span⟩
  | plainProperty {n c : Token} {ts : List Token} {type : TypeRef} :
      IsType ts type → n.kind = .identifier → c.kind = .punct .semicolon →
      IsInterfaceMember (ts ++ [n, c]) fun attributes span =>
        .property ⟨n.value, type, [.get, .set], attributes, span⟩

/-- `(':' type (',' type)*)?` -/
inductive AreBases : List Token → List TypeRef → Prop where
  | none : AreBases [] []
  | some {c : Token} {ts : List Token} {bases : List TypeRef} :
      c.kind = .punct .colon → Separated (.punct .comma) IsType ts bases →
      AreBases (c :: ts) bases

/-- `interface := 'interface' IDENT (':' type (',' type)*)? '{' (attributes* iface_member)* '}'` -/
inductive IsInterface : List Token → (List Attribute → Span → InterfaceDecl) → Prop where
  | mk {k n l r : Token} {bs ts : List Token} {bases : List TypeRef}
      {members : List InterfaceMember} :
      k.kind = .keyword .interface → n.kind = .identifier → AreBases bs bases →
      l.kind = .punct .lbrace → Many (Attributed IsInterfaceMember) ts members →
      r.kind = .punct .rbrace →
      IsInterface (k :: n :: bs ++ l :: ts ++ [r]) fun attributes span =>
        ⟨n.value, bases, members, attributes, span⟩

/-! ## Namespaces and files -/

/-- `namespace := 'namespace' qualified '{' (declaration ';'?)* '}'` -/
inductive IsNamespace (declaration : List Token → Declaration → Prop) :
    List Token → (List Attribute → Span → Namespace) → Prop where
  | mk {k l r : Token} {ns ts : List Token} {name : List String}
      {declarations : List Declaration} :
      k.kind = .keyword .namespace_ → IsQualified ns name → l.kind = .punct .lbrace →
      Many (Followed (.punct .semicolon) declaration) ts declarations → r.kind = .punct .rbrace →
      IsNamespace declaration (k :: ns ++ l :: ts ++ [r]) fun attributes span =>
        ⟨name, declarations, attributes, span⟩

/-- `declaration := attributes* (namespace | enum | struct | delegate | interface)` -/
inductive IsDeclaration : List Token → Declaration → Prop where
  | namespace_ {ts : List Token} {ns : Namespace} :
      Attributed (IsNamespace IsDeclaration) ts ns → IsDeclaration ts (.namespace_ ns)
  | enum {ts : List Token} {d : EnumDecl} : Attributed IsEnum ts d → IsDeclaration ts (.enum d)
  | struct {ts : List Token} {d : StructDecl} :
      Attributed IsStruct ts d → IsDeclaration ts (.struct d)
  | delegate {ts : List Token} {d : DelegateDecl} :
      Attributed IsDelegate ts d → IsDeclaration ts (.delegate d)
  | interface {ts : List Token} {d : InterfaceDecl} :
      Attributed IsInterface ts d → IsDeclaration ts (.interface d)

/-- `import := 'import' STRING ';'` -/
inductive IsImport : List Token → Import → Prop where
  | mk {k s c : Token} :
      k.kind = .keyword .import_ → s.kind = .string → c.kind = .punct .semicolon →
      IsImport [k, s, c] ⟨Import.contents s.value, spanOver [k, s, c]⟩

/-- `import | attributes* namespace` -/
inductive IsTopLevel : List Token → TopLevel → Prop where
  | import_ {ts : List Token} {i : Import} : IsImport ts i → IsTopLevel ts (.import_ i)
  | namespace_ {ts : List Token} {ns : Namespace} :
      Attributed (IsNamespace IsDeclaration) ts ns → IsTopLevel ts (.namespace_ ns)

/-- The tree of some items: the imports and the namespaces apart, each in the order of the text. -/
def treeOf (items : List TopLevel) : IdlFile :=
  ⟨items.filterMap fun | .import_ i => some i | .namespace_ _ => none,
    items.filterMap fun | .import_ _ => none | .namespace_ ns => some ns⟩

theorem treeOf_append (items items' : List TopLevel) : treeOf (items ++ items') =
    ⟨(treeOf items).imports ++ (treeOf items').imports,
      (treeOf items).namespaces ++ (treeOf items').namespaces⟩ := by
  simp [treeOf]

theorem treeOf_snoc (items : List TopLevel) (item : TopLevel) :
    treeOf (items ++ [item]) = (treeOf items).add (some item) := by
  cases item <;> simp [treeOf, IdlFile.add]

/-- `file := (import | attributes* namespace)*` -/
inductive IsFile : List Token → IdlFile → Prop where
  | mk {ts : List Token} {items : List TopLevel} :
      Many IsTopLevel ts items → IsFile ts (treeOf items)

end IdlFront.Grammar
