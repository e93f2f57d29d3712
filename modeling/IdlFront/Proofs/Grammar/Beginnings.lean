import IdlFront.Proofs.Grammar.Productions

/-! # What phrases begin with

The kinds of tokens that can stand first in a phrase. No phrase begins with the end of input, so a
phrase with such a bound is not empty.
-/

namespace IdlFront.Grammar

variable {α : Type} {ts us : List Token} {kinds : List TokenKind}

theorem ne_nil_of_nextKind (h : nextKind ts ∈ kinds) (open_ : .eof ∉ kinds) : ts ≠ [] := by
  rintro rfl
  exact open_ h

theorem nextKind_append_mem (h : nextKind ts ∈ kinds) (open_ : .eof ∉ kinds) (rest : List Token) :
    nextKind (ts ++ rest) ∈ kinds := by
  rwa [nextKind_append (ne_nil_of_nextKind h open_)]

theorem nextKind_of_head {t : Token} (h : ts.head? = some t) : nextKind ts = t.kind := by
  rw [nextKind, h]
  rfl

/-! ## Repetition -/

theorem Separated.begins {separator : TokenKind} {phrase : List Token → α → Prop} {as : List α}
    (each : ∀ {ts a}, phrase ts a → nextKind ts ∈ kinds) (open_ : .eof ∉ kinds)
    (h : Separated separator phrase ts as) : nextKind ts ∈ kinds := by
  cases h with
  | one first => exact each first
  | cons first => exact nextKind_append_mem (each first) open_ _

theorem Followed.begins {mark : TokenKind} {phrase : List Token → α → Prop} {a : α}
    (each : ∀ {ts a}, phrase ts a → nextKind ts ∈ kinds) (open_ : .eof ∉ kinds)
    (h : Followed mark phrase ts a) : nextKind ts ∈ kinds := by
  cases h with
  | bare phrase => exact each phrase
  | marked phrase => exact nextKind_append_mem (each phrase) open_ _

/-! ## Names, types and parameters -/

theorem IsIdentifier.begins {name : String} (h : IsIdentifier ts name) :
    nextKind ts ∈ [.identifier] := by
  cases h with
  | mk eq => simp [eq]

theorem IsQualified.begins {names : List String} (h : IsQualified ts names) :
    nextKind ts ∈ [.identifier] := Separated.begins IsIdentifier.begins (by decide) h

theorem IsQualified.ne_nil {names : List String} (h : IsQualified ts names) : ts ≠ [] :=
  ne_nil_of_nextKind h.begins (by decide)

/-- The kinds of tokens that a type begins with. -/
def typeBeginnings : List TokenKind := [.identifier, .keyword .void]

theorem IsType.begins {type : TypeRef} (h : IsType ts type) : nextKind ts ∈ typeBeginnings := by
  cases h with
  | void eq => simp [eq, typeBeginnings]
  | named names =>
    have name := IsQualified.begins names
    rw [List.append_assoc]
    exact List.mem_append_left [.keyword .void] (nextKind_append_mem name (by decide) _)

/-- The kinds of tokens that a parameter begins with. -/
def parameterBeginnings : List TokenKind :=
  [.keyword .ref, .keyword .const, .keyword .out] ++ typeBeginnings

theorem IsParameter.begins {p : Parameter} (h : IsParameter ts p) :
    nextKind ts ∈ parameterBeginnings := by
  obtain @⟨ms, us, n, modifier, type, hm, ht, -⟩ := h
  cases hm with
  | absent =>
    exact List.mem_append_right [.keyword .ref, .keyword .const, .keyword .out]
      (nextKind_append_mem ht.begins (by decide) [n])
  | ref eq => simp [eq, parameterBeginnings]
  | constRef eq => simp [eq, parameterBeginnings]
  | out eq => simp [eq, parameterBeginnings]

/-! ## Attributes -/

/-- The kinds of tokens that an argument of an attribute begins with. -/
def argumentBeginnings : List TokenKind := [.uuid, .integer, .hex, .float, .string, .identifier]

theorem IsLiteralKind.begins {kind : TokenKind} {l : LiteralKind} (h : IsLiteralKind kind l) :
    kind ∈ argumentBeginnings := by
  cases h <;> decide

theorem IsArgument.begins {l : Literal} (h : IsArgument ts l) :
    nextKind ts ∈ argumentBeginnings := by
  cases h with
  | literal eq => exact eq.begins
  | name names =>
    exact List.mem_append_right [.uuid, .integer, .hex, .float, .string]
      (IsQualified.begins names)

theorem IsAttributeList.begins {attributes : List Attribute} (h : IsAttributeList ts attributes) :
    nextKind ts ∈ [.punct .lbracket] := by
  obtain ⟨eq, -⟩ := h
  simp [eq]

theorem AreAttributes.begins {attributes : List Attribute} (h : AreAttributes ts attributes) :
    ts = [] ∨ nextKind ts ∈ [.punct .lbracket] := by
  obtain ⟨lists⟩ := h
  cases lists with
  | nil => exact .inl rfl
  | cons first => exact .inr (nextKind_append_mem first.begins (by decide) _)

/-- Behind attributes, a phrase begins with a bracket or as it does without them. -/
theorem Attributed.begins {phrase : List Token → (List Attribute → Span → α) → Prop} {a : α}
    (each : ∀ {ts node}, phrase ts node → nextKind ts ∈ kinds) (h : Attributed phrase ts a) :
    nextKind ts ∈ .punct .lbracket :: kinds := by
  obtain ⟨attributes, body⟩ := h
  obtain rfl | bracket := attributes.begins
  · exact List.mem_cons_of_mem _ (each body)
  · exact List.mem_append_left kinds (nextKind_append_mem bracket (by decide) _)

/-! ## Declarations -/

theorem IsMember.begins {node : List Attribute → Span → EnumMember} (h : IsMember ts node) :
    nextKind ts ∈ [.identifier] := by
  obtain ⟨eq, -⟩ := h
  simp [eq]

theorem IsField.begins {f : StructField} (h : IsField ts f) : nextKind ts ∈ typeBeginnings := by
  obtain ⟨type, -⟩ := h
  exact nextKind_append_mem type.begins (by decide) _

/-- The kinds of tokens that a member of an interface begins with. -/
def memberBeginnings : List TokenKind := .keyword .event :: typeBeginnings

theorem IsInterfaceMember.begins {node : List Attribute → Span → InterfaceMember}
    (h : IsInterfaceMember ts node) : nextKind ts ∈ memberBeginnings := by
  cases h with
  | event eq => simp [eq, memberBeginnings]
  | method type =>
    rw [List.append_assoc]
    exact List.mem_cons_of_mem _ (nextKind_append_mem type.begins (by decide) _)
  | property type => exact List.mem_cons_of_mem _ (nextKind_append_mem type.begins (by decide) _)
  | plainProperty type =>
    exact List.mem_cons_of_mem _ (nextKind_append_mem type.begins (by decide) _)

theorem IsAccessor.begins {a : Accessor} (h : IsAccessor ts a) : nextKind ts ∈ [.identifier] := by
  obtain ⟨eq, -⟩ := h
  simp [eq]

theorem AreAccessors.begins {as : List Accessor} (h : AreAccessors ts as) :
    nextKind ts ∈ [.punct .lbrace] := by
  obtain ⟨eq, -⟩ := h
  simp [eq]

theorem IsNamespace.begins {declaration : List Token → Declaration → Prop}
    {node : List Attribute → Span → Namespace} (h : IsNamespace declaration ts node) :
    nextKind ts ∈ [.keyword .namespace_] := by
  obtain ⟨eq, -⟩ := h
  simp [eq]

theorem IsEnum.begins {node : List Attribute → Span → EnumDecl} (h : IsEnum ts node) :
    nextKind ts ∈ [.keyword .enum] := by
  obtain ⟨eq, -⟩ := h
  simp [eq]

theorem IsStruct.begins {node : List Attribute → Span → StructDecl} (h : IsStruct ts node) :
    nextKind ts ∈ [.keyword .struct] := by
  obtain ⟨eq, -⟩ := h
  simp [eq]

theorem IsDelegate.begins {node : List Attribute → Span → DelegateDecl} (h : IsDelegate ts node) :
    nextKind ts ∈ [.keyword .delegate] := by
  obtain ⟨eq, -⟩ := h
  simp [eq]

theorem IsInterface.begins {node : List Attribute → Span → InterfaceDecl}
    (h : IsInterface ts node) : nextKind ts ∈ [.keyword .interface] := by
  obtain ⟨eq, -⟩ := h
  simp [eq]

theorem Attributed.begins_keyword {phrase : List Token → (List Attribute → Span → α) → Prop}
    {a : α} {keyword : TokenKind} (each : ∀ {ts node}, phrase ts node → nextKind ts ∈ [keyword])
    (known : keyword ∈ declarationKeywords) (h : Attributed phrase ts a) :
    nextKind ts ∈ .punct .lbracket :: declarationKeywords := by
  refine h.begins fun body => ?_
  rwa [List.mem_singleton.1 (each body)]

theorem IsDeclaration.begins {d : Declaration} (h : IsDeclaration ts d) :
    nextKind ts ∈ .punct .lbracket :: declarationKeywords := by
  cases h with
  | namespace_ h => exact h.begins_keyword IsNamespace.begins (by decide)
  | enum h => exact h.begins_keyword IsEnum.begins (by decide)
  | struct h => exact h.begins_keyword IsStruct.begins (by decide)
  | delegate h => exact h.begins_keyword IsDelegate.begins (by decide)
  | interface h => exact h.begins_keyword IsInterface.begins (by decide)

theorem IsTopLevel.begins {item : TopLevel} (h : IsTopLevel ts item) :
    nextKind ts ∈ [.keyword .import_, .punct .lbracket, .keyword .namespace_] := by
  cases h with
  | import_ h =>
    obtain ⟨eq, -⟩ := h
    simp [eq]
  | namespace_ h => exact List.mem_cons_of_mem _ (h.begins IsNamespace.begins)

end IdlFront.Grammar
