import IdlFront.Proofs.Grammar.Completeness
import IdlFront.Proofs.Parser.Recovering

/-! # Declarations accept what is in the grammar

The lemmas of completeness for everything that stands in braces, up to whole files. The optional
marks behind an item are taken greedily, so an item must not stand before another such mark.
-/

namespace IdlFront.Grammar

open IdlFront.Parser IdlFront.ParserState

variable {α : Type} {stop : Int} {ts us rest : List Token} {bound : Nat}

theorem foldl_snoc (before as : List α) :
    as.foldl (fun as a => as ++ [a]) before = before ++ as := by
  induction as generalizing before <;> simp_all

/-- A list of items with nothing between them. -/
theorem items_complete {item : Parser α} {phrase : List Token → α → Prop} {kinds : List TokenKind}
    {resume : List TokenKind} (barred : List TokenKind)
    (complete : ∀ {stop ts a rest}, phrase ts a → nextKind rest ∉ barred →
      Accepts item stop ts a rest)
    (begins : ∀ {ts a}, phrase ts a → nextKind ts ∈ kinds)
    (goesOn : ∀ k ∈ kinds, untilClosed k = true ∧ k ∉ barred ∧ k ≠ .eof) {as : List α}
    (h : Many phrase ts as) (next : nextKind rest ∉ barred)
    (ends : untilClosed (nextKind rest) = false) :
    Accepts (iterate untilClosed (fun as => do
      let a ← recovering resume true item
      return as ++ a.toList) []) stop ts as rest := by
  rw [← List.nil_append as, ← foldl_snoc]
  refine many_complete _ barred ?_ begins goesOn h next ends
  intro stop ts a before rest first next
  exact (accepts_recovering (complete first next)).andThen .pure

/-! ## Enumerations -/

/-- The value of a member is read from behind the sign that announces it. -/
theorem initializer_complete {e : Token} {value : Option Literal}
    (h : IsInitializer (e :: ts) value) : Accepts initializer stop ts value rest := by
  cases h with
  | @integer _ t _ ht =>
    refine accepts_currentThen rfl ?_
    rw [if_pos (.inl ht), ← tokenSpan_eq]
    have literal : t.literal? = some ⟨.integer, t.value, tokenSpan t⟩ := by
      rw [Token.literal?, ht]
      rfl
    rw [← literal]
    exact accepts_advance.discard.andThen .pure
  | @hex _ t _ ht =>
    refine accepts_currentThen rfl ?_
    rw [if_pos (.inr ht), ← tokenSpan_eq]
    have literal : t.literal? = some ⟨.hex, t.value, tokenSpan t⟩ := by
      rw [Token.literal?, ht]
      rfl
    rw [← literal]
    exact accepts_advance.discard.andThen .pure

theorem enumMember_complete {m : EnumMember} (h : Attributed IsMember ts m)
    (ends : nextKind rest ≠ .punct .equals) : Accepts enumMember stop ts m rest := by
  obtain @⟨as, us, attributes, node, front, body⟩ := h
  obtain @⟨n, us, value, hn, hvalue⟩ := body
  obtain ⟨first, head⟩ : ∃ first, (as ++ n :: us).head? = some first :=
    ⟨_, List.head?_eq_some_head (by simp)⟩
  refine accepts_currentThen head (Accepts.bind (attributeLists_complete front (by simp [hn])) ?_)
  refine accepts_expectThen hn ?_
  cases us with
  | nil =>
    cases hvalue
    exact accepts_acceptElse ends (Accepts.pure.before (accepts_spanOver stop head (by simp)))
  | cons e us =>
    have he : e.kind = .punct .equals := by cases hvalue <;> assumption
    exact accepts_acceptThen he
      ((initializer_complete hvalue).andThen (accepts_spanOver stop head (by simp)))

/-- What can stand behind a member: a comma, or nothing where the list is closed. -/
inductive IsMemberEnd : List Token → List Token → Prop where
  | comma {c : Token} {rest : List Token} : c.kind = .punct .comma → IsMemberEnd [c] rest
  | closed {rest : List Token} : nextKind rest = .punct .rbrace → IsMemberEnd [] rest

theorem memberSeparator_complete (h : IsMemberEnd ts rest) :
    Accepts memberSeparator stop ts () rest := by
  cases h with
  | comma eq => exact accepts_acceptThen eq .pure
  | closed eq =>
    obtain ⟨r, rest, rfl⟩ : ∃ r us, rest = r :: us := by
      cases rest with
      | nil => cases eq
      | cons r rest => exact ⟨r, rest, rfl⟩
    rw [nextKind_cons] at eq
    refine accepts_acceptElse (by simp [eq]) (accepts_current.before ?_)
    rw [if_pos (.inl eq)]
    exact .pure

/-- The members of an enumeration with what stands behind the last one. -/
theorem enumMembers_loop_complete {members before : List EnumMember}
    (h : Separated (.punct .comma) (Attributed IsMember) ts members) (last : IsMemberEnd us rest)
    (closed : nextKind rest = .punct .rbrace) :
    Accepts (iterate untilClosed enumMemberRound before) stop (ts ++ us) (before ++ members)
      rest := by
  have goesOn : ∀ k ∈ [.punct .lbracket, .identifier], untilClosed k = true := by decide
  -- Each round reads a member and the comma behind it; the last one may go without.
  induction h generalizing stop before with
  | @one ts m first =>
    have begins := first.begins IsMember.begins
    have ends : nextKind (us ++ rest) ≠ .punct .equals := by
      cases last with
      | comma eq => simp [eq]
      | closed eq => simp [eq]
    rw [← List.append_nil (ts ++ us)]
    exact accepts_iterate_cons (goesOn _ (nextKind_append_mem begins (by decide) _))
      (by simp [ne_nil_of_nextKind begins (by decide)])
      (Accepts.bind (accepts_recovering (enumMember_complete first ends))
        ((memberSeparator_complete last).andThen .pure))
      (accepts_iterate_nil (by rw [closed]; decide))
  | @cons ts ts' m c members first comma more ih =>
    have begins := first.begins IsMember.begins
    have round : Accepts (enumMemberRound before) stop (ts ++ [c]) (before ++ [m]) ((ts' ++ us) ++ rest) :=
      Accepts.bind (accepts_recovering (enumMember_complete first (by simp [comma])))
        ((memberSeparator_complete (.comma comma)).andThen .pure)
    have loop := accepts_iterate_cons (goesOn _ (nextKind_append_mem begins (by decide) _))
      (by simp) round ih
    simpa using loop

theorem enumMembers_complete {members : List EnumMember} (h : AreMembers ts members)
    (closed : nextKind rest = .punct .rbrace) : Accepts enumMembers stop ts members rest := by
  cases h with
  | none => exact accepts_iterate_nil (by rw [closed]; decide)
  | some all =>
    cases all with
    | bare all =>
      rw [← List.append_nil ts]
      exact enumMembers_loop_complete all (.closed closed) closed
    | marked all comma => exact enumMembers_loop_complete all (.comma comma) closed

/-- The span of a declaration starts where it was read from, in front of its attributes. -/
theorem enumDecl_complete {start : Token} {attributes : List Attribute}
    {node : List Attribute → Span → EnumDecl} (h : IsEnum ts node) :
    Accepts (enumDecl start attributes) stop ts
      (node attributes (start.spanUntil (stopAfter stop ts))) rest := by
  obtain ⟨hk, hn, hl, members, hr⟩ := h
  refine accepts_discardExpectThen hk (accepts_expectThen hn (accepts_discardExpectThen hl
    (Accepts.bind (enumMembers_complete members (by simpa using hr))
      (accepts_expectOrReportThen hr ?_))))
  simpa using accepts_spanFrom

/-! ## Structs and delegates -/

theorem structField_complete {f : StructField} (h : IsField ts f) :
    Accepts structField stop ts f rest := by
  obtain @⟨us, n, c, type, htype, hn, hc⟩ := h
  obtain ⟨first, head⟩ : ∃ first, (us ++ [n, c]).head? = some first :=
    ⟨_, List.head?_eq_some_head (by simp)⟩
  refine accepts_currentThen head (Accepts.bind (typeRef_complete htype ?_) ?_)
  · simp [hn, typeContinuations]
  · exact accepts_expectThen hn (accepts_expectOrReportThen hc (accepts_spanOver stop head (by simp)))

theorem structDecl_complete {start : Token} {attributes : List Attribute}
    {node : List Attribute → Span → StructDecl} (h : IsStruct ts node) :
    Accepts (structDecl start attributes) stop ts
      (node attributes (start.spanUntil (stopAfter stop ts))) rest := by
  obtain ⟨hk, hn, hl, fields, hr⟩ := h
  refine accepts_discardExpectThen hk (accepts_expectThen hn (accepts_discardExpectThen hl
    (Accepts.bind (items_complete [] ?_ IsField.begins (by decide) fields (by simp) ?_)
      (accepts_expectOrReportThen hr ?_))))
  · exact fun h _ => structField_complete h
  · simp [hr, untilClosed]
  · simpa using accepts_spanFrom

theorem delegateDecl_complete {start : Token} {attributes : List Attribute}
    {node : List Attribute → Span → DelegateDecl} (h : IsDelegate ts node) :
    Accepts (delegateDecl start attributes) stop ts
      (node attributes (start.spanUntil (stopAfter stop ts))) rest := by
  obtain ⟨hk, htype, hn, hl, parameters, hr, hc⟩ := h
  simp only [List.cons_append, List.append_assoc]
  refine accepts_discardExpectThen hk (Accepts.bind (typeRef_complete htype ?_)
    (accepts_expectThen hn (accepts_discardExpectThen hl
      (Accepts.bind (parameters_complete parameters ?_)
        (accepts_discardExpectThen hr (accepts_expectOrReportThen hc ?_))))))
  · simp [hn, typeContinuations]
  · simpa using hr
  · simpa using accepts_spanFrom

/-! ## Interfaces -/

theorem accessor_complete {a : Accessor} {before : List Accessor} (h : IsAccessor ts a)
    (new : a ∉ before) : Accepts (accessor before) stop ts (before ++ [a]) rest := by
  obtain ⟨hn, label, hc⟩ := h
  refine accepts_currentThen rfl ?_
  simp only [accessorOf?_eq_some_iff.2 ⟨hn, label⟩, if_neg new]
  exact accepts_advance.discard.bind (accepts_expectOrReportThen hc .pure)

theorem accessors_loop_complete {found before : List Accessor} (h : Many IsAccessor ts found)
    (distinct : (before ++ found).Nodup) (closed : nextKind rest = .punct .rbrace) :
    Accepts (iterate untilClosed accessor before) stop ts (before ++ found) rest := by
  induction h generalizing stop before with
  | nil =>
    rw [List.append_nil]
    exact accepts_iterate_nil (by rw [closed]; decide)
  | @cons ts us a found first more ih =>
    have new : a ∉ before := fun h =>
      (List.nodup_append.1 distinct).2.2 a h a List.mem_cons_self rfl
    have begins := List.mem_singleton.1 first.begins
    rw [List.append_cons] at distinct ⊢
    exact accepts_iterate_cons (by rw [begins]; decide) (ne_nil_of_nextKind first.begins (by decide))
      (accessor_complete first new) (ih distinct)

theorem accessors_complete {found : List Accessor} (h : AreAccessors ts found) :
    Accepts accessors stop ts found rest := by
  obtain ⟨hl, all, nonempty, distinct, hr⟩ := h
  refine accepts_discardExpectThen hl
    (Accepts.bind (accessors_loop_complete all (by simpa using distinct) (by simpa using hr)) ?_)
  refine accepts_currentThen rfl ?_
  rw [if_neg (by simp [nonempty])]
  exact accepts_expectOrReportThen hr .pure

theorem bases_complete {bs : List TypeRef} (h : AreBases ts bs)
    (next : nextKind rest = .punct .lbrace) : Accepts bases stop ts bs rest := by
  cases h with
  | none => exact accepts_acceptElse (by simp [next]) .pure
  | some hc all =>
    refine accepts_acceptThen hc (separated_complete typeContinuations ?_ (by decide) all ?_ ?_)
    · exact typeRef_complete
    · rw [next]
      decide
    · rw [next]
      decide

theorem notEvent {type : TypeRef} (h : IsType ts type) (rest : List Token) :
    nextKind (ts ++ rest) ≠ .keyword .event :=
  ne_of_mem_of_not_mem (nextKind_append_mem h.begins (by decide) rest) (by decide)

theorem interfaceMember_complete {m : InterfaceMember} (h : Attributed IsInterfaceMember ts m)
    (ends : nextKind rest ≠ .punct .semicolon) : Accepts interfaceMember stop ts m rest := by
  obtain @⟨as, us, attributes, node, front, body⟩ := h
  have begins := nextKind_append_mem body.begins (by decide) rest
  obtain ⟨first, head⟩ : ∃ first, (as ++ us).head? = some first :=
    ⟨_, List.head?_eq_some_head (by simp [ne_nil_of_nextKind body.begins (by decide)])⟩
  refine accepts_currentThen head (Accepts.bind (attributeLists_complete front
    (ne_of_mem_of_not_mem begins (by decide))) ?_)
  -- The kinds of members differ in what stands behind the type and the name.
  cases body with
  | event hk htype hn hc =>
    refine accepts_acceptThen hk (Accepts.bind (typeRef_complete htype ?_) ?_)
    · simp [hn, typeContinuations]
    exact accepts_expectThen hn (accepts_expectOrReportThen hc (accepts_spanOver stop head (by simp)))
  | method htype hn hl parameters hr hc =>
    simp only [List.append_assoc, List.cons_append] at head ⊢
    refine accepts_acceptElse (by rw [List.append_assoc]; exact notEvent htype _)
      (Accepts.bind (typeRef_complete htype ?_) (accepts_expectThen hn (accepts_acceptThen hl
        (Accepts.bind (parameters_complete parameters ?_) (accepts_discardExpectThen hr
          (accepts_expectOrReportThen hc (accepts_spanOver stop head (by simp))))))))
    · simp [hn, typeContinuations]
    · simpa using hr
  | @property n us bs type found htype hn block =>
    rw [List.append_assoc] at begins
    refine accepts_acceptElse (by rw [List.append_assoc]; exact notEvent htype _)
      (Accepts.bind (typeRef_complete htype ?_) (accepts_expectThen hn ?_))
    · simp [hn, typeContinuations]
    cases block with
    | bare block =>
      -- No semicolon follows, so the optional one is not taken.
      have brace := nextKind_append_mem block.begins (by decide) rest
      refine accepts_acceptElse (ne_of_mem_of_not_mem brace (by decide))
        (accepts_checkThen (List.mem_singleton.1 brace) ((accessors_complete block).andThen
          ((accepts_accept_not ends).discard.before (accepts_spanOver stop head (by simp)))))
    | @marked bs _ c block hc =>
      have brace := nextKind_append_mem block.begins (by decide) ([c] ++ rest)
      rw [← List.append_assoc] at brace
      refine accepts_acceptElse (ne_of_mem_of_not_mem brace (by decide))
        (accepts_checkThen (List.mem_singleton.1 brace) (Accepts.bind (accessors_complete block)
          ((accepts_accept hc).discard.andThen (accepts_spanOver stop head (by simp)))))
  | plainProperty htype hn hc =>
    refine accepts_acceptElse (by rw [List.append_assoc]; exact notEvent htype _)
      (Accepts.bind (typeRef_complete htype ?_) (accepts_expectThen hn
        (accepts_acceptElse (by simp [hc]) (accepts_checkElse (by simp [hc])
          (accepts_expectOrReportThen hc (accepts_spanOver stop head (by simp)))))))
    simp [hn, typeContinuations]

theorem interfaceDecl_complete {start : Token} {attributes : List Attribute}
    {node : List Attribute → Span → InterfaceDecl} (h : IsInterface ts node) :
    Accepts (interfaceDecl start attributes) stop ts
      (node attributes (start.spanUntil (stopAfter stop ts))) rest := by
  obtain ⟨hk, hn, hbases, hl, members, hr⟩ := h
  simp only [List.cons_append, List.append_assoc]
  refine accepts_discardExpectThen hk (accepts_expectThen hn (Accepts.bind (bases_complete hbases ?_)
    (accepts_discardExpectThen hl (Accepts.bind (items_complete [.punct .semicolon] ?_
      (Attributed.begins IsInterfaceMember.begins) (by decide) members ?_ ?_)
        (accepts_expectOrReportThen hr ?_)))))
  · simpa using hl
  · exact fun h next => interfaceMember_complete h (by simpa using next)
  · simp [hr]
  · simp [hr, untilClosed]
  · simpa using accepts_spanFrom

/-! ## Namespaces -/

theorem declarations_complete {declaration : Parser Declaration}
    (complete : ∀ {stop ts d rest}, IsDeclaration ts d → (ts ++ rest).length < bound →
      Accepts declaration stop ts d rest)
    {ds : List Declaration} (h : Many (Followed (.punct .semicolon) IsDeclaration) ts ds)
    (short : (ts ++ rest).length < bound) (closed : nextKind rest = .punct .rbrace) :
    Accepts (declarations declaration) stop ts ds rest := by
  rw [← List.nil_append ds, ← foldl_snoc]
  refine many_complete_below _ [.punct .semicolon] ?_
    (Followed.begins IsDeclaration.begins (by decide)) (by decide) h short (by simp [closed])
    (by rw [closed]; decide)
  intro stop ts d before rest first short next
  cases first with
  | bare first =>
    refine (accepts_recovering (complete first short)).andThen ?_
    exact (accepts_accept_not (by simpa using next)).discard.andThen .pure
  | marked first comma =>
    refine Accepts.bind (accepts_recovering (complete first (by simpa using short))) ?_
    exact (accepts_accept comma).discard.andThen .pure

theorem namespacePhrase_complete {inner : Parser Declaration}
    (complete : ∀ {stop ts d rest}, IsDeclaration ts d → (ts ++ rest).length < bound →
      Accepts inner stop ts d rest)
    {start : Token} {attributes : List Attribute} {node : List Attribute → Span → Namespace}
    (h : IsNamespace IsDeclaration ts node) (short : (ts ++ rest).length ≤ bound) :
    Accepts (namespacePhrase inner start attributes) stop ts
      (node attributes (start.spanUntil (stopAfter stop ts))) rest := by
  obtain ⟨hk, name, hl, declarations, hr⟩ := h
  simp only [List.cons_append, List.append_assoc]
  refine accepts_discardExpectThen hk (Accepts.bind (segments_complete name (by simp [hl]))
    (accepts_discardExpectThen hl (Accepts.bind (declarations_complete complete declarations ?_ ?_)
      (accepts_expectOrReportThen hr ?_))))
  · simp at short ⊢
    omega
  · simpa using hr
  · simpa using accepts_spanFrom

section Attributed

variable {β : Type} {phrase : List Token → (List Attribute → Span → α) → Prop} {a : α}
  {p : Token → List Attribute → Token → Parser β} {kind : TokenKind}

/-- A node behind attributes, which are read first and of which nothing is reported. The first token
    behind them tells what the node is. -/
theorem reports_attributedOfKind {ds : List Diagnostic} (wrap : α → β) (h : Attributed phrase ts a)
    (begins : ∀ {ts node}, phrase ts node → nextKind ts ∈ [kind]) (open_ : kind ≠ .eof)
    (noBracket : kind ≠ .punct .lbracket)
    (reads : ∀ {stop us node start attributes} {first : Token}, phrase us node →
      (us ++ rest).length ≤ (ts ++ rest).length → first.kind = kind →
      Reports (p start attributes first) stop us ds
        (wrap (node attributes (start.spanUntil (stopAfter stop us)))) rest) :
    Reports (do
      let start ← current
      let attributes ← attributeLists
      let first ← current
      p start attributes first) stop ts ds (wrap a) rest := by
  obtain @⟨as, us, attributes, node, front, body⟩ := h
  obtain ⟨first, vs, eq⟩ :=
    List.exists_cons_of_ne_nil (ne_nil_of_nextKind (begins body) (by simpa using open_.symm))
  have kind : first.kind = kind := by
    have begins := begins body
    rw [eq] at begins
    exact List.mem_singleton.1 begins
  obtain ⟨start, head⟩ : ∃ start, (as ++ us).head? = some start :=
    ⟨_, List.head?_eq_some_head (by simp [eq])⟩
  refine reports_currentThen head (Accepts.bind_reports (attributeLists_complete front ?_)
    (reports_currentThen (by rw [eq]; rfl) ?_))
  · rw [eq, List.cons_append, nextKind_cons, kind]
    exact noBracket
  · rw [← spanUntil_stopAfter head stop, stopAfter_append]
    exact reads body (by simp) kind

end Attributed

theorem declarationPhrase_complete {inner : Parser Declaration}
    (complete : ∀ {stop ts d rest}, IsDeclaration ts d → (ts ++ rest).length < bound →
      Accepts inner stop ts d rest)
    {d : Declaration} (h : IsDeclaration ts d) (short : (ts ++ rest).length ≤ bound) :
    Accepts (declarationPhrase inner) stop ts d rest := by
  rw [← reports_nil_iff]
  -- Each kind of declaration is told by its keyword, and its parser reads what is behind the attributes.
  cases h with
  | namespace_ h =>
    refine reports_attributedOfKind Declaration.namespace_ h IsNamespace.begins (by decide) (by decide)
      fun body shorter eq => ?_
    simp only [eq]
    exact (namespacePhrase_complete complete body (by omega)).reports.map
  | enum h =>
    refine reports_attributedOfKind Declaration.enum h IsEnum.begins (by decide) (by decide)
      fun body _ eq => ?_
    simp only [eq]
    exact (enumDecl_complete body).reports.map
  | struct h =>
    refine reports_attributedOfKind Declaration.struct h IsStruct.begins (by decide) (by decide)
      fun body _ eq => ?_
    simp only [eq]
    exact (structDecl_complete body).reports.map
  | delegate h =>
    refine reports_attributedOfKind Declaration.delegate h IsDelegate.begins (by decide) (by decide)
      fun body _ eq => ?_
    simp only [eq]
    exact (delegateDecl_complete body).reports.map
  | interface h =>
    refine reports_attributedOfKind Declaration.interface h IsInterface.begins (by decide) (by decide)
      fun body _ eq => ?_
    simp only [eq]
    exact (interfaceDecl_complete body).reports.map

theorem declaration_complete {d : Declaration} (h : IsDeclaration ts d) :
    Accepts declaration stop ts d rest := by
  induction hn : (ts ++ rest).length using Nat.strongRecOn generalizing stop ts rest d with
  | ind n ih =>
    subst hn
    refine accepts_nested (declarationPhrase_complete ?_ h (Nat.le_refl _))
    intro stop ts d rest h short
    exact accepts_limited short (ih _ short h rfl)

/-! ## Files -/

theorem importDirective_complete {i : Import} (h : IsImport ts i) :
    Accepts importDirective stop ts i rest := by
  obtain ⟨hk, hpath, hc⟩ := h
  exact accepts_expectThen hk (accepts_expectThen hpath
    (accepts_expectOrReportThen hc (accepts_spanOver stop rfl rfl)))

/-- A namespace at the top level, whose attributes are read before it is known to be one. -/
theorem reports_topLevelNamespace {phrase : List Token → (List Attribute → Span → Namespace) → Prop}
    {ns : Namespace} {ds : List Diagnostic} (h : Attributed phrase ts ns)
    (keyword : ∀ {ts node}, phrase ts node → nextKind ts ∈ [.keyword .namespace_])
    (reads : ∀ {stop us node start attributes}, phrase us node →
      Reports (namespaceDecl start attributes) stop us ds
        (node attributes (start.spanUntil (stopAfter stop us))) rest) :
    Reports topLevel stop ts ds (.namespace_ ns) rest := by
  have begins := h.begins keyword
  obtain @⟨as, us, attributes, node, front, body⟩ := h
  -- The first token of a namespace is no `import`, whether it has attributes or not.
  obtain ⟨first, ts, eq⟩ := List.exists_cons_of_ne_nil (ne_nil_of_nextKind begins (by decide))
  have head : (as ++ us).head? = some first := by rw [eq]; rfl
  rw [eq, nextKind_cons] at begins
  have next := List.mem_singleton.1 (nextKind_append_mem (keyword body) (by decide) rest)
  refine reports_currentThen head ?_
  rw [if_neg (ne_of_mem_of_not_mem begins (by decide))]
  refine Accepts.bind_reports (attributeLists_complete front (by rw [next]; decide))
    (accepts_check.before_reports ?_)
  rw [if_pos (by simp [next]), ← spanUntil_stopAfter head stop, stopAfter_append]
  exact (reads body).andThen .pure

theorem topLevel_complete {item : TopLevel} (h : IsTopLevel ts item) :
    Accepts topLevel stop ts item rest := by
  cases h with
  | import_ h =>
    have complete : Accepts importDirective stop _ _ rest := importDirective_complete h
    obtain ⟨hk, hpath, hc⟩ := h
    refine accepts_currentThen rfl ?_
    rw [if_pos hk]
    exact complete.andThen .pure
  | namespace_ h =>
    refine reports_nil_iff.1 (reports_topLevelNamespace h IsNamespace.begins fun body => ?_)
    exact (namespacePhrase_complete (fun h _ => declaration_complete h) body (Nat.le_refl _)).reports

theorem topLevelRound_complete {tree : IdlFile} {item : TopLevel} (h : IsTopLevel ts item) :
    Accepts (topLevelRound tree) stop ts (tree.add (some item)) rest :=
  (accepts_recovering (topLevel_complete h)).andThen .pure

theorem foldl_add (before items : List TopLevel) :
    items.foldl (fun tree item => tree.add (some item)) (treeOf before) =
      treeOf (before ++ items) := by
  induction items generalizing before with
  | nil => simp
  | cons item items ih =>
    rw [List.foldl_cons, ← treeOf_snoc, ih, List.append_assoc]
    rfl

theorem file_complete {tree : IdlFile} (h : IsFile ts tree) : Accepts file stop ts tree [] := by
  cases h with
  | @mk items many =>
    rw [← List.nil_append items, ← foldl_add]
    refine many_complete _ [] ?_ IsTopLevel.begins ?_ many (by simp) rfl
    · exact fun h _ => topLevelRound_complete h
    · decide

end IdlFront.Grammar
