import IdlFront.Proofs.Grammar.Soundness
import IdlFront.Proofs.Parser.Recovering

/-! # What declarations accept is in the grammar

The lemmas of soundness for everything that stands in braces, up to whole files. A list whose items
can fail has met no failure if it reported nothing.
-/

namespace IdlFront.Grammar

open IdlFront.Parser IdlFront.ParserState

variable {α : Type} {s t : ParserState} {ts us : List Token}

/-- A list of items with nothing between them. -/
theorem items_sound {item : Parser α} [Uniform item] {phrase : List Token → α → Prop}
    (sound : ∀ {s t ts a}, Yields item s ts a t → phrase ts a) {continues : TokenKind → Bool}
    {resume : List TokenKind} {as : List α}
    (h : Yields (iterate continues (fun as => do
      let a ← recovering resume true item
      return as ++ a.toList) []) s ts as t) : Many phrase ts as := by
  refine h.of_iterate (I := fun ts as _ => Many phrase ts as) ?_ .nil
  intro s t done us as as' _ round kept
  obtain ⟨o, s₁, us, _, hitem, run, rfl⟩ := round.of_bind
  obtain ⟨rfl, rfl⟩ := run.of_pure
  obtain ⟨a, rfl, found⟩ := hitem.of_recovering
  simpa using kept.snoc (sound found)

/-! ## Enumerations -/

theorem initializer_sound {value : Option Literal} {e : Token} (he : e.kind = .punct .equals)
    (h : Yields initializer s ts value t) : IsInitializer (e :: ts) value := by
  have run₁ := h.of_currentThen
  split at run₁
  · next number =>
    obtain ⟨_, s₂, _, _, hadv, run₂, rfl⟩ := run₁.of_bind
    obtain ⟨rfl, rfl⟩ := run₂.of_pure
    obtain ⟨first, hadv⟩ := hadv.of_discard
    rw [← s.current_looked] at number ⊢
    obtain ⟨rfl, rfl⟩ := hadv.of_advance (by obtain eq | eq := number <;> rw [eq] <;> decide)
    obtain eq | eq := number
    · simp only [Token.literal?, eq, TokenKind.literalKind?, Option.map_some, tokenSpan_eq]
      exact .integer he eq
    · simp only [Token.literal?, eq, TokenKind.literalKind?, Option.map_some, tokenSpan_eq]
      exact .hex he eq
  · split at run₁
    · obtain ⟨_, _, _, _, reported, -, -⟩ := run₁.of_bind
      exact absurd reported Yields.not_report
    · exact absurd run₁ Yields.not_refuse

theorem enumMember_sound {m : EnumMember} (h : Yields enumMember s ts m t) :
    Attributed IsMember ts m := by
  have run₁ := h.of_currentThen
  obtain ⟨attributes, s₂, as, _, hattributes, run₂, rfl⟩ := run₁.of_bind
  obtain ⟨n, s₃, us, hn, rfl, run₃⟩ := run₂.of_expectThen (by decide)
  have span := h.moves.span (by simp)
  obtain ⟨e, s₄, us, he, rfl, run₄⟩ | ⟨s₄, -, run₄⟩ := run₃.of_acceptThen (by decide)
  · obtain ⟨value, s₅, us, _, hvalue, run₅, rfl⟩ := run₄.of_bind
    obtain ⟨rfl, rfl⟩ := run₅.of_spanFrom
    have member := IsMember.mk hn (initializer_sound he hvalue)
    simpa only [span, List.append_nil] using Attributed.mk (attributeLists_sound hattributes) member
  · obtain ⟨value, s₅, us, _, hvalue, run₅, rfl⟩ := run₄.of_bind
    obtain ⟨rfl, rfl⟩ := hvalue.of_pure
    obtain ⟨rfl, rfl⟩ := run₅.of_spanFrom
    have member := IsMember.mk hn .absent
    simpa only [span, List.append_nil] using Attributed.mk (attributeLists_sound hattributes) member

/-- Between two members stands a comma, and without one the list is over. -/
theorem memberSeparator_sound {u : Unit} (h : Yields memberSeparator s ts u t) :
    (∃ c, ts = [c] ∧ c.kind = .punct .comma) ∨
      (ts = [] ∧ untilClosed (nextKind t.tokens) = false) := by
  obtain ⟨c, s₁, us, hc, rfl, run₁⟩ | ⟨s₁, -, run₁⟩ := h.of_acceptThen (by decide)
  · obtain ⟨rfl, -⟩ := run₁.of_pure
    exact .inl ⟨c, rfl, hc⟩
  · have run₂ := run₁.of_currentThen
    split at run₂
    · next closed =>
      have tokens := run₂.moves.tokens
      obtain ⟨rfl, -⟩ := run₂.of_pure
      rw [tokens_looked, List.nil_append] at tokens
      refine .inr ⟨rfl, ?_⟩
      rw [run₁.moves.plain.current_kind, tokens] at closed
      simp only [untilClosed, Bool.not_eq_false', Bool.or_eq_true, beq_iff_eq]
      exact closed
    · obtain ⟨_, _, _, _, reported, -, -⟩ := run₂.of_bind
      exact absurd reported Yields.not_report

/-- Some members, the last of them perhaps with a comma behind it; and members without one are the
    last. -/
inductive MembersSoFar (rest : List Token) : List Token → List EnumMember → Prop where
  | none : MembersSoFar rest [] []
  | open_ {ts : List Token} {c : Token} {members : List EnumMember} :
      Separated (.punct .comma) (Attributed IsMember) ts members → c.kind = .punct .comma →
      MembersSoFar rest (ts ++ [c]) members
  | closed {ts : List Token} {members : List EnumMember} :
      Separated (.punct .comma) (Attributed IsMember) ts members →
      untilClosed (nextKind rest) = false → MembersSoFar rest ts members

theorem enumMembers_sound {members : List EnumMember} (h : Yields enumMembers s ts members t) :
    AreMembers ts members := by
  have all := h.of_iterate (I := fun ts members rest => MembersSoFar rest ts members) ?_ .none
  · cases all with
    | none => exact .none
    | open_ members comma => exact .some (.marked members comma)
    | closed members => exact .some (.bare members)
  -- A round starts only where the last member had a comma, or where there is none yet.
  intro s t done us as as' more round kept
  obtain ⟨o, s₁, us, _, hmember, run₁, rfl⟩ := round.of_bind
  obtain ⟨_, s₂, vs, _, hseparator, run₂, rfl⟩ := run₁.of_bind
  obtain ⟨rfl, rfl⟩ := run₂.of_pure
  obtain ⟨member, rfl, found⟩ := hmember.of_recovering
  have all : Separated (.punct .comma) (Attributed IsMember) (done ++ us) (as ++ [member]) := by
    cases kept with
    | none => exact .one (enumMember_sound found)
    | open_ before comma =>
      rw [List.append_assoc]
      exact before.snoc comma (enumMember_sound found)
    | closed _ closed => exact absurd more (by rw [closed]; decide)
  obtain ⟨c, rfl, comma⟩ | ⟨rfl, closed⟩ := memberSeparator_sound hseparator
  · simpa using MembersSoFar.open_ all comma
  · have same := run₂.moves.tokens
    rw [List.nil_append] at same
    simpa using MembersSoFar.closed all (same ▸ closed)

/-- What a declaration gives is a node of the production, with the attributes that were read before
    and the span from the token that was first. -/
theorem enumDecl_sound {start : Token} {attributes : List Attribute} {d : EnumDecl}
    (h : Yields (enumDecl start attributes) s ts d t) :
    ∃ node, IsEnum ts node ∧ d = node attributes (start.spanUntil t.prevStop) := by
  obtain ⟨k, s₁, us, hk, rfl, run₁⟩ := h.of_discardExpectThen (by decide)
  obtain ⟨n, s₂, us, hn, rfl, run₂⟩ := run₁.of_expectThen (by decide)
  obtain ⟨l, s₃, us, hl, rfl, run₃⟩ := run₂.of_discardExpectThen (by decide)
  obtain ⟨members, s₄, us, _, hmembers, run₄, rfl⟩ := run₃.of_bind
  obtain ⟨r, s₅, _, hr, rfl, run₅⟩ := run₄.of_expectOrReportThen (by decide)
  obtain ⟨rfl, rfl⟩ := run₅.of_spanFrom
  exact ⟨_, .mk hk hn hl (enumMembers_sound hmembers) hr, rfl⟩

/-! ## Structs and delegates -/

theorem structField_sound {f : StructField} (h : Yields structField s ts f t) : IsField ts f := by
  have run₁ := h.of_currentThen
  obtain ⟨type, s₂, us, _, htype, run₂, rfl⟩ := run₁.of_bind
  obtain ⟨n, s₃, _, hn, rfl, run₃⟩ := run₂.of_expectThen (by decide)
  obtain ⟨c, s₄, _, hc, rfl, run₄⟩ := run₃.of_expectOrReportThen (by decide)
  obtain ⟨rfl, rfl⟩ := run₄.of_spanFrom
  rw [h.moves.span (by simp)]
  exact .mk (typeRef_sound htype) hn hc

theorem structDecl_sound {start : Token} {attributes : List Attribute} {d : StructDecl}
    (h : Yields (structDecl start attributes) s ts d t) :
    ∃ node, IsStruct ts node ∧ d = node attributes (start.spanUntil t.prevStop) := by
  obtain ⟨k, s₁, us, hk, rfl, run₁⟩ := h.of_discardExpectThen (by decide)
  obtain ⟨n, s₂, us, hn, rfl, run₂⟩ := run₁.of_expectThen (by decide)
  obtain ⟨l, s₃, us, hl, rfl, run₃⟩ := run₂.of_discardExpectThen (by decide)
  obtain ⟨fields, s₄, us, _, hfields, run₄, rfl⟩ := run₃.of_bind
  obtain ⟨r, s₅, _, hr, rfl, run₅⟩ := run₄.of_expectOrReportThen (by decide)
  obtain ⟨rfl, rfl⟩ := run₅.of_spanFrom
  exact ⟨_, .mk hk hn hl (items_sound structField_sound hfields) hr, rfl⟩

set_option synthInstance.maxSize 100000 in
theorem delegateDecl_sound {start : Token} {attributes : List Attribute} {d : DelegateDecl}
    (h : Yields (delegateDecl start attributes) s ts d t) :
    ∃ node, IsDelegate ts node ∧ d = node attributes (start.spanUntil t.prevStop) := by
  obtain ⟨k, s₁, us, hk, rfl, run₁⟩ := h.of_discardExpectThen (by decide)
  obtain ⟨type, s₂, us, _, htype, run₂, rfl⟩ := run₁.of_bind
  obtain ⟨n, s₃, us, hn, rfl, run₃⟩ := run₂.of_expectThen (by decide)
  obtain ⟨l, s₄, us, hl, rfl, run₄⟩ := run₃.of_discardExpectThen (by decide)
  obtain ⟨parameters, s₅, us, _, hparameters, run₅, rfl⟩ := run₄.of_bind
  obtain ⟨r, s₆, us, hr, rfl, run₆⟩ := run₅.of_discardExpectThen (by decide)
  obtain ⟨c, s₇, us, hc, rfl, run₇⟩ := run₆.of_expectOrReportThen (by decide)
  obtain ⟨rfl, rfl⟩ := run₇.of_spanFrom
  refine ⟨_, ?_, rfl⟩
  simpa using IsDelegate.mk hk (typeRef_sound htype) hn hl (parameters_sound hparameters) hr hc

/-! ## Interfaces -/

theorem accessor_sound {before after : List Accessor} (h : Yields (accessor before) s ts after t) :
    ∃ a, IsAccessor ts a ∧ a ∉ before ∧ after = before ++ [a] := by
  have run₁ := h.of_currentThen
  cases ha : accessorOf? s.current with
  | none =>
    simp only [ha] at run₁
    obtain ⟨_, _, _, _, reported, -, -⟩ := run₁.of_bind
    exact absurd reported Yields.not_report
  | some a =>
    simp only [ha] at run₁
    obtain ⟨hn, label⟩ := accessorOf?_eq_some_iff.1 ha
    obtain ⟨_, s₂, _, _, hadv, run₂, rfl⟩ := run₁.of_bind
    obtain ⟨n, hadv⟩ := hadv.of_discard
    rw [← s.current_looked] at hn label
    obtain ⟨rfl, rfl⟩ := hadv.of_advance (by rw [hn]; decide)
    by_cases repeated : a ∈ before
    · simp only [if_pos repeated] at run₂
      obtain ⟨_, _, _, _, reported, -, -⟩ := run₂.of_bind
      exact absurd reported Yields.not_report
    · simp only [if_neg repeated] at run₂
      obtain ⟨c, s₃, us, hc, rfl, run₃⟩ := run₂.of_expectOrReportThen (by decide)
      obtain ⟨rfl, rfl⟩ := run₃.of_pure
      exact ⟨a, .mk hn label hc, repeated, rfl⟩

theorem accessors_sound {found : List Accessor} (h : Yields accessors s ts found t) :
    AreAccessors ts found := by
  obtain ⟨l, s₁, us, hl, rfl, run₁⟩ := h.of_discardExpectThen (by decide)
  obtain ⟨found, s₂, us, _, hfound, run₂, rfl⟩ := run₁.of_bind
  have block : Many IsAccessor us found ∧ found.Nodup := by
    refine hfound.of_iterate (I := fun ts found _ => Many IsAccessor ts found ∧ found.Nodup) ?_
      ⟨.nil, List.nodup_nil⟩
    rintro s t done us as as' - round ⟨many, distinct⟩
    obtain ⟨a, ha, new, rfl⟩ := accessor_sound round
    exact ⟨many.snoc ha, (List.nodup_append.2 ⟨distinct, by simp, by grind⟩)⟩
  have run₃ := run₂.of_currentThen
  split at run₃
  · obtain ⟨_, _, _, _, reported, -, -⟩ := run₃.of_bind
    exact absurd reported Yields.not_report
  · next some =>
    obtain ⟨r, s₄, _, hr, rfl, run₄⟩ := run₃.of_expectOrReportThen (by decide)
    obtain ⟨rfl, rfl⟩ := run₄.of_pure
    -- An empty block would have been reported: the loop stopped at the closing brace with none
    -- found.
    have next : s₂.current.kind = .punct .rbrace := by
      rw [← s₂.current_looked, ← Option.some.inj (run₃.moves.head (List.cons_ne_nil _ _))]
      exact hr
    refine .mk hl block.1 ?_ block.2 hr
    rintro rfl
    simp [next] at some

theorem bases_sound {bs : List TypeRef} (h : Yields bases s ts bs t) : AreBases ts bs := by
  obtain ⟨c, s₁, us, hc, rfl, run₁⟩ | ⟨s₁, -, run₁⟩ := h.of_acceptThen (by decide)
  · exact .some hc (separated_sound typeRef_sound (by decide) run₁)
  · obtain ⟨rfl, rfl⟩ := run₁.of_pure
    exact .none

set_option synthInstance.maxSize 100000 in
theorem interfaceMember_sound {m : InterfaceMember} (h : Yields interfaceMember s ts m t) :
    Attributed IsInterfaceMember ts m := by
  have run₁ := h.of_currentThen
  obtain ⟨attributes, s₂, as, _, hattributes, run₂, rfl⟩ := run₁.of_bind
  have attributes_ := attributeLists_sound hattributes
  -- First whether it is an event, then what stands behind the name: a parenthesis, a block or a
  -- semicolon.
  obtain ⟨e, s₃, us, he, rfl, run₃⟩ | ⟨s₃, -, run₃⟩ := run₂.of_acceptThen (by decide)
  · obtain ⟨type, s₄, us, _, htype, run₄, rfl⟩ := run₃.of_bind
    obtain ⟨n, s₅, _, hn, rfl, run₅⟩ := run₄.of_expectThen (by decide)
    obtain ⟨c, s₆, _, hc, rfl, run₆⟩ := run₅.of_expectOrReportThen (by decide)
    obtain ⟨rfl, rfl⟩ := run₆.of_spanFrom
    rw [h.moves.span (by simp)]
    exact .mk attributes_ (IsInterfaceMember.event he (typeRef_sound htype) hn hc)
  obtain ⟨type, s₄, us, _, htype, run₄, rfl⟩ := run₃.of_bind
  obtain ⟨n, s₅, _, hn, rfl, run₅⟩ := run₄.of_expectThen (by decide)
  have span := h.moves.span (by simp)
  obtain ⟨l, s₆, vs, hl, rfl, run₆⟩ | ⟨s₆, -, run₆⟩ := run₅.of_acceptThen (by decide)
  · obtain ⟨parameters, s₇, ps, _, hparameters, run₇, rfl⟩ := run₆.of_bind
    obtain ⟨r, s₈, _, hr, rfl, run₈⟩ := run₇.of_discardExpectThen (by decide)
    obtain ⟨c, s₉, _, hc, rfl, run₉⟩ := run₈.of_expectOrReportThen (by decide)
    obtain ⟨rfl, rfl⟩ := run₉.of_spanFrom
    rw [span]
    simpa using Attributed.mk attributes_
      (IsInterfaceMember.method (typeRef_sound htype) hn hl (parameters_sound hparameters) hr hc)
  obtain ⟨s₇, -, run₇⟩ | ⟨s₇, -, run₇⟩ := run₆.of_checkThen
  · obtain ⟨accessors, s₈, bs, _, haccessors, run₈, rfl⟩ := run₇.of_bind
    have block := accessors_sound haccessors
    obtain ⟨c, s₉, _, hc, rfl, run₉⟩ | ⟨s₉, run₉⟩ := run₈.of_discardAcceptThen (by decide)
    · obtain ⟨rfl, rfl⟩ := run₉.of_spanFrom
      rw [span]
      exact .mk attributes_ (IsInterfaceMember.property (typeRef_sound htype) hn (.marked block hc))
    · obtain ⟨rfl, rfl⟩ := run₉.of_spanFrom
      rw [span, List.append_nil]
      exact .mk attributes_ (IsInterfaceMember.property (typeRef_sound htype) hn (.bare block))
  · obtain ⟨c, s₈, _, hc, rfl, run₈⟩ := run₇.of_expectOrReportThen (by decide)
    obtain ⟨rfl, rfl⟩ := run₈.of_spanFrom
    rw [span]
    exact .mk attributes_ (IsInterfaceMember.plainProperty (typeRef_sound htype) hn hc)

theorem interfaceDecl_sound {start : Token} {attributes : List Attribute} {d : InterfaceDecl}
    (h : Yields (interfaceDecl start attributes) s ts d t) :
    ∃ node, IsInterface ts node ∧ d = node attributes (start.spanUntil t.prevStop) := by
  obtain ⟨k, s₁, us, hk, rfl, run₁⟩ := h.of_discardExpectThen (by decide)
  obtain ⟨n, s₂, us, hn, rfl, run₂⟩ := run₁.of_expectThen (by decide)
  obtain ⟨bs, s₃, us, _, hbases, run₃, rfl⟩ := run₂.of_bind
  obtain ⟨l, s₄, _, hl, rfl, run₄⟩ := run₃.of_discardExpectThen (by decide)
  obtain ⟨members, s₅, ms, _, hmembers, run₅, rfl⟩ := run₄.of_bind
  obtain ⟨r, s₆, _, hr, rfl, run₆⟩ := run₅.of_expectOrReportThen (by decide)
  obtain ⟨rfl, rfl⟩ := run₆.of_spanFrom
  refine ⟨_, ?_, rfl⟩
  simpa using IsInterface.mk hk hn (bases_sound hbases) hl
    (items_sound interfaceMember_sound hmembers) hr

/-! ## Namespaces -/

theorem declarationRound_sound {declaration : Parser Declaration} [Uniform declaration]
    {phrase : List Token → Declaration → Prop}
    (sound : ∀ {s t ts d}, Yields declaration s ts d t → phrase ts d) {before after : List Declaration}
    (h : Yields (declarationRound declaration before) s ts after t) :
    ∃ d, Followed (.punct .semicolon) phrase ts d ∧ after = before ++ [d] := by
  -- What is parsed next depends on whether there was a declaration.
  obtain ⟨o, s₁, us, _, hitem, run₁, rfl⟩ :=
    @Yields.of_bind _ _ _ _ _ _ _ _ _ (fun o => by cases o <;> infer_instance) h
  obtain ⟨d, rfl, found⟩ := hitem.of_recovering
  obtain ⟨c, s₂, _, hc, rfl, run₂⟩ | ⟨s₂, run₂⟩ := run₁.of_discardAcceptThen (by decide)
  · obtain ⟨rfl, rfl⟩ := run₂.of_pure
    exact ⟨d, .marked (sound found) hc, rfl⟩
  · obtain ⟨rfl, rfl⟩ := run₂.of_pure
    rw [List.append_nil]
    exact ⟨d, .bare (sound found), rfl⟩

theorem declarations_sound {declaration : Parser Declaration} [Uniform declaration]
    {phrase : List Token → Declaration → Prop}
    (sound : ∀ {s t ts d}, Yields declaration s ts d t → phrase ts d) {ds : List Declaration}
    (h : Yields (declarations declaration) s ts ds t) :
    Many (Followed (.punct .semicolon) phrase) ts ds := by
  refine h.of_iterate (I := fun ts ds _ => Many (Followed (.punct .semicolon) phrase) ts ds) ?_ .nil
  intro s t done us ds ds' _ round kept
  obtain ⟨d, found, rfl⟩ := declarationRound_sound sound round
  exact kept.snoc found

theorem namespacePhrase_sound {inner : Parser Declaration} [Uniform inner]
    {phrase : List Token → Declaration → Prop}
    (sound : ∀ {s t ts d}, Yields inner s ts d t → phrase ts d) {start : Token}
    {attributes : List Attribute} {ns : Namespace}
    (h : Yields (namespacePhrase inner start attributes) s ts ns t) :
    ∃ node, IsNamespace phrase ts node ∧ ns = node attributes (start.spanUntil t.prevStop) := by
  obtain ⟨k, s₁, us, hk, rfl, run₁⟩ := h.of_discardExpectThen (by decide)
  obtain ⟨name, s₂, us, _, hname, run₂, rfl⟩ := run₁.of_bind
  obtain ⟨l, s₃, _, hl, rfl, run₃⟩ := run₂.of_discardExpectThen (by decide)
  obtain ⟨ds, s₄, us, _, hds, run₄, rfl⟩ := run₃.of_bind
  obtain ⟨r, s₅, _, hr, rfl, run₅⟩ := run₄.of_expectOrReportThen (by decide)
  obtain ⟨rfl, rfl⟩ := run₅.of_spanFrom
  refine ⟨_, ?_, rfl⟩
  simpa using IsNamespace.mk hk (segments_sound hname) hl (declarations_sound sound hds) hr

/-- A node whose attributes were read first, and whose span starts with them. -/
theorem attributed_sound {phrase : List Token → (List Attribute → Span → α) → Prop}
    {as : List Token} {attributes : List Attribute} {a : α} {kinds : List TokenKind}
    (moves : s.Moves (as ++ us) [] t) (front : AreAttributes as attributes)
    (begins : ∀ {ts node}, phrase ts node → nextKind ts ∈ kinds) (open_ : .eof ∉ kinds)
    (h : ∃ node, phrase us node ∧ a = node attributes (s.current.spanUntil t.prevStop)) :
    Attributed phrase (as ++ us) a := by
  obtain ⟨node, body, rfl⟩ := h
  rw [moves.span (by simp [ne_nil_of_nextKind (begins body) open_])]
  exact .mk front body

theorem declarationPhrase_sound (inner : Parser Declaration) (_ : Uniform inner)
    (sound : ∀ {s t ts d}, Yields inner s ts d t → IsDeclaration ts d) {s t : ParserState}
    {ts : List Token} {d : Declaration} (h : Yields (declarationPhrase inner) s ts d t) :
    IsDeclaration ts d := by
  have run₁ := h.of_currentThen
  obtain ⟨attributes, s₂, as, us, hattributes, run₂, rfl⟩ := run₁.of_bind
  have front := attributeLists_sound hattributes
  have run₃ := run₂.of_currentThen
  split at run₃
  · obtain ⟨ns, run₄, rfl⟩ := run₃.of_map
    exact .namespace_ (attributed_sound h.moves front IsNamespace.begins (by decide)
      (namespacePhrase_sound sound run₄))
  · obtain ⟨d, run₄, rfl⟩ := run₃.of_map
    exact .enum (attributed_sound h.moves front IsEnum.begins (by decide) (enumDecl_sound run₄))
  · obtain ⟨d, run₄, rfl⟩ := run₃.of_map
    exact .struct
      (attributed_sound h.moves front IsStruct.begins (by decide) (structDecl_sound run₄))
  · obtain ⟨d, run₄, rfl⟩ := run₃.of_map
    exact .delegate
      (attributed_sound h.moves front IsDelegate.begins (by decide) (delegateDecl_sound run₄))
  · obtain ⟨d, run₄, rfl⟩ := run₃.of_map
    exact .interface
      (attributed_sound h.moves front IsInterface.begins (by decide) (interfaceDecl_sound run₄))
  · exact absurd run₃ Yields.not_unexpected

theorem declaration_sound {d : Declaration} (h : Yields declaration s ts d t) :
    IsDeclaration ts d :=
  nested_sound (fun _ _ => inferInstance) Yields.not_unexpected declarationPhrase_sound h

/-! ## Files -/

theorem importDirective_sound {i : Import} (h : Yields importDirective s ts i t) :
    IsImport ts i := by
  obtain ⟨k, s₁, us, hk, rfl, run₁⟩ := h.of_expectThen (by decide)
  obtain ⟨path, s₂, _, hpath, rfl, run₂⟩ := run₁.of_expectThen (by decide)
  obtain ⟨c, s₃, _, hc, rfl, run₃⟩ := run₂.of_expectOrReportThen (by decide)
  obtain ⟨rfl, rfl⟩ := run₃.of_spanFrom
  have first : k = s.current := Option.some.inj (h.moves.head (List.cons_ne_nil _ _))
  rw [first, h.moves.span (List.cons_ne_nil _ _), ← first]
  exact .mk hk hpath hc

theorem topLevel_sound {item : TopLevel} (h : Yields topLevel s ts item t) :
    IsTopLevel ts item := by
  have run₁ := h.of_currentThen
  split at run₁
  · obtain ⟨i, himport, rfl⟩ := run₁.of_thenPure
    exact .import_ (importDirective_sound himport)
  · obtain ⟨attributes, s₂, as, us, hattributes, run₂, rfl⟩ := run₁.of_bind
    obtain ⟨s₃, -, run₃⟩ | ⟨s₃, -, run₃⟩ := run₂.of_checkThen
    · obtain ⟨ns, hns, rfl⟩ := run₃.of_thenPure
      exact .namespace_ (attributed_sound h.moves (attributeLists_sound hattributes)
        IsNamespace.begins (by decide) (namespacePhrase_sound declaration_sound hns))
    · exact absurd run₃ Yields.not_unexpected

theorem file_sound {tree : IdlFile} (h : Yields file s ts tree t) : IsFile ts tree := by
  suffices ∃ items, Many IsTopLevel ts items ∧ tree = treeOf items by
    obtain ⟨items, many, rfl⟩ := this
    exact .mk many
  refine h.of_iterate
    (I := fun ts tree _ => ∃ items, Many IsTopLevel ts items ∧ tree = treeOf items) ?_
    ⟨[], .nil, rfl⟩
  rintro s t done us _ tree' - round ⟨items, many, rfl⟩
  obtain ⟨o, hitem, rfl⟩ := round.of_thenPure
  obtain ⟨item, rfl, found⟩ := hitem.of_recovering
  exact ⟨items ++ [item], many.snoc (topLevel_sound found), (treeOf_snoc items item).symm⟩

end IdlFront.Grammar
