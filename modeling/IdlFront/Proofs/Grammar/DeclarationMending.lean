import IdlFront.Proofs.Grammar.Mending
import IdlFront.Proofs.Grammar.Recognition
import IdlFront.Proofs.Parser.Placeless
import IdlFront.Proofs.Parser.Termination

/-! # Declarations of which some tokens are missing

The lemmas on phrases in braces, up to whole files: each is read as it would be without anything
missing, up to spans.

* `omissions_mended` — a file without some omissible tokens is parsed to the same tree up to spans,
  with one diagnostic for each missing token.
-/

namespace IdlFront.Grammar

open IdlFront.Parser IdlFront.ParserState

variable {α β δ : Type} {n : Nat} {before after ts us : List Token} {c : Token}
  {kinds : List TokenKind} {e' : β → δ}

/-! ## Phrases in front of a name or a brace -/

theorem outside_snoc (outside : enclosure before = .outside)
    (steady : Enclosure.outside.behind c.kind = .outside) :
    enclosure (before ++ [c]) = .outside := by
  rw [enclosure_snoc, outside, steady]

/-- A type and the name behind it. -/
theorem mends_typedNameThen {type : TypeRef} {name : Token} {f : TypeRef → Token → Parser β} {b : β}
    (htype : IsType ts type) (hname : name.kind = .identifier) (outside : enclosure before = .outside)
    (h : enclosure (before ++ ts ++ [name]) = .outside →
      Mends e' (f type name) (before ++ ts ++ [name]) us b after) :
    Mends e' (do
      let type ← typeRef
      let name ← expect .identifier
      f type name) before (ts ++ name :: us) b after := by
  refine mends_phrase (a := type) outside htype.ofKinds (fun thins => ?_) fun outside => ?_
  · have leads : Leads (before ++ ts) (name :: us ++ after) [.identifier] :=
      leads_begins (by simp [hname]) (by decide)
    exact typeRef_complete htype (leads.avoids (by decide) thins)
  · exact mends_expectThen hname (by decide) (h (outside_snoc outside (by rw [hname]; decide)))

/-- Parameters and the parenthesis behind them. -/
theorem mends_parametersThen {parameters' : List Parameter} {r : Token}
    {f : List Parameter → Parser β} {b : β} (h : AreParameters ts parameters')
    (hr : r.kind = .punct .rparen) (outside : enclosure before = .outside)
    (next : Mends e' (f parameters') (before ++ ts ++ [r]) us b after) :
    Mends e' (do
      let parameters ← parameters
      discard (expect (.punct .rparen))
      f parameters) before (ts ++ r :: us) b after := by
  refine mends_phrase (a := parameters') outside h.ofKinds (fun thins => ?_) fun _ => ?_
  · have leads : Leads (before ++ ts) (r :: us ++ after) [.punct .rparen] :=
      leads_begins (by simp [hr]) (by decide)
    exact parameters_complete h (List.mem_singleton.1 (leads thins))
  · exact mends_discardExpectThen hr (by decide) next

/-- Attributes in front of something else. -/
theorem mends_attributesThen {attributes : List Attribute} {f : List Attribute → Parser β} {b : β}
    (h : AreAttributes ts attributes) (begins : nextKind us ∈ kinds)
    (fixed : ∀ k ∈ kinds, k ∉ omissibleKinds ∧ k ≠ .eof) (noBracket : .punct .lbracket ∉ kinds)
    (outside : enclosure before = .outside)
    (next : enclosure (before ++ ts) = .outside →
      Mends e' (f attributes) (before ++ ts) us b after) :
    Mends e' (attributeLists >>= f) before (ts ++ us) b after := by
  refine mends_phrase (a := attributes) outside h.ofKinds (fun thins => ?_) next
  exact attributeLists_complete h (ne_of_mem_of_not_mem (leads_begins begins fixed thins) noBracket)

/-! ## Enumerations -/

theorem mends_enumMember {m : EnumMember} (h : Attributed IsMember ts m)
    (start : enclosure before = .members) (leads : Leads (before ++ ts) after kinds)
    (apart : .punct .equals ∉ kinds) : Mends id enumMember before ts m after :=
  .of_accepts ((IsMember.passes h).intact start) fun thins =>
    enumMember_complete h (ne_of_mem_of_not_mem (leads thins) apart)

/-- In front of another member a missing comma is reported and taken as read. -/
theorem memberSeparator_missing {s : ParserState}
    (member : s.current.kind ∈ [TokenKind.punct .lbracket, .identifier]) :
    memberSeparator s = .ok () (s.looked.looked.reported (s.current.report
      (.expected [.punct .comma, .punct .rbrace] s.current))) := by
  have noComma : s.current.kind ≠ .punct .comma := ne_of_mem_of_not_mem member (by decide)
  have inside : ¬ (s.current.kind = .punct .rbrace ∨ s.current.kind = .eof) := by
    rintro (eq | eq) <;> simp [eq] at member
  have goesOn : s.current.kind = .identifier ∨ s.current.kind = .punct .lbracket := by
    simpa [or_comm] using member
  unfold memberSeparator
  rw [bind_apply, accept_apply, if_neg noComma]
  simp only [Bool.false_eq_true, if_false, bind_apply, Parser.current, current_looked]
  rw [if_neg inside, if_pos goesOn]
  rfl

/-- What can stand behind the comma behind a member. -/
def memberFollowers : List TokenKind := [.punct .lbracket, .identifier, .punct .rbrace]

theorem next_of_missing_comma {k : Nat} (omissible : Omissible before c after)
    (eq : c.kind = .punct .comma) (next : nextKind after ∈ memberFollowers)
    (thins : Thins (before ++ [c]) after us k) :
    nextKind us ∈ [TokenKind.punct .lbracket, .identifier] := by
  have member : nextKind after ∈ [TokenKind.punct .lbracket, .identifier] := by
    simpa [memberFollowers, (omissible.comma_inv eq).2] using next
  have leads : Leads (before ++ [c]) (after ++ []) [.punct .lbracket, .identifier] :=
    leads_begins member (by decide)
  exact leads (by simpa using thins)

theorem leads_comma (eq : c.kind = .punct .comma) (next : nextKind after ∈ memberFollowers) :
    Leads before (c :: after) [.punct .comma, .punct .lbracket, .identifier] := by
  intro us k thins
  cases thins with
  | keep => simp [eq]
  | drop omissible rest =>
    exact List.mem_cons_of_mem _ (next_of_missing_comma omissible eq next rest)

/-- A comma behind a member. It may be missing in front of another member. -/
theorem mends_memberComma (eq : c.kind = .punct .comma) (next : nextKind after ∈ memberFollowers) :
    Mends id memberSeparator before [c] () after := by
  refine mends_omissible (memberSeparator_complete (.comma eq)) fun {n s} omissible along => ?_
  obtain ⟨k, thins, -⟩ := along.thinned
  have member : s.current.kind ∈ [TokenKind.punct .lbracket, .identifier] := by
    rw [along.plain.current_kind]
    exact next_of_missing_comma omissible eq next thins
  exact ⟨_, memberSeparator_missing member, along.looked.looked.reported _⟩

/-- Behind the last member of an enumeration. -/
theorem mends_memberEnd (leads : Leads before after closers) :
    Mends id memberSeparator before [] () after := by
  refine mends_acceptElse leads (by decide) (mends_peekThen leads fun t kind => ?_)
  rw [if_pos (by simpa [closers] using kind)]
  exact mends_pure rfl

theorem mends_enumMemberRound {m : EnumMember} {found : List EnumMember}
    (h : Attributed IsMember ts m) (start : enclosure before = .members)
    (leads : Leads (before ++ ts) (us ++ after) kinds) (apart : .punct .equals ∉ kinds)
    (behind : Mends id memberSeparator (before ++ ts) us () after) :
    Mends id (enumMemberRound found) before (ts ++ us) (found ++ [m]) after := by
  refine mends_recoveringThen (mends_enumMember h start leads apart) ?_
  rintro m' rfl
  exact behind.andThen fun _ _ => mends_pure rfl

/-- The members of an enumeration, perhaps with a comma behind the last one. -/
theorem mends_enumMembers_loop {members found : List EnumMember}
    (h : Separated (.punct .comma) (Attributed IsMember) ts members)
    (last : us = [] ∨ ∃ c, us = [c] ∧ c.kind = .punct .comma)
    (start : enclosure before = .members) (closed : nextKind after = .punct .rbrace) :
    Mends id (iterate untilClosed enumMemberRound found) before (ts ++ us) (found ++ members)
      after := by
  have fixed : ∀ k ∈ [TokenKind.punct .lbracket, .identifier], k ∉ omissibleKinds ∧ k ≠ .eof := by
    decide
  -- Each round reads a member and the comma behind it, which may be missing between two members.
  induction h generalizing before found with
  | @one ts m first =>
    have begins := nextKind_append_mem (first.begins IsMember.begins) (by decide) us
    have round : Mends id (enumMemberRound found) before (ts ++ us) (found ++ [m]) after := by
      obtain rfl | ⟨c, rfl, comma⟩ := last
      · exact mends_enumMemberRound first start (leads_close closed) (by decide)
          (mends_memberEnd (leads_close closed))
      · have next : nextKind after ∈ memberFollowers := by simp [closed, memberFollowers]
        exact mends_enumMemberRound first start (leads_comma comma next) (by decide)
          (mends_memberComma comma next)
    rw [← List.append_nil (ts ++ us)]
    refine mends_iterate_cons enumMemberRound_lowers (leads_begins begins fixed) (by decide)
      round ?_
    exact fun found' same => mends_iterate_nil (leads_close closed) (by decide) same
  | @cons ts ts' m c members first comma more ih =>
    have begins := nextKind_append_mem (first.begins IsMember.begins) (by decide) [c]
    have next : nextKind ((ts' ++ us) ++ after) ∈ memberFollowers := by
      have member := more.begins (fun first => first.begins IsMember.begins) (by decide)
      rw [List.append_assoc]
      exact List.mem_append_left [.punct .rbrace] (nextKind_append_mem member (by decide) _)
    have round : Mends id (enumMemberRound found) before (ts ++ [c]) (found ++ [m])
        ((ts' ++ us) ++ after) :=
      mends_enumMemberRound first start (leads_comma comma next) (by decide)
        (mends_memberComma comma next)
    have behind : enclosure (before ++ (ts ++ [c])) = .members := by
      rw [← List.append_assoc, enclosure_snoc, (IsMember.passes first).arrives start, comma]
      rfl
    have loop : Mends id (iterate untilClosed enumMemberRound found) before
        ((ts ++ [c]) ++ (ts' ++ us)) (found ++ [m] ++ members) after := by
      refine mends_iterate_cons enumMemberRound_lowers (leads_begins begins fixed) (by decide)
        round ?_
      rintro found' rfl
      exact ih behind
    simpa using loop

theorem mends_enumMembers {members : List EnumMember} (h : AreMembers ts members)
    (start : enclosure before = .members) (closed : nextKind after = .punct .rbrace) :
    Mends id enumMembers before ts members after := by
  cases h with
  | none => exact mends_iterate_nil (leads_close closed) (by decide) rfl
  | some all =>
    cases all with
    | bare all =>
      rw [← List.append_nil ts]
      exact mends_enumMembers_loop all (.inl rfl) start closed
    | marked all comma => exact mends_enumMembers_loop all (.inr ⟨_, rfl, comma⟩) start closed

/-- Wherever an enumeration is declared, its members are read in its braces. -/
theorem mends_enumDecl {start : Token} {attributes : List Attribute} {span : Span}
    {node : List Attribute → Span → EnumDecl} (h : IsEnum ts node) :
    Mends EnumDecl.bare (enumDecl start attributes) before ts (node attributes span) after := by
  obtain @⟨k, n, l, r, us, members, hk, hn, hl, all, hr⟩ := h
  have inside : enclosure (before ++ [k] ++ [n] ++ [l]) = .members := by
    simp only [enclosure_snoc, hk, hn, hl, Enclosure.behind]
  have block : Mends id enumMembers (before ++ [k] ++ [n] ++ [l]) us members ([r] ++ after) :=
    mends_enumMembers all inside hr
  refine mends_discardExpectThen hk (by decide) (mends_expectThen hn (by decide)
    (mends_discardExpectThen hl (by decide) (block.bind ?_)))
  rintro members' rfl
  exact mends_closeThen hr (mends_spanFrom fun _ => rfl)

/-! ## Structs and delegates -/

theorem mends_structField {f : StructField} (h : IsField ts f)
    (outside : enclosure before = .outside) :
    Mends StructField.bare structField before ts f after := by
  obtain ⟨type, hn, hc⟩ := h
  refine mends_lookThen fun start => mends_typedNameThen type hn outside fun _ => ?_
  exact mends_semicolonThen hc (mends_spanFrom fun _ => rfl)

theorem mends_structDecl {start : Token} {attributes : List Attribute} {span : Span}
    {node : List Attribute → Span → StructDecl} (h : IsStruct ts node)
    (outside : enclosure before = .outside) :
    Mends StructDecl.bare (structDecl start attributes) before ts (node attributes span) after := by
  obtain @⟨k, n, l, r, us, fields, hk, hn, hl, all, hr⟩ := h
  have inside : enclosure (before ++ [k] ++ [n] ++ [l]) = .outside := by
    simp only [enclosure_snoc, hk, hn, hl, outside, Enclosure.behind]
  have block : Mends (List.map StructField.bare) structFields (before ++ [k] ++ [n] ++ [l]) us fields
      ([r] ++ after) :=
    mends_items IsField.begins IsField.ended (by decide) (fun field outside _ =>
      mends_structField field outside) all inside (leads_close hr)
  refine mends_discardExpectThen hk (by decide) (mends_expectThen hn (by decide)
    (mends_discardExpectThen hl (by decide) (block.bind fun fields' same => ?_)))
  exact mends_closeThen hr (mends_spanFrom fun _ => by simp [StructDecl.bare, same, Span.bare])

theorem mends_delegateDecl {start : Token} {attributes : List Attribute} {span : Span}
    {node : List Attribute → Span → DelegateDecl} (h : IsDelegate ts node)
    (outside : enclosure before = .outside) :
    Mends DelegateDecl.bare (delegateDecl start attributes) before ts (node attributes span)
      after := by
  obtain ⟨hk, type, hn, hl, parameters, hr, hc⟩ := h
  simp only [List.cons_append, List.append_assoc]
  refine mends_discardExpectThen hk (by decide) (mends_typedNameThen type hn
    (outside_snoc outside (by rw [hk]; decide)) fun outside => ?_)
  refine mends_discardExpectThen hl (by decide) (mends_parametersThen parameters hr
    (outside_snoc outside (by rw [hl]; decide)) ?_)
  exact mends_semicolonThen hc (mends_spanFrom fun _ => rfl)

/-! ## Interfaces -/

theorem mends_accessor {a : Accessor} {found : List Accessor} (h : IsAccessor ts a)
    (new : a ∉ found) : Mends id (accessor found) before ts (found ++ [a]) after := by
  obtain @⟨t, c, a, hn, label, hc⟩ := h
  have fixed : t.kind ∉ omissibleKinds := by rw [hn]; decide
  refine mends_currentThen fixed ?_
  simp only [accessorOf?_eq_some_iff.2 ⟨hn, label⟩, if_neg new]
  exact Mends.bind_single (.of_accepts (intact_single fixed) fun _ => accepts_advance.discard)
    fun _ _ => mends_semicolonThen hc (mends_pure rfl)

theorem mends_accessors_loop {as found : List Accessor} (h : Many IsAccessor ts as)
    (distinct : (found ++ as).Nodup) (closed : nextKind after = .punct .rbrace) :
    Mends id (iterate untilClosed accessor found) before ts (found ++ as) after := by
  induction h generalizing before found with
  | nil => exact mends_iterate_nil (leads_close closed) (by decide) (by simp)
  | @cons ts us a as first more ih =>
    have new : a ∉ found := fun h =>
      (List.nodup_append.1 distinct).2.2 a h a List.mem_cons_self rfl
    rw [List.append_cons] at distinct ⊢
    refine mends_iterate_cons accessor_lowers (leads_begins first.begins (by decide)) (by decide)
      (mends_accessor first new) ?_
    rintro found' rfl
    exact ih distinct

theorem mends_accessors {as : List Accessor} (h : AreAccessors ts as) :
    Mends id accessors before ts as after := by
  obtain @⟨l, r, us, as, hl, all, nonempty, distinct, hr⟩ := h
  have loop : Mends id (iterate untilClosed accessor []) (before ++ [l]) us as ([r] ++ after) :=
    mends_accessors_loop all (by simpa using distinct) (by simpa using hr)
  refine mends_discardExpectThen hl (by decide) (loop.bind fun as' same => ?_)
  obtain rfl : as' = as := same
  -- Some accessor has been found, so that none is missed at the brace.
  refine mends_lookThen fun t => ?_
  rw [if_neg (by simp [nonempty])]
  exact mends_closeThen hr (mends_pure rfl)

/-- The bases of an interface, in front of its brace. -/
theorem mends_basesThen {bs : List TypeRef} {f : List TypeRef → Parser β} {b : β}
    (h : AreBases ts bs) (next : nextKind us = .punct .lbrace) (outside : enclosure before = .outside)
    (more : enclosure (before ++ ts) = .outside → Mends e' (f bs) (before ++ ts) us b after) :
    Mends e' (bases >>= f) before (ts ++ us) b after := by
  refine mends_phrase (a := bs) outside h.ofKinds (fun thins => ?_) more
  have leads : Leads (before ++ ts) (us ++ after) [.punct .lbrace] :=
    leads_begins (by simp [next]) (by decide)
  exact bases_complete h (List.mem_singleton.1 (leads thins))

/-- The kinds of tokens behind a member of an interface. -/
def memberFollowing : List TokenKind := (.punct .lbracket :: memberBeginnings) ++ closers

theorem mends_interfaceMember {m : InterfaceMember} (h : Attributed IsInterfaceMember ts m)
    (outside : enclosure before = .outside) (leads : Leads (before ++ ts) after memberFollowing) :
    Mends InterfaceMember.bare interfaceMember before ts m after := by
  obtain @⟨as, us, attributes, node, front, body⟩ := h
  have notEvent : ∀ {before ts rest : List Token} {type : TypeRef},
      IsType ts type → Leads before (ts ++ rest) typeBeginnings := fun type =>
    leads_begins type.begins (by decide)
  refine mends_lookThen fun start => mends_attributesThen front body.begins (by decide) (by decide)
    outside fun outside => ?_
  -- The kinds of members differ in what stands behind the type and the name.
  cases body with
  | event hk type hn hc =>
    refine mends_acceptThen hk (by decide) (mends_typedNameThen type hn
      (outside_snoc outside (by rw [hk]; decide)) fun _ => ?_)
    exact mends_semicolonThen hc (mends_spanFrom fun _ => rfl)
  | method type hn hl parameters hr hc =>
    simp only [List.append_assoc, List.cons_append]
    refine mends_acceptElse (by rw [List.append_assoc]; exact notEvent type) (by decide)
      (mends_typedNameThen type hn outside fun outside => mends_acceptThen hl (by decide) ?_)
    refine mends_parametersThen parameters hr (outside_snoc outside (by rw [hl]; decide)) ?_
    exact mends_semicolonThen hc (mends_spanFrom fun _ => rfl)
  | @property n ts bs type found htype hn block =>
    refine mends_acceptElse (by rw [List.append_assoc]; exact notEvent htype) (by decide)
      (mends_typedNameThen htype hn outside fun outside => ?_)
    have brace : ∀ before, Leads before (bs ++ after) [.punct .lbrace] := fun _ =>
      leads_begins (block.begins AreAccessors.begins (by decide)) (by decide)
    refine mends_acceptElse (brace _) (by decide) (mends_checkThen (brace _) ?_)
    cases block with
    | bare block =>
      -- No semicolon is next, so the optional one is not taken.
      have behind : Leads (before ++ as ++ ts ++ [n] ++ bs) after memberFollowing := by
        simpa using leads
      refine (mends_accessors block).andThen ?_
      rintro found' rfl
      exact (mends_accept_not behind (by decide)).discard.andThen fun _ _ =>
        mends_spanFrom fun _ => rfl
    | marked block hc =>
      -- The member does not need the semicolon, so it is still there.
      refine (mends_accessors block).bind ?_
      rintro found' rfl
      exact (mends_accept hc (block.ended.not_omissible hc)).discard.andThen fun _ _ =>
        mends_spanFrom fun _ => rfl
  | @plainProperty n c ts type htype hn hc =>
    -- Without its semicolon the member is followed by nothing that would make it a method or give it
    -- accessors.
    have behind : Leads (before ++ as ++ ts ++ [n]) (c :: ([] ++ after))
        (.punct .semicolon :: memberFollowing) := leads_semicolon hc (by simpa using leads)
    refine mends_acceptElse (by rw [List.append_assoc]; exact notEvent htype) (by decide)
      (mends_typedNameThen htype hn outside fun _ => ?_)
    refine mends_acceptElse behind (by decide) (mends_checkElse behind (by decide) ?_)
    exact mends_semicolonThen hc (mends_spanFrom fun _ => rfl)

theorem mends_interfaceDecl {start : Token} {attributes : List Attribute} {span : Span}
    {node : List Attribute → Span → InterfaceDecl} (h : IsInterface ts node)
    (outside : enclosure before = .outside) :
    Mends InterfaceDecl.bare (interfaceDecl start attributes) before ts (node attributes span)
      after := by
  obtain @⟨k, n, l, r, bs, us, bases, members, hk, hn, hbases, hl, all, hr⟩ := h
  simp only [List.cons_append, List.append_assoc]
  have named : enclosure (before ++ [k] ++ [n]) = .outside := by
    simp only [enclosure_snoc, hk, hn, outside, Enclosure.behind]
  refine mends_discardExpectThen hk (by decide) (mends_expectThen hn (by decide)
    (mends_basesThen hbases (by simpa using hl) named fun outside => ?_))
  have inside : enclosure (before ++ [k] ++ [n] ++ bs ++ [l]) = .outside :=
    outside_snoc outside (by rw [hl]; decide)
  have block : Mends (List.map InterfaceMember.bare) interfaceMembers
      (before ++ [k] ++ [n] ++ bs ++ [l]) us members ([r] ++ after) :=
    mends_items (Attributed.begins IsInterfaceMember.begins)
      (Attributed.ended IsInterfaceMember.ended) (by decide) mends_interfaceMember all inside
      (leads_close hr)
  refine mends_discardExpectThen hl (by decide) (block.bind fun members' same => ?_)
  exact mends_closeThen hr (mends_spanFrom fun _ => by simp [InterfaceDecl.bare, same, Span.bare])

/-! ## Namespaces -/

/-- A declaration in a namespace, and a semicolon behind it where there is one. -/
theorem mends_declarationRound {d : Declaration} {ds ds' : List Declaration}
    (h : Followed (.punct .semicolon) IsDeclaration ts d)
    (each : ∀ {before ts after}, IsDeclaration ts d → enclosure before = .outside →
      Mends Declaration.bare declaration before ts d after)
    (outside : enclosure before = .outside)
    (leads : Leads (before ++ ts) after ((.punct .lbracket :: declarationKeywords) ++ closers))
    (same : ds'.map Declaration.bare = ds.map Declaration.bare) :
    Mends (List.map Declaration.bare) (declarationRound declaration ds') before ts (ds ++ [d])
      after := by
  cases h with
  | bare h =>
    refine (mends_recovering (each h outside)).andThen fun o same' => ?_
    obtain ⟨d', rfl, same''⟩ := Option.map_eq_some_iff.1 same'
    exact (mends_accept_not leads (by decide)).discard.andThen fun _ _ =>
      mends_pure (by simp [same, same''])
  | marked h hc =>
    refine mends_recoveringThen (each h outside) fun d' same' => ?_
    exact (mends_accept hc (h.ended.not_omissible hc)).discard.andThen fun _ _ =>
      mends_pure (by simp [same, same'])

theorem mends_namespaceDecl {start : Token} {attributes : List Attribute} {span : Span}
    {node : List Attribute → Span → Namespace} (h : IsNamespace IsDeclaration ts node)
    (each : ∀ {before ts d after}, d ∈ (node attributes span).declarations → IsDeclaration ts d →
      enclosure before = .outside → Mends Declaration.bare declaration before ts d after)
    (outside : enclosure before = .outside) :
    Mends Namespace.bare (namespaceDecl start attributes) before ts (node attributes span) after := by
  obtain @⟨k, l, r, ns, us, name, ds, hk, hname, hl, all, hr⟩ := h
  simp only [List.cons_append, List.append_assoc]
  refine mends_discardExpectThen hk (by decide) (mends_phrase (a := name)
    (outside_snoc outside (by rw [hk]; decide)) (IsQualified.ofKinds hname (by decide) (by decide))
    (fun thins => segments_complete hname ?_) fun outside => ?_)
  · have leads : Leads (before ++ [k] ++ ns) (l :: (us ++ [r]) ++ after) [.punct .lbrace] :=
      leads_begins (by simp [hl]) (by decide)
    exact ne_of_mem_of_not_mem (leads thins) (by decide)
  have closed : Leads (before ++ [k] ++ ns ++ [l] ++ us) ([r] ++ after) closers := leads_close hr
  have block : Mends (List.map Declaration.bare) (declarations declaration)
      (before ++ [k] ++ ns ++ [l]) us ds ([r] ++ after) := by
    rw [← List.nil_append ds, ← foldl_snoc [] ds]
    refine mends_many _ declarationRound_lowers (Followed.begins IsDeclaration.begins (by decide))
      (Followed.ended IsDeclaration.ended) (by decide) (by decide) ?_ all
      (outside_snoc outside (by rw [hl]; decide)) closed rfl
    exact fun mem first => mends_declarationRound first (each mem)
  refine mends_discardExpectThen hl (by decide) (block.bind fun ds' same => ?_)
  refine mends_closeThen hr (mends_spanFrom fun _ => ?_)
  simp [Namespace.bare, Declaration.allBare_eq, same, Span.bare]

/-- A node behind attributes, which are read first. The first token behind them tells what the node
    is. -/
theorem mends_attributedOfKind {phrase : List Token → (List Attribute → Span → α) → Prop} {a : α}
    {p : Token → List Attribute → Token → Parser β} {kind : TokenKind} (wrap : α → β)
    (h : Attributed phrase ts a) (begins : ∀ {ts node}, phrase ts node → nextKind ts ∈ [kind])
    (fixed : kind ∉ omissibleKinds ∧ kind ≠ .eof) (noBracket : kind ≠ .punct .lbracket)
    (outside : enclosure before = .outside)
    (mends : ∀ {before us node start attributes span} {first : Token}, phrase us node →
      node attributes span = a → enclosure before = .outside → first.kind = kind →
      Mends e' (p start attributes first) before us (wrap a) after) :
    Mends e' (do
      let start ← Parser.current
      let attributes ← attributeLists
      let first ← Parser.current
      p start attributes first) before ts (wrap a) after := by
  obtain ⟨front, body⟩ := h
  have fixed : ∀ k ∈ [kind], k ∉ omissibleKinds ∧ k ≠ .eof := by simpa using fixed
  refine mends_lookThen fun start => mends_attributesThen front (begins body) fixed
    (by simpa using noBracket.symm) outside fun outside => ?_
  refine mends_peekThen (leads_begins (begins body) fixed) fun first eq => ?_
  exact mends body rfl outside (List.mem_singleton.1 eq)

theorem mends_declaration {before ts after : List Token} : {d : Declaration} → IsDeclaration ts d →
    enclosure before = .outside → Mends Declaration.bare declaration before ts d after
  | .namespace_ ⟨name, ds, attributes, span⟩, .namespace_ h, outside => by
    -- The declarations in a namespace are smaller than it is.
    have each : ∀ {before ts d after}, d ∈ ds → IsDeclaration ts d → enclosure before = .outside →
        Mends Declaration.bare declaration before ts d after := fun mem h => mends_declaration h
    refine Mends.congr declaration_unfold ?_
    refine mends_attributedOfKind Declaration.namespace_ h IsNamespace.begins (by decide) (by decide)
      outside fun body eq outside kind => ?_
    simp only [kind]
    rw [← eq]
    exact (mends_namespaceDecl body (fun mem => each (by rwa [eq] at mem)) outside).map
      fun _ same => congrArg Declaration.namespace_ same
  | .enum d, .enum h, outside => by
    refine Mends.congr declaration_unfold ?_
    refine mends_attributedOfKind Declaration.enum h IsEnum.begins (by decide) (by decide)
      outside fun body eq _ kind => ?_
    simp only [kind]
    rw [← eq]
    exact (mends_enumDecl body).map fun _ same => congrArg Declaration.enum same
  | .struct d, .struct h, outside => by
    refine Mends.congr declaration_unfold ?_
    refine mends_attributedOfKind Declaration.struct h IsStruct.begins (by decide) (by decide)
      outside fun body eq outside kind => ?_
    simp only [kind]
    rw [← eq]
    exact (mends_structDecl body outside).map fun _ same => congrArg Declaration.struct same
  | .delegate d, .delegate h, outside => by
    refine Mends.congr declaration_unfold ?_
    refine mends_attributedOfKind Declaration.delegate h IsDelegate.begins (by decide) (by decide)
      outside fun body eq outside kind => ?_
    simp only [kind]
    rw [← eq]
    exact (mends_delegateDecl body outside).map fun _ same => congrArg Declaration.delegate same
  | .interface d, .interface h, outside => by
    refine Mends.congr declaration_unfold ?_
    refine mends_attributedOfKind Declaration.interface h IsInterface.begins (by decide) (by decide)
      outside fun body eq outside kind => ?_
    simp only [kind]
    rw [← eq]
    exact (mends_interfaceDecl body outside).map fun _ same => congrArg Declaration.interface same

/-! ## Files -/

theorem mends_importDirective {i : Import} (h : IsImport ts i) :
    Mends Import.bare importDirective before ts i after := by
  obtain ⟨hk, hpath, hc⟩ := h
  exact mends_expectThen hk (by decide) (mends_expectThen hpath (by decide)
    (mends_semicolonThen hc (mends_spanFrom fun _ => rfl)))

theorem mends_topLevel {item : TopLevel} (h : IsTopLevel ts item)
    (outside : enclosure before = .outside) : Mends bareItem topLevel before ts item after := by
  cases h with
  | import_ h =>
    have directive : Mends Import.bare importDirective before _ _ after := mends_importDirective h
    obtain ⟨hk, -, -⟩ := h
    refine mends_currentThen (by rw [hk]; decide) ?_
    rw [if_pos hk]
    exact directive.andThen fun i' same => mends_pure (congrArg TopLevel.import_ same)
  | namespace_ h =>
    -- The first token of a namespace is no `import`, whether it has attributes or not.
    have begins := h.begins IsNamespace.begins
    obtain ⟨front, body⟩ := h
    refine mends_peekThen (leads_begins begins (by decide)) fun start kind => ?_
    rw [if_neg (ne_of_mem_of_not_mem kind (by decide))]
    refine mends_attributesThen front body.begins (by decide) (by decide) outside fun outside => ?_
    refine mends_checkThen (leads_begins body.begins (by decide)) ?_
    exact (mends_namespaceDecl body (fun _ => mends_declaration) outside).andThen
      fun _ same => mends_pure (congrArg TopLevel.namespace_ same)

theorem mends_file {tree : IdlFile} (h : IsFile ts tree) :
    Mends IdlFile.bare file [] ts tree [] := by
  cases h with
  | @mk items many =>
    rw [← List.nil_append items, ← foldl_add]
    refine mends_many _ topLevelRound_lowers IsTopLevel.begins IsTopLevel.ended (by decide)
      (by decide) ?_ many rfl leads_nil rfl
    intro before ts item after tree tree' _ first outside _ same
    exact (mends_recovering (mends_topLevel first outside)).andThen fun o same' =>
      mends_pure (bare_add same same')

end IdlFront.Grammar

namespace IdlFront

open IdlFront.Parser IdlFront.ParserState IdlFront.Grammar

/-- The tokens from the first end of input on. -/
def fromEof (ts : List Token) : List Token := ts.dropWhile fun t => !t.isEof

/-- What stands before the end of input can be exchanged. -/
theorem beforeEof_append {us : List Token} (noEof : ∀ t ∈ us, t.isEof = false) (ts : List Token) :
    beforeEof (us ++ fromEof ts) = us := by
  have first := List.head?_dropWhile_not (fun t : Token => !t.isEof) ts
  have none : beforeEof (fromEof ts) = [] := by
    unfold beforeEof fromEof
    cases rest : ts.dropWhile fun t => !t.isEof with
    | nil => rfl
    | cons t rest =>
      rw [rest] at first
      exact List.takeWhile_cons_of_neg (by simpa using first)
  unfold beforeEof at none ⊢
  rw [List.takeWhile_append_of_pos (by simpa using noEof), none, List.append_nil]

/-- Missing separators are reported and treated as present: without any `k` of its omissible tokens a
    file that is parsed without diagnostics is parsed to the same tree up to spans, with just `k`
    diagnostics. -/
theorem omissions_mended {ts us : List Token} {tree : IdlFile} {k : Nat}
    (silent : (parseTokens ts).result = ⟨tree, []⟩) (thins : Thins [] (beforeEof ts) us k) :
    (parseTokens (us ++ fromEof ts)).result.tree.bare = tree.bare ∧
      (parseTokens (us ++ fromEof ts)).result.diagnostics.length = k := by
  have full : IsFile (beforeEof ts) tree := by
    rw [← tokens_ofTokens]
    exact (parseStream_iff (plain_ofTokens ts)).1 silent
  have tokens : beforeEof (us ++ fromEof ts) = us :=
    beforeEof_append (fun t ht => by simpa using List.mem_takeWhile_imp (thins.sublist.subset ht)) ts
  have along : Along k [] (beforeEof ts ++ []) (initial (.ofTokens (us ++ fromEof ts))) := by
    refine ⟨plain_ofTokens _, k, ?_, Nat.zero_add k⟩
    rwa [List.append_nil, tokens_ofTokens, tokens]
  obtain ⟨tree', t, run, same, -, j, done, count⟩ := mends_file full along
  -- At the end nothing is missing any more, so everything that was has been reported.
  generalize t.tokens = rest at done
  cases done
  unfold parseTokens parseStream
  rw [run]
  exact ⟨same, count⟩

/-- The tokens of an import, and of a namespace with an enumeration of two members. -/
def enumTokens : List Token :=
  [⟨.keyword .import_, "import", 1, 1, 0⟩, ⟨.string, "\"a\"", 1, 8, 7⟩,
    ⟨.punct .semicolon, ";", 1, 11, 10⟩, ⟨.keyword .namespace_, "namespace", 1, 13, 12⟩,
    ⟨.identifier, "N", 1, 23, 22⟩, ⟨.punct .lbrace, "\x7b", 1, 25, 24⟩,
    ⟨.keyword .enum, "enum", 1, 27, 26⟩, ⟨.identifier, "E", 1, 32, 31⟩,
    ⟨.punct .lbrace, "\x7b", 1, 34, 33⟩, ⟨.identifier, "A", 1, 36, 35⟩,
    ⟨.punct .comma, ",", 1, 37, 36⟩, ⟨.identifier, "B", 1, 39, 38⟩,
    ⟨.punct .rbrace, "\x7d", 1, 41, 40⟩, ⟨.punct .rbrace, "\x7d", 1, 43, 42⟩]

def enumTree : IdlFile :=
  ⟨[⟨"a", ⟨1, 1, 0, 11⟩⟩],
    [⟨["N"], [.enum ⟨"E", [⟨"A", none, [], ⟨1, 36, 35, 36⟩⟩, ⟨"B", none, [], ⟨1, 39, 38, 39⟩⟩], [],
      ⟨1, 27, 26, 41⟩⟩], [], ⟨1, 13, 12, 43⟩⟩]⟩

/-- What is left without the semicolon, the comma and both closing braces. -/
def thinnedTokens : List Token := enumTokens.filter fun t => t.kind ∉ omissibleKinds

theorem omissions_mended_enum :
    (parseTokens enumTokens).result = ⟨enumTree, []⟩ ∧
      Thins [] (beforeEof enumTokens) thinnedTokens 4 ∧
      (parseTokens (thinnedTokens ++ fromEof enumTokens)).result.tree.bare = enumTree.bare ∧
      (parseTokens (thinnedTokens ++ fromEof enumTokens)).result.diagnostics.length = 4 := by
  have silent : (parseTokens enumTokens).result = ⟨enumTree, []⟩ := by decide +kernel
  have member : Attributed IsMember [⟨.identifier, "A", 1, 36, 35⟩]
      ⟨"A", none, [], ⟨1, 36, 35, 36⟩⟩ :=
    @Attributed.mk _ _ [] _ _ _ (.mk .nil) (.mk rfl .absent)
  have comma : Omissible (enumTokens.take 10) ⟨.punct .comma, ",", 1, 37, 36⟩ (enumTokens.drop 11) :=
    .comma rfl (show _ = enumTokens.take 6 ++ _ :: _ :: _ :: [_] from rfl) rfl rfl rfl (.one member)
      (by decide)
  have thins : Thins [] (beforeEof enumTokens) thinnedTokens 4 :=
    .keep (.keep (.drop (.semicolon rfl rfl (by decide) (by decide)) (.keep (.keep (.keep (.keep
      (.keep (.keep (.keep (.drop comma (.keep (.drop (.brace rfl (by decide))
        (.drop (.brace rfl (by decide)) .nil)))))))))))))
  exact ⟨silent, thins, omissions_mended silent thins⟩

end IdlFront
