import Mathlib.Data.List.ReduceOption
import IdlFront.Proofs.Grammar.Faults
import IdlFront.Proofs.Grammar.Omission
import IdlFront.Proofs.Tree.Bare

/-! # Exchanging initializers

Integers that are initializers give way to what is none, and a phrase of the grammar becomes one with
mistakes.

* `Exchanged` — two token lists that differ in some initializers, with a mark for each initializer.
* `Declaration.Erased`, `IdlFile.Erased` — two trees that differ in the values of the members that
  are marked.
* `Exchanges` — what an exchange makes of the tokens of a phrase, whatever follows them.
* `IsFile.exchanges` — exchanged, a file is one with faults, whose tree lacks the marked values.
-/

namespace IdlFront

/-! ## Trees without some values -/

section Erased

variable {α β : Type} {marks : List (Option Token)}

/-- Two lists whose elements are related one by one, each pair by its share of the marks. -/
inductive AllErased (erased : List (Option Token) → α → α → Prop) :
    List (Option Token) → List α → List α → Prop where
  | nil : AllErased erased [] [] []
  | cons {ms ns : List (Option Token)} {a b : α} {as bs : List α} :
      erased ms a b → AllErased erased ns as bs → AllErased erased (ms ++ ns) (a :: as) (b :: bs)

theorem AllErased.single {erased : List (Option Token) → α → α → Prop} {a b : α}
    (h : erased marks a b) : AllErased erased marks [a] [b] := by
  have one := AllErased.cons h .nil
  rwa [List.append_nil] at one

theorem AllErased.map {erased : List (Option Token) → β → β → Prop} (f : α → β) {as bs : List α}
    (h : AllErased (fun ms a b => erased ms (f a) (f b)) marks as bs) :
    AllErased erased marks (as.map f) (bs.map f) := by
  induction h with
  | nil => exact .nil
  | cons first _ ih => exact .cons first ih

/-- A member that has a value has a mark, and lacks the value in the second tree if it is marked with
    a token. Nothing else changes. -/
inductive EnumMember.Erased : List (Option Token) → EnumMember → EnumMember → Prop where
  | valueless {m : EnumMember} : m.value = none → Erased [] m m
  | kept {m : EnumMember} : m.value ≠ none → Erased [none] m m
  | erased {m : EnumMember} {t : Token} : m.value ≠ none → Erased [some t] m { m with value := none }

/-- The same for all members in a declaration, in the order of the text. -/
inductive Declaration.Erased : List (Option Token) → Declaration → Declaration → Prop where
  | namespace_ {marks : List (Option Token)} {name : List String} {ds ds' : List Declaration}
      {attributes : List Attribute} {span : Span} : AllErased Declaration.Erased marks ds ds' →
      Erased marks (.namespace_ ⟨name, ds, attributes, span⟩) (.namespace_ ⟨name, ds', attributes, span⟩)
  | enum {marks : List (Option Token)} {name : String} {ms ms' : List EnumMember}
      {attributes : List Attribute} {span : Span} : AllErased EnumMember.Erased marks ms ms' →
      Erased marks (.enum ⟨name, ms, attributes, span⟩) (.enum ⟨name, ms', attributes, span⟩)
  | struct (d : StructDecl) : Erased [] (.struct d) (.struct d)
  | delegate (d : DelegateDecl) : Erased [] (.delegate d) (.delegate d)
  | interface (d : InterfaceDecl) : Erased [] (.interface d) (.interface d)

/-- The same for all members in a file. -/
structure IdlFile.Erased (marks : List (Option Token)) (tree tree' : IdlFile) : Prop where
  imports : tree'.imports = tree.imports
  namespaces : AllErased (fun ms ns ns' => Declaration.Erased ms (.namespace_ ns) (.namespace_ ns'))
    marks tree.namespaces tree'.namespaces

end Erased

end IdlFront

namespace IdlFront.Grammar

variable {α β : Type} {t c : Token} {ts us vs rest : List Token} {kinds : List TokenKind}
  {marks ms ns : List (Option Token)}

/-! ## Exchanged tokens -/

/-- One token list with mistakes in the place of some integers behind `=`. There is a mark for each
    such integer, in the order of the text: the first token of what stands in its place, if the
    integer was exchanged. -/
inductive Exchanged : List Token → List Token → List (Option Token) → Prop where
  | nil : Exchanged [] [] []
  | other {t : Token} {ts us : List Token} {marks : List (Option Token)} :
      t.kind ≠ .punct .equals → Exchanged ts us marks → Exchanged (t :: ts) (t :: us) marks
  | kept {e v : Token} {ts us : List Token} {marks : List (Option Token)} :
      e.kind = .punct .equals → v.kind = .integer ∨ v.kind = .hex → Exchanged ts us marks →
      Exchanged (e :: v :: ts) (e :: v :: us) (none :: marks)
  | mistaken {e v first : Token} {ms ts us : List Token} {marks : List (Option Token)} :
      e.kind = .punct .equals → v.kind = .integer ∨ v.kind = .hex → IsMistake (first :: ms) →
      Exchanged ts us marks →
      Exchanged (e :: v :: ts) (e :: first :: ms ++ us) (some first :: marks)

theorem Exchanged.of_other (h : Exchanged (t :: ts) vs marks) (other : t.kind ≠ .punct .equals) :
    ∃ us, vs = t :: us ∧ Exchanged ts us marks := by
  cases h with
  | other _ more => exact ⟨_, rfl, more⟩
  | kept eq => exact absurd eq other
  | mistaken eq => exact absurd eq other

/-- What is reported of the tokens that were put in. -/
def mistakeReports (marks : List (Option Token)) : List Diagnostic :=
  marks.reduceOption.map fun t => t.report (.expected [.integer, .hex] t)

@[simp] theorem mistakeReports_nil : mistakeReports [] = [] := rfl

@[simp] theorem mistakeReports_append (ms ns : List (Option Token)) :
    mistakeReports (ms ++ ns) = mistakeReports ms ++ mistakeReports ns := by
  simp [mistakeReports, List.reduceOption_append]

/-! ## What an exchange makes of a phrase -/

/-- Whatever follows some tokens, an exchange in both makes of them what `P` holds of, and exchanges
    in what follows besides. -/
def Exchanges (ts : List Token) (P : List Token → List (Option Token) → Prop) : Prop :=
  ∀ rest vs marks, Exchanged (ts ++ rest) vs marks →
    ∃ us ms vs' ns, vs = us ++ vs' ∧ marks = ms ++ ns ∧ P us ms ∧ Exchanged rest vs' ns

section Exchanges

variable {P Q : List Token → List (Option Token) → Prop}

theorem Exchanges.all (h : Exchanges ts P) (exchanged : Exchanged ts us marks) : P us marks := by
  rw [← List.append_nil ts] at exchanged
  obtain ⟨vs, ms, vs', ns, rfl, rfl, holds, last⟩ := h _ _ _ exchanged
  cases last
  simpa using holds

theorem Exchanges.mono (h : Exchanges ts P) (le : ∀ us ms, P us ms → Q us ms) : Exchanges ts Q := by
  intro rest vs marks exchanged
  obtain ⟨us, ms, vs', ns, eq, eq', holds, more⟩ := h _ _ _ exchanged
  exact ⟨us, ms, vs', ns, eq, eq', le us ms holds, more⟩

theorem Exchanges.append (h : Exchanges ts P) (h' : Exchanges us Q) :
    Exchanges (ts ++ us) fun vs marks =>
      ∃ ts' us' ms ns, vs = ts' ++ us' ∧ marks = ms ++ ns ∧ P ts' ms ∧ Q us' ns := by
  intro rest vs marks exchanged
  rw [List.append_assoc] at exchanged
  obtain ⟨ts', ms, vs', ns, rfl, rfl, first, more⟩ := h _ _ _ exchanged
  obtain ⟨us', ms', rest', ns, rfl, rfl, second, more⟩ := h' _ _ _ more
  exact ⟨ts' ++ us', ms ++ ms', rest', ns, (List.append_assoc _ _ _).symm,
    (List.append_assoc _ _ _).symm, ⟨ts', us', ms, ms', rfl, rfl, first, second⟩, more⟩

/-- Tokens without an initializer stay as they are. -/
theorem exchanges_ofKinds (made : OfKinds kinds ts) (free : .punct .equals ∉ kinds) :
    Exchanges ts fun us ms => us = ts ∧ ms = [] := by
  induction ts with
  | nil =>
    intro rest vs marks exchanged
    exact ⟨[], [], vs, marks, rfl, rfl, ⟨rfl, rfl⟩, exchanged⟩
  | cons t ts ih =>
    intro rest vs marks exchanged
    obtain ⟨us, rfl, behind⟩ := Exchanged.of_other exchanged
      (ne_of_mem_of_not_mem (made t List.mem_cons_self) free)
    obtain ⟨us, ms, vs', ns, rfl, rfl, ⟨rfl, rfl⟩, more⟩ :=
      ih (fun u hu => made u (List.mem_cons_of_mem _ hu)) rest us marks behind
    exact ⟨t :: us, [], vs', ns, rfl, rfl, ⟨rfl, rfl⟩, more⟩

/-- Tokens with an initializer among them, between others. -/
theorem Exchanges.frame {as bs : List Token} (h : Exchanges ts P) (front : OfKinds kinds as)
    (back : OfKinds kinds bs) (free : .punct .equals ∉ kinds) :
    Exchanges (as ++ ts ++ bs) fun us ms => ∃ vs, us = as ++ vs ++ bs ∧ P vs ms := by
  have all := Exchanges.append (Exchanges.append (exchanges_ofKinds front free) h)
    (exchanges_ofKinds back free)
  refine all.mono ?_
  rintro us ms ⟨vs, _, ns, _, rfl, rfl, ⟨_, vs, _, ns, rfl, rfl, ⟨rfl, rfl⟩, holds⟩, rfl, rfl⟩
  exact ⟨vs, rfl, by simpa using holds⟩

end Exchanges

/-! ## Enumerations -/

theorem exchanges_initializer {e v : Token} (eq : e.kind = .punct .equals) :
    Exchanges [e, v] fun us ms => (us = [e, v] ∧ ms = [none]) ∨
      ∃ first ws, us = e :: first :: ws ∧ ms = [some first] ∧ IsMistake (first :: ws) := by
  intro rest vs marks exchanged
  cases exchanged with
  | other other => exact absurd eq other
  | kept _ _ more => exact ⟨[e, v], [none], _, _, rfl, rfl, .inl ⟨rfl, rfl⟩, more⟩
  | mistaken _ _ mistake more =>
    exact ⟨_, [some _], _, _, rfl, rfl, .inr ⟨_, _, rfl, rfl, mistake⟩, more⟩

/-- The kinds of tokens outside of initializers. -/
def plainKinds : List TokenKind :=
  phraseKinds ++ declarationKeywords ++ [.punct .semicolon, .punct .lbrace, .punct .rbrace,
    .punct .comma, .keyword .event, .keyword .import_]

theorem plainKinds_free : .punct .equals ∉ plainKinds := by decide

theorem OfKinds.plain (h : OfKinds phraseKinds ts) : OfKinds plainKinds ts :=
  h.mono (by decide)

section Attributed

variable {phrase : List Token → (List Attribute → Span → α) → Prop}
  {faulty : List Token → List Diagnostic → (List Attribute → Span → α) → Prop}
  {a : α}

theorem Attributed.exchanges (erased : List (Option Token) → α → α → Prop)
    (each : ∀ {us node}, phrase us node → us.length ≤ ts.length → Exchanges us fun vs ms =>
      ∃ node', faulty vs (mistakeReports ms) node' ∧
        ∀ attributes span span', erased ms (node attributes span) (node' attributes span'))
    (h : Attributed phrase ts a) : Exchanges ts fun us ms =>
      ∃ a', Faulty.Attributed faulty us (mistakeReports ms) a' ∧ erased ms a a' := by
  obtain @⟨as, us, attributes, node, front, body⟩ := h
  have both := (exchanges_ofKinds front.ofKinds.plain plainKinds_free).append (each body (by simp))
  refine both.mono ?_
  rintro vs marks ⟨_, us', _, ms, rfl, rfl, ⟨rfl, rfl⟩, node', phrase', same⟩
  exact ⟨_, .mk front phrase', same _ _ _⟩

end Attributed

theorem IsMember.exchanges {node : List Attribute → Span → EnumMember} (h : IsMember ts node) :
    Exchanges ts fun us ms => ∃ node', Faulty.IsMember us (mistakeReports ms) node' ∧
      ∀ attributes span span',
        EnumMember.Erased ms (node attributes span).bare (node' attributes span').bare := by
  obtain @⟨n, us, value, hn, hvalue⟩ := h
  have name : Exchanges [n] fun us ms => us = [n] ∧ ms = [] :=
    exchanges_ofKinds (OfKinds.single (hn ▸ by decide)) plainKinds_free
  -- With a value, what stands behind the name is the sign and the integer.
  have valued {e v : Token} {l : Literal} (he : e.kind = .punct .equals)
      (isValue : IsInitializer [e, v] (some l)) : Exchanges [n, e, v] fun us ms =>
        ∃ node', Faulty.IsMember us (mistakeReports ms) node' ∧ ∀ attributes span span',
          EnumMember.Erased ms (EnumMember.bare ⟨n.value, some l, attributes, span⟩)
            (node' attributes span').bare := by
    refine (name.append (exchanges_initializer he)).mono ?_
    rintro vs marks ⟨_, us', _, ms, rfl, rfl, ⟨rfl, rfl⟩, ⟨rfl, rfl⟩ | ⟨first, ws, rfl, rfl, mistake⟩⟩
    · exact ⟨_, .proper (.mk hn isValue), fun _ _ _ => .kept nofun⟩
    · exact ⟨_, .mistaken hn he mistake, fun _ _ _ => .erased nofun⟩
  cases hvalue with
  | absent =>
    refine name.mono ?_
    rintro us ms ⟨rfl, rfl⟩
    exact ⟨_, .proper (.mk hn .absent), fun _ _ _ => .valueless rfl⟩
  | integer he hv => exact valued he (.integer he hv)
  | hex he hv => exact valued he (.hex he hv)

/-- Two lists of members that differ in the values of those that are marked. -/
abbrev MembersErased : List (Option Token) → List EnumMember → List EnumMember → Prop :=
  AllErased fun ms m m' => EnumMember.Erased ms m.bare m'.bare

/-- Members with commas between them, and perhaps one more comma. -/
theorem members_exchange {members : List EnumMember}
    (h : Separated (.punct .comma) (Attributed IsMember) ts members)
    (last : us = [] ∨ ∃ c, us = [c] ∧ c.kind = .punct .comma) : Exchanges (ts ++ us) fun vs ms =>
      ∃ members', Faulty.AreMembers vs (mistakeReports ms) members' ∧
        MembersErased ms members members' := by
  have member {ts : List Token} {m : EnumMember} (first : Attributed IsMember ts m) :
      Exchanges ts fun us ms => ∃ m', Faulty.Attributed Faulty.IsMember us (mistakeReports ms) m' ∧
        EnumMember.Erased ms m.bare m'.bare  :=
    first.exchanges (fun ms m m' => EnumMember.Erased ms m.bare m'.bare) fun body _ => body.exchanges
  have comma {c : Token} (eq : c.kind = .punct .comma) :
      Exchanges [c] fun us ms => us = [c] ∧ ms = [] :=
    exchanges_ofKinds (OfKinds.single (eq ▸ by decide)) plainKinds_free
  -- On the members: a mistake stays between the commas around its member.
  induction h with
  | one first =>
    obtain rfl | ⟨c, rfl, eq⟩ := last
    · rw [List.append_nil]
      refine (member first).mono ?_
      rintro vs ms ⟨m', phrase, erased⟩
      exact ⟨[m'], .last phrase, .single erased⟩
    · refine ((member first).append (comma eq)).mono ?_
      rintro vs marks ⟨vs, _, ms, _, rfl, rfl, ⟨m', phrase, erased⟩, rfl, rfl⟩
      refine ⟨[m'], ?_, .cons erased .nil⟩
      simpa using Faulty.AreMembers.member phrase eq .none
  | @cons ts us _ c _ first eq _ ih =>
    rw [List.append_assoc, List.cons_append, ← List.singleton_append]
    refine ((member first).append ((comma eq).append ih)).mono ?_
    rintro vs marks ⟨vs, _, ms, _, rfl, rfl, ⟨m', phrase, erased⟩, _, vs', _, ns, rfl, rfl,
      ⟨rfl, rfl⟩, members', phrases, more⟩
    refine ⟨m' :: members', ?_, .cons erased more⟩
    simpa using Faulty.AreMembers.member phrase eq phrases

theorem IsEnum.exchanges {node : List Attribute → Span → EnumDecl} (h : IsEnum ts node) :
    Exchanges ts fun us ms => ∃ node', Faulty.IsEnum us (mistakeReports ms) node' ∧
      ∀ attributes span span', Declaration.Erased ms (.enum (node attributes span).bare)
        (.enum (node' attributes span').bare) := by
  obtain @⟨k, n, l, r, ts, members, hk, hn, hl, all, hr⟩ := h
  have inner : Exchanges ts fun us ms => ∃ members',
      Faulty.AreMembers us (mistakeReports ms) members' ∧ MembersErased ms members members' := by
    cases all with
    | none =>
      refine (exchanges_ofKinds ofKinds_nil plainKinds_free).mono ?_
      rintro us ms ⟨rfl, rfl⟩
      exact ⟨[], .none, .nil⟩
    | some all =>
      cases all with
      | bare all => simpa using members_exchange all (.inl rfl)
      | marked all comma => exact members_exchange all (.inr ⟨_, rfl, comma⟩)
  have front : OfKinds plainKinds [k, n, l] :=
    .cons (hk ▸ by decide) (.cons (hn ▸ by decide) (.single (hl ▸ by decide)))
  refine (inner.frame front (.single (hr ▸ by decide)) plainKinds_free).mono ?_
  rintro us ms ⟨vs, rfl, members', phrase, erased⟩
  exact ⟨_, .mk hk hn hl phrase hr, fun _ _ _ => .enum (erased.map EnumMember.bare)⟩

/-! ## What an exchange leaves alone -/

theorem Attributed.ofKinds {phrase : List Token → (List Attribute → Span → α) → Prop} {a : α}
    (each : ∀ {ts node}, phrase ts node → OfKinds plainKinds ts) (h : Attributed phrase ts a) :
    OfKinds plainKinds ts := by
  obtain ⟨front, body⟩ := h
  exact front.ofKinds.plain.append (each body)

theorem IsField.ofKinds {f : StructField} (h : IsField ts f) : OfKinds plainKinds ts := by
  obtain ⟨type, hn, hc⟩ := h
  exact type.ofKinds.plain.append (.cons (hn ▸ by decide) (.single (hc ▸ by decide)))

theorem IsStruct.ofKinds {node : List Attribute → Span → StructDecl} (h : IsStruct ts node) :
    OfKinds plainKinds ts := by
  obtain ⟨hk, hn, hl, fields, hr⟩ := h
  exact .append (.cons (hk ▸ by decide) (.cons (hn ▸ by decide) (.cons (hl ▸ by decide)
    (fields.ofKinds IsField.ofKinds)))) (.single (hr ▸ by decide))

theorem IsDelegate.ofKinds {node : List Attribute → Span → DelegateDecl} (h : IsDelegate ts node) :
    OfKinds plainKinds ts := by
  obtain ⟨hk, type, hn, hl, parameters, hr, hc⟩ := h
  exact .append (.append (.cons (hk ▸ by decide) type.ofKinds.plain)
    (.cons (hn ▸ by decide) (.cons (hl ▸ by decide) parameters.ofKinds.plain)))
    (.cons (hr ▸ by decide) (.single (hc ▸ by decide)))

theorem AreAccessors.ofKinds {accessors : List Accessor} (h : AreAccessors ts accessors) :
    OfKinds plainKinds ts := by
  obtain ⟨hl, all, -, -, hr⟩ := h
  have inner : OfKinds plainKinds _ := all.ofKinds fun ⟨ht, _, hc⟩ =>
    .cons (ht ▸ by decide) (.single (hc ▸ by decide))
  exact .append (.cons (hl ▸ by decide) inner) (.single (hr ▸ by decide))

theorem IsInterfaceMember.ofKinds {node : List Attribute → Span → InterfaceMember}
    (h : IsInterfaceMember ts node) : OfKinds plainKinds ts := by
  cases h with
  | event hk type hn hc =>
    exact .append (.cons (hk ▸ by decide) type.ofKinds.plain)
      (.cons (hn ▸ by decide) (.single (hc ▸ by decide)))
  | method type hn hl parameters hr hc =>
    exact .append (.append type.ofKinds.plain
      (.cons (hn ▸ by decide) (.cons (hl ▸ by decide) parameters.ofKinds.plain)))
      (.cons (hr ▸ by decide) (.single (hc ▸ by decide)))
  | property type hn block =>
    refine type.ofKinds.plain.append (.cons (hn ▸ by decide) ?_)
    cases block with
    | bare block => exact block.ofKinds
    | marked block mark => exact block.ofKinds.append (.single (mark ▸ by decide))
  | plainProperty type hn hc =>
    exact type.ofKinds.plain.append (.cons (hn ▸ by decide) (.single (hc ▸ by decide)))

theorem IsInterface.ofKinds {node : List Attribute → Span → InterfaceDecl}
    (h : IsInterface ts node) : OfKinds plainKinds ts := by
  obtain ⟨hk, hn, bases, hl, members, hr⟩ := h
  have inner : OfKinds plainKinds _ := members.ofKinds fun first => first.ofKinds fun body => body.ofKinds
  exact .append (.append (.cons (hk ▸ by decide) (.cons (hn ▸ by decide) bases.ofKinds.plain))
    (.cons (hl ▸ by decide) inner)) (.single (hr ▸ by decide))

theorem IsImport.ofKinds {i : Import} (h : IsImport ts i) : OfKinds plainKinds ts := by
  obtain ⟨hk, hs, hc⟩ := h
  exact .cons (hk ▸ by decide) (.cons (hs ▸ by decide) (.single (hc ▸ by decide)))

/-! ## Namespaces and files -/

/-- A phrase without initializers is still the same phrase. -/
theorem exchanges_proper {faulty : List Token → List Diagnostic → α → Prop}
    {erased : List (Option Token) → α → α → Prop} {a : α} (made : OfKinds plainKinds ts)
    (phrase : faulty ts [] a) (same : erased [] a a) :
    Exchanges ts fun us ms => ∃ a', faulty us (mistakeReports ms) a' ∧ erased ms a a' := by
  refine (exchanges_ofKinds made plainKinds_free).mono ?_
  rintro us ms ⟨rfl, rfl⟩
  exact ⟨a, phrase, same⟩

theorem Many.exchanges_below {region : List Token → List Token → Diagnostic → Prop}
    {phrase : List Token → α → Prop} {faulty : List Token → List Diagnostic → α → Prop}
    {erased : List (Option Token) → α → α → Prop} {as : List α} {bound : Nat}
    (each : ∀ {ts a}, phrase ts a → ts.length < bound →
      Exchanges ts fun us ms => ∃ a', faulty us (mistakeReports ms) a' ∧ erased ms a a')
    (h : Many phrase ts as) (short : ts.length < bound) : Exchanges ts fun us ms =>
      ∃ as', Interspersed region faulty us (mistakeReports ms) as' ∧ AllErased erased ms as as' := by
  induction h with
  | nil => exact exchanges_proper ofKinds_nil .nil .nil
  | cons first _ ih =>
    rw [List.length_append] at short
    refine ((each first (by omega)).append (ih (by omega))).mono ?_
    rintro vs marks ⟨us, us', ms, ns, rfl, rfl, ⟨a', phrase, erased⟩, as', phrases, more⟩
    refine ⟨a' :: as', ?_, .cons erased more⟩
    rw [mistakeReports_append]
    exact .item phrase phrases

theorem Followed.exchanges {mark : TokenKind} {phrase : List Token → α → Prop}
    {faulty : List Token → List Diagnostic → α → Prop}
    {erased : List (Option Token) → α → α → Prop} {a : α} (inside : mark ∈ plainKinds)
    (each : ∀ {us}, phrase us a → us.length ≤ ts.length →
      Exchanges us fun us ms => ∃ a', faulty us (mistakeReports ms) a' ∧ erased ms a a')
    (h : Followed mark phrase ts a) : Exchanges ts fun us ms =>
      ∃ a', Faulty.Followed mark faulty us (mistakeReports ms) a' ∧ erased ms a a' := by
  cases h with
  | bare h =>
    refine (each h (Nat.le_refl _)).mono ?_
    rintro us ms ⟨a', phrase, erased⟩
    exact ⟨a', .bare phrase, erased⟩
  | @marked us _ c h eq =>
    have last : Exchanges [c] fun us ms => us = [c] ∧ ms = [] :=
      exchanges_ofKinds (OfKinds.single (eq ▸ inside)) plainKinds_free
    refine ((each h (by simp)).append last).mono ?_
    rintro vs marks ⟨us, _, ms, _, rfl, rfl, ⟨a', phrase, erased⟩, rfl, rfl⟩
    rw [List.append_nil]
    exact ⟨a', .marked phrase eq, erased⟩

/-- Two lists of declarations that differ in the values of the members that are marked. -/
abbrev DeclarationErased : List (Option Token) → Declaration → Declaration → Prop :=
  fun ms d d' => Declaration.Erased ms d.bare d'.bare

theorem IsNamespace.exchanges {node : List Attribute → Span → Namespace}
    (each : ∀ {us d}, IsDeclaration us d → us.length < ts.length → Exchanges us fun vs ms =>
      ∃ d', Faulty.IsDeclaration vs (mistakeReports ms) d' ∧ DeclarationErased ms d d')
    (h : IsNamespace IsDeclaration ts node) : Exchanges ts fun us ms =>
      ∃ node', Faulty.IsNamespace Faulty.IsDeclaration us (mistakeReports ms) node' ∧
        ∀ attributes span span', Declaration.Erased ms (.namespace_ (node attributes span).bare)
          (.namespace_ (node' attributes span').bare) := by
  obtain @⟨k, l, r, ns, ts, name, ds, hk, hname, hl, all, hr⟩ := h
  have inner : Exchanges ts fun us ms => ∃ ds',
      Interspersed IsBodyRegion (Faulty.Followed (.punct .semicolon) Faulty.IsDeclaration) us
        (mistakeReports ms) ds' ∧ AllErased DeclarationErased ms ds ds' := by
    refine Many.exchanges_below (fun first short => ?_) all (Nat.lt_succ_self _)
    exact first.exchanges (by decide) fun h shorter => each h (by simp; omega)
  -- No literal stands in the head of the namespace, so the exchanges are all inside its braces.
  have front : OfKinds plainKinds (k :: ns ++ [l]) :=
    .append (.cons (hk ▸ by decide) (IsQualified.ofKinds hname (by decide) (by decide)))
      (.single (hl ▸ by decide))
  have back : OfKinds plainKinds [r] := .single (hr ▸ by decide)
  have all := inner.frame front back plainKinds_free
  have assoc (ts : List Token) : k :: ns ++ l :: ts ++ [r] = k :: ns ++ [l] ++ ts ++ [r] := by simp
  rw [assoc]
  refine all.mono ?_
  rintro us ms ⟨vs, rfl, ds', phrase, erased⟩
  rw [← assoc]
  refine ⟨_, .mk hk hname hl phrase hr, fun attributes span span' => ?_⟩
  unfold Namespace.bare
  rw [Declaration.allBare_eq, Declaration.allBare_eq]
  exact .namespace_ (erased.map Declaration.bare)

theorem IsDeclaration.exchanges {d : Declaration} (h : IsDeclaration ts d) :
    Exchanges ts fun us ms =>
      ∃ d', Faulty.IsDeclaration us (mistakeReports ms) d' ∧ DeclarationErased ms d d' := by
  -- By induction on the number of tokens: what stands in a namespace is shorter than it.
  induction hn : ts.length using Nat.strongRecOn generalizing ts d with
  | ind n ih =>
    subst hn
    have phrase := h
    cases h with
    | namespace_ h =>
      have inner := h.exchanges
        (fun ms ns ns' => Declaration.Erased ms (.namespace_ ns.bare) (.namespace_ ns'.bare))
        fun body shorter => body.exchanges fun h short => ih _ (by omega) h rfl
      refine inner.mono ?_
      rintro us ms ⟨ns', phrase, erased⟩
      exact ⟨.namespace_ ns', .namespace_ phrase, erased⟩
    | enum h =>
      have inner := h.exchanges
        (fun ms d d' => Declaration.Erased ms (.enum d.bare) (.enum d'.bare))
        fun body _ => body.exchanges
      refine inner.mono ?_
      rintro us ms ⟨d', phrase, erased⟩
      exact ⟨.enum d', .enum phrase, erased⟩
    | struct h =>
      exact exchanges_proper (h.ofKinds fun body => body.ofKinds) (.proper phrase) (.struct _)
    | delegate h =>
      exact exchanges_proper (h.ofKinds fun body => body.ofKinds) (.proper phrase) (.delegate _)
    | interface h =>
      exact exchanges_proper (h.ofKinds fun body => body.ofKinds) (.proper phrase) (.interface _)

/-- Two items of a file that differ in the values of the members that are marked. -/
inductive TopLevelErased : List (Option Token) → TopLevel → TopLevel → Prop where
  | import_ (i : Import) : TopLevelErased [] (.import_ i) (.import_ i)
  | namespace_ {ns ns' : Namespace} {marks : List (Option Token)} :
      Declaration.Erased marks (.namespace_ ns.bare) (.namespace_ ns'.bare) →
      TopLevelErased marks (.namespace_ ns) (.namespace_ ns')

theorem treeOf_erased {items items' : List TopLevel} (h : AllErased TopLevelErased marks items items') :
    IdlFile.Erased marks (treeOf items).bare (treeOf items').bare := by
  induction h with
  | nil => exact ⟨rfl, .nil⟩
  | cons first _ ih =>
    cases first with
    | import_ i => exact ⟨congrArg (i.bare :: ·) ih.imports, ih.namespaces⟩
    | namespace_ erased => exact ⟨ih.imports, .cons erased ih.namespaces⟩

theorem IsTopLevel.exchanges {item : TopLevel} (h : IsTopLevel ts item) : Exchanges ts fun us ms =>
    ∃ item', Faulty.IsTopLevel us (mistakeReports ms) item' ∧ TopLevelErased ms item item' := by
  have phrase := h
  cases h with
  | import_ h => exact exchanges_proper h.ofKinds (.proper phrase) (.import_ _)
  | namespace_ h =>
    have inner := h.exchanges
      (fun ms ns ns' => Declaration.Erased ms (.namespace_ ns.bare) (.namespace_ ns'.bare))
      fun body _ => body.exchanges fun h _ => h.exchanges
    refine inner.mono ?_
    rintro us ms ⟨ns', phrase, erased⟩
    exact ⟨.namespace_ ns', .namespace_ phrase, .namespace_ erased⟩

/-- Exchanged, a file is one with faults, and its tree lacks the values that are marked. -/
theorem IsFile.exchanges {tree : IdlFile} (h : IsFile ts tree) : Exchanges ts fun us ms =>
    ∃ tree', Faulty.IsFile us (mistakeReports ms) tree' ∧ IdlFile.Erased ms tree.bare tree'.bare := by
  obtain @⟨items, many⟩ := h
  have inner : Exchanges ts fun us ms => ∃ items',
      Faulty.AreTopLevels us (mistakeReports ms) items' ∧ AllErased TopLevelErased ms items items' :=
    Many.exchanges_below (fun first _ => first.exchanges) many (Nat.lt_succ_self _)
  refine inner.mono ?_
  rintro us ms ⟨items', phrases, erased⟩
  exact ⟨treeOf items', .mk phrases, treeOf_erased erased⟩

end IdlFront.Grammar
