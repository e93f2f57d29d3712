import IdlFront.Proofs.Grammar.Beginnings

/-! # What parsers accept is in the grammar

A run of a parser that reports nothing has consumed a phrase of the parser's production and gives the
meaning of the phrase. There is one lemma for each production, in the order of the grammar, and each
takes the run apart as the parser is put together.
-/

namespace IdlFront.Grammar

open IdlFront.Parser IdlFront.ParserState

variable {α : Type} {s t : ParserState} {ts us : List Token}

/-! ## Repetition -/

theorem Separated.snoc {separator : TokenKind} {phrase : List Token → α → Prop} {as : List α}
    {a : α} {c : Token} (h : Separated separator phrase ts as) (eq : c.kind = separator)
    (last : phrase us a) : Separated separator phrase (ts ++ c :: us) (as ++ [a]) := by
  induction h with
  | one first => exact .cons first eq (.one last)
  | cons first eq' _ ih =>
    rw [List.append_assoc]
    exact .cons first eq' ih

theorem separated_sound {separator : TokenKind} {item : Parser α} [Uniform item]
    {phrase : List Token → α → Prop}
    (sound : ∀ {s t ts a}, Yields item s ts a t → phrase ts a) (more : separator ≠ .eof)
    {as : List α} (h : Yields (separated separator item) s ts as t) :
    Separated separator phrase ts as := by
  obtain ⟨first, s', us, vs, hfirst, loop, rfl⟩ := h.of_bind
  refine loop.of_iterate (I := fun ts as _ => Separated separator phrase ts as) ?_
    (.one (sound hfirst))
  intro s t done us as as' continues round kept
  obtain ⟨c, s', _, vs, hadv, rest, rfl⟩ := round.of_bind
  obtain ⟨a, t', us, _, hitem, result, rfl⟩ := rest.of_bind
  obtain ⟨rfl, rfl⟩ := result.of_pure
  have eq : s.current.kind = separator := by
    rw [round.moves.plain.current_kind]
    simpa using continues
  obtain ⟨rfl, rfl⟩ := hadv.of_advance (by rw [eq]; exact more)
  simpa using kept.snoc eq (sound hitem)

/-- What a nested phrase accepts is what its parser accepts, whatever it finds inside. -/
theorem nested_sound {stuck : Parser α} {phrase : Parser α → Parser α}
    {meaning : List Token → α → Prop} [Uniform stuck]
    (uniform : ∀ inner, Uniform inner → Uniform (phrase inner))
    (stuckFails : ∀ {s t ts a}, ¬ Yields stuck s ts a t)
    (sound : ∀ inner, Uniform inner → (∀ {s t ts a}, Yields inner s ts a t → meaning ts a) →
      ∀ {s t ts a}, Yields (phrase inner) s ts a t → meaning ts a)
    {a : α} (h : Yields (nested stuck phrase) s ts a t) : meaning ts a := by
  induction hn : s.remaining using Nat.strongRecOn generalizing s ts a t with
  | ind n ih =>
    refine sound (limited s.remaining stuck (nested stuck phrase))
      (.limited_nested stuck phrase uniform _) ?_ ⟨?_, h.moves⟩
    · intro s' t' ts' a' h'
      by_cases less : s'.remaining < s.remaining
      · refine ih s'.remaining (by omega) ⟨?_, h'.moves⟩ rfl
        rw [← h'.result, limited, if_pos less]
      · have outside : Yields stuck s' ts' a' t' :=
          ⟨by rw [← h'.result, limited, if_neg less], h'.moves⟩
        exact absurd outside stuckFails
    · rw [← h.result, nested_apply stuck phrase s]

/-! ## Names and types -/

theorem identifier_sound {n : Token} (h : Yields (expect .identifier) s ts n t) :
    ts = [n] ∧ n.kind = .identifier := h.of_expect (by decide)

theorem separated_map {β : Type} {separator : TokenKind} {phrase : List Token → α → Prop}
    {phrase' : List Token → β → Prop} {f : α → β} {as : List α}
    (each : ∀ {ts a}, phrase ts a → phrase' ts (f a)) (h : Separated separator phrase ts as) :
    Separated separator phrase' ts (as.map f) := by
  induction h with
  | one first => exact .one (each first)
  | cons first eq _ ih => exact .cons (each first) eq ih

theorem segments_sound {names : List String} (h : Yields segments s ts names t) :
    IsQualified ts names := by
  obtain ⟨tokens, s', us, vs, htokens, result, rfl⟩ := h.of_bind
  obtain ⟨rfl, rfl⟩ := result.of_pure
  rw [List.append_nil]
  have parts : Separated (.punct .dot) (fun ts n => ts = [n] ∧ n.kind = .identifier) us tokens :=
    separated_sound identifier_sound (by decide) htokens
  refine separated_map ?_ parts
  rintro _ n ⟨rfl, eq⟩
  exact .mk eq

theorem dottedName_sound {name : String} (h : Yields dottedName s ts name t) :
    ∃ names, IsQualified ts names ∧ name = ".".intercalate names := by
  obtain ⟨names, s', us, vs, hnames, result, rfl⟩ := h.of_bind
  obtain ⟨rfl, rfl⟩ := result.of_pure
  rw [List.append_nil]
  exact ⟨names, segments_sound hnames, rfl⟩

theorem typeArguments_sound {type : Parser TypeRef} [Uniform type]
    {phrase : List Token → TypeRef → Prop}
    (sound : ∀ {s t ts a}, Yields type s ts a t → phrase ts a) {arguments : List TypeRef}
    (h : Yields (typeArguments type) s ts arguments t) : AreTypeArguments phrase ts arguments := by
  obtain ⟨l, s₁, us, hl, rfl, run₁⟩ | ⟨s₁, -, run₁⟩ := h.of_acceptThen (by decide)
  · obtain ⟨as, s₂, us, vs, has, run₂, rfl⟩ := run₁.of_bind
    obtain ⟨r, s₃, _, hr, rfl, run₃⟩ := run₂.of_discardExpectThen (by decide)
    obtain ⟨rfl, rfl⟩ := run₃.of_pure
    exact .some hl (separated_sound sound (by decide) has) hr
  · obtain ⟨rfl, rfl⟩ := run₁.of_pure
    exact .none

theorem arrayMark_sound {isArray : Bool} (h : Yields arrayMark s ts isArray t) :
    IsArrayMark ts isArray := by
  obtain ⟨l, s₁, us, hl, rfl, run₁⟩ | ⟨s₁, -, run₁⟩ := h.of_acceptThen (by decide)
  · obtain ⟨r, s₂, _, hr, rfl, run₂⟩ := run₁.of_discardExpectThen (by decide)
    obtain ⟨rfl, rfl⟩ := run₂.of_pure
    exact .present hl hr
  · obtain ⟨rfl, rfl⟩ := run₁.of_pure
    exact .absent

theorem typePhrase_sound (inner : Parser TypeRef) (_ : Uniform inner)
    (sound : ∀ {s t ts a}, Yields inner s ts a t → IsType ts a) {s t : ParserState}
    {ts : List Token} {type : TypeRef} (h : Yields (typePhrase inner) s ts type t) :
    IsType ts type := by
  have run₁ := h.of_currentThen
  obtain ⟨v, s₂, us, hv, rfl, run₂⟩ | ⟨s₂, -, run₂⟩ := run₁.of_acceptThen (by decide)
  · obtain ⟨rfl, rfl⟩ := run₂.of_spanFrom
    rw [h.moves.span (List.cons_ne_nil _ _)]
    exact .void hv
  · obtain ⟨name, s₃, ns, _, hname, run₃, rfl⟩ := run₂.of_bind
    obtain ⟨arguments, s₄, as, _, harguments, run₄, rfl⟩ := run₃.of_bind
    obtain ⟨isArray, s₅, ms, _, hmark, run₅, rfl⟩ := run₄.of_bind
    obtain ⟨rfl, rfl⟩ := run₅.of_spanFrom
    obtain ⟨names, hnames, rfl⟩ := dottedName_sound hname
    rw [h.moves.span (by simp [hnames.ne_nil])]
    simpa using IsType.named hnames (typeArguments_sound sound harguments) (arrayMark_sound hmark)

theorem typeRef_sound {type : TypeRef} (h : Yields typeRef s ts type t) : IsType ts type :=
  nested_sound (fun _ _ => inferInstance) Yields.not_unexpected typePhrase_sound h

/-! ## Parameters -/

theorem modifier_sound {m : Option Modifier} (h : Yields modifier s ts m t) : IsModifier ts m := by
  obtain ⟨o, s₁, us, ho, rfl, run₁⟩ | ⟨s₁, -, run₁⟩ := h.of_acceptThen (by decide)
  · obtain ⟨rfl, rfl⟩ := run₁.of_pure
    exact .out ho
  obtain ⟨r, s₂, us, hr, rfl, run₂⟩ | ⟨s₂, -, run₂⟩ := run₁.of_acceptThen (by decide)
  · obtain ⟨rfl, rfl⟩ := run₂.of_pure
    exact .ref hr
  obtain ⟨c, s₃, us, hc, rfl, run₃⟩ | ⟨s₃, -, run₃⟩ := run₂.of_acceptThen (by decide)
  · obtain ⟨r, s₄, _, hr, rfl, run₄⟩ := run₃.of_discardExpectThen (by decide)
    obtain ⟨rfl, rfl⟩ := run₄.of_pure
    exact .constRef hc hr
  · obtain ⟨rfl, rfl⟩ := run₃.of_pure
    exact .absent

theorem parameter_sound {p : Parameter} (h : Yields parameter s ts p t) : IsParameter ts p := by
  have run₁ := h.of_currentThen
  obtain ⟨modifier, s₂, ms, _, hmodifier, run₂, rfl⟩ := run₁.of_bind
  obtain ⟨type, s₃, us, _, htype, run₃, rfl⟩ := run₂.of_bind
  obtain ⟨n, s₄, _, hn, rfl, run₄⟩ := run₃.of_expectThen (by decide)
  obtain ⟨rfl, rfl⟩ := run₄.of_spanFrom
  rw [h.moves.span (by simp)]
  simpa using IsParameter.mk (modifier_sound hmodifier) (typeRef_sound htype) hn

theorem parameters_sound {ps : List Parameter} (h : Yields parameters s ts ps t) :
    AreParameters ts ps := by
  obtain ⟨s₁, -, run⟩ | ⟨s₁, -, run⟩ := h.of_checkThen
  · obtain ⟨rfl, rfl⟩ := run.of_pure
    exact .none
  · exact .some (separated_sound parameter_sound (by decide) run)

/-! ## Attributes -/

theorem attributeArgument_sound {l : Literal} (h : Yields attributeArgument s ts l t) :
    IsArgument ts l := by
  have run₁ := h.of_currentThen
  -- A literal is one token; whatever else is accepted is a dotted name.
  cases hl : s.current.literal? with
  | some literal =>
    simp only [hl] at run₁
    obtain ⟨kind, hkind, rfl⟩ := Option.map_eq_some_iff.1 hl
    have literal := isLiteralKind_iff.2 hkind
    have more : s.looked.current.kind ≠ .eof := by
      rw [s.current_looked]
      intro eof
      rw [eof] at literal
      cases literal
    obtain ⟨_, s₂, _, _, hadv, run₂, rfl⟩ := run₁.of_bind
    obtain ⟨rfl, rfl⟩ := run₂.of_pure
    obtain ⟨first, hadv⟩ := hadv.of_discard
    obtain ⟨rfl, rfl⟩ := hadv.of_advance more
    rw [s.current_looked, tokenSpan_eq]
    exact .literal literal
  | none =>
    simp only [hl] at run₁
    split at run₁
    · obtain ⟨name, s₂, us, _, hname, run₂, rfl⟩ := run₁.of_bind
      obtain ⟨rfl, rfl⟩ := run₂.of_spanFrom
      obtain ⟨names, hnames, rfl⟩ := dottedName_sound hname
      rw [h.moves.span (by simp [hnames.ne_nil]), List.append_nil]
      exact .name hnames
    · exact absurd run₁ Yields.not_refuse

theorem attributeArguments_sound {ls : List Literal} (h : Yields attributeArguments s ts ls t) :
    AreArguments ts ls := by
  obtain ⟨l, s₁, us, hl, rfl, run₁⟩ | ⟨s₁, -, run₁⟩ := h.of_acceptThen (by decide)
  · obtain ⟨r, s₂, us, hr, rfl, run₂⟩ | ⟨s₂, -, run₂⟩ := run₁.of_acceptThen (by decide)
    · obtain ⟨rfl, rfl⟩ := run₂.of_pure
      exact .empty hl hr
    · obtain ⟨arguments, s₃, as, _, harguments, run₃, rfl⟩ := run₂.of_bind
      obtain ⟨r, s₄, _, hr, rfl, run₄⟩ := run₃.of_discardExpectThen (by decide)
      obtain ⟨rfl, rfl⟩ := run₄.of_pure
      exact .some hl (separated_sound attributeArgument_sound (by decide) harguments) hr
  · obtain ⟨rfl, rfl⟩ := run₁.of_pure
    exact .none

theorem attributeUse_sound {a : Attribute} (h : Yields attributeUse s ts a t) :
    IsAttribute ts a := by
  have run₁ := h.of_currentThen
  obtain ⟨name, s₂, us, _, hname, run₂, rfl⟩ := run₁.of_bind
  obtain ⟨arguments, s₃, as, _, harguments, run₃, rfl⟩ := run₂.of_bind
  obtain ⟨rfl, rfl⟩ := run₃.of_spanFrom
  obtain ⟨names, hnames, rfl⟩ := dottedName_sound hname
  rw [h.moves.span (by simp [hnames.ne_nil]), List.append_nil]
  exact .mk hnames (attributeArguments_sound harguments)

theorem attributeLists_sound {attributes : List Attribute}
    (h : Yields attributeLists s ts attributes t) : AreAttributes ts attributes := by
  suffices ∃ lists, Many IsAttributeList ts lists ∧ attributes = lists.flatten by
    obtain ⟨lists, many, rfl⟩ := this
    exact .mk many
  refine h.of_iterate
    (I := fun ts as _ => ∃ lists, Many IsAttributeList ts lists ∧ as = lists.flatten) ?_
    ⟨[], .nil, rfl⟩
  intro s t done us as as' more round kept
  obtain ⟨lists, many, rfl⟩ := kept
  obtain ⟨l, s₁, _, _, hadv, run₁, rfl⟩ := round.of_bind
  obtain ⟨new, s₂, ns, _, hnew, run₂, rfl⟩ := run₁.of_bind
  obtain ⟨r, s₃, _, hr, rfl, run₃⟩ := run₂.of_discardExpectThen (by decide)
  obtain ⟨rfl, rfl⟩ := run₃.of_pure
  have hl : s.current.kind = .punct .lbracket := by
    rw [round.moves.plain.current_kind]
    simpa using more
  obtain ⟨rfl, rfl⟩ := hadv.of_advance (by rw [hl]; decide)
  have list := IsAttributeList.mk hl (separated_sound attributeUse_sound (by decide) hnew) hr
  exact ⟨lists ++ [new], by simpa using many.snoc list, by simp⟩

end IdlFront.Grammar
