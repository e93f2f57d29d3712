import IdlFront.Proofs.Grammar.Recognition
import IdlFront.Proofs.Lexical.Trivia
import IdlFront.Proofs.Tree.Bare

/-! # Places do not matter

Nothing that a parser decides, reports or skips depends on where tokens stand, so two streams with the
same words are parsed alike, well-formed or not.

* `Beside` — two states that differ in places only.
* `SameWords`, `Placeless` — results that agree up to places; parsers that give such results beside
  each other.
* `trivia_immaterial` — the trivia between the tokens of a text do not matter.
-/

namespace IdlFront

open IdlFront.ParserState

/-! ## States -/

/-- Two states whose tokens to come have the same words, and who have consumed and reported the
    same. -/
structure ParserState.Beside (s t : ParserState) : Prop where
  plain : s.Plain
  plain' : t.Plain
  tokens : s.tokens.map Token.word = t.tokens.map Token.word
  ending : s.ending.word = t.ending.word
  consumed : s.stream.consumed = t.stream.consumed
  messages : s.log.toList.map Diagnostic.message = t.log.toList.map Diagnostic.message

namespace ParserState.Beside

variable {s t : ParserState} (h : s.Beside t)

include h

theorem remaining : s.remaining = t.remaining := by
  have lengths := congrArg List.length h.tokens
  rwa [List.length_map, List.length_map, ← remaining_eq, ← remaining_eq] at lengths

theorem atEnd : s.stream.atEnd = t.stream.atEnd := by
  have same := h.remaining
  rw [remaining_eq, remaining_eq] at same
  rw [atEnd_eq, atEnd_eq, Bool.eq_iff_iff, List.isEmpty_iff, List.isEmpty_iff,
    ← List.length_eq_zero_iff, ← List.length_eq_zero_iff, same]

theorem current : s.current.word = t.current.word := by
  have tokens := h.tokens
  rw [s.current_eq, t.current_eq]
  cases hs : s.tokens <;> cases ht : t.tokens <;> rw [hs, ht] at tokens
  · exact h.ending
  · cases tokens
  · cases tokens
  · exact (List.cons.inj tokens).1

theorem kind : s.current.kind = t.current.kind := congrArg Prod.fst h.current

theorem looked : s.looked.Beside t.looked where
  plain := h.plain.looked
  plain' := h.plain'.looked
  tokens := by rw [tokens_looked, tokens_looked, h.tokens]
  ending := by rw [ending_looked, ending_looked, h.ending]
  consumed := h.consumed
  messages := by rw [h.plain.log_looked, h.plain'.log_looked, h.messages]

theorem advanced : s.advanced.Beside t.advanced where
  plain := h.plain.moves_advanced.plainAfter
  plain' := h.plain'.moves_advanced.plainAfter
  tokens := by rw [tokens_advanced, tokens_advanced, List.map_tail, List.map_tail, h.tokens]
  ending := by rw [ending_advanced, ending_advanced, h.ending]
  consumed := by
    have first := consumed_advanced s
    have second := consumed_advanced t
    rw [remaining_advanced, h.remaining] at first
    rw [remaining_advanced] at second
    have := h.consumed
    omega
  messages := by
    rw [h.plain.moves_advanced.log, h.plain'.moves_advanced.log, List.map_append, List.map_append,
      h.messages]

theorem reported {d d' : Diagnostic} (same : d.message = d'.message) :
    (s.reported d).Beside (t.reported d') where
  plain := (h.plain.moves_reported d).plainAfter
  plain' := (h.plain'.moves_reported d').plainAfter
  tokens := h.tokens
  ending := h.ending
  consumed := h.consumed
  messages := by
    rw [(h.plain.moves_reported d).log, (h.plain'.moves_reported d').log, List.map_append,
      List.map_append, h.messages, List.map_singleton, List.map_singleton, same]

theorem skipped (n : Nat) : (s.skipped n).Beside (t.skipped n) := by
  induction n generalizing s t with
  | zero => exact h
  | succ n ih => exact ih h.advanced

end ParserState.Beside

namespace Parser

variable {α β γ δ : Type} {e : α → γ} {e' : β → δ} {p q : Parser α}

/-! ## Results -/

/-- Two values or two failures that agree up to places, `e` telling what of a value counts. -/
inductive SameWords (e : α → γ) : EStateM.Result Diagnostic ParserState α →
    EStateM.Result Diagnostic ParserState α → Prop where
  | ok {a b : α} {s t : ParserState} : e a = e b → s.Beside t → SameWords e (.ok a s) (.ok b t)
  | error {d d' : Diagnostic} {s t : ParserState} : d.message = d'.message → s.Beside t →
      SameWords e (.error d s) (.error d' t)

theorem SameWords.split {r r' : EStateM.Result Diagnostic ParserState α} (h : SameWords e r r') :
    (∃ a b s t, r = .ok a s ∧ r' = .ok b t ∧ e a = e b ∧ s.Beside t) ∨
      ∃ d d' s t, r = .error d s ∧ r' = .error d' t ∧ d.message = d'.message ∧ s.Beside t := by
  cases h with
  | ok same beside => exact .inl ⟨_, _, _, _, rfl, rfl, same, beside⟩
  | error same beside => exact .inr ⟨_, _, _, _, rfl, rfl, same, beside⟩

/-- Two parsers that give the same up to places in states that differ in places only. -/
def Placeless (e : α → γ) (p q : Parser α) : Prop :=
  ∀ ⦃s t : ParserState⦄, s.Beside t → SameWords e (p s) (q t)

theorem placeless_pure {a b : α} (same : e a = e b) : Placeless e (pure a) (pure b) :=
  fun _ _ beside => .ok same beside

theorem Placeless.bind {f g : α → Parser β} (first : Placeless e p q)
    (next : ∀ a b, e a = e b → Placeless e' (f a) (g b)) : Placeless e' (p >>= f) (q >>= g) := by
  intro s t beside
  rw [bind_apply, bind_apply]
  obtain ⟨a, b, u, v, run, run', same, beside⟩ | ⟨d, d', u, v, run, run', same, beside⟩ :=
    (first beside).split
  · rw [run, run']
    exact next a b same beside
  · rw [run, run']
    exact .error same beside

theorem Placeless.map {f g : α → β} (first : Placeless e p q)
    (same : ∀ a b, e a = e b → e' (f a) = e' (g b)) : Placeless e' (f <$> p) (g <$> q) := by
  rw [map_eq_pure_bind, map_eq_pure_bind]
  exact first.bind fun a b eq => placeless_pure (same a b eq)

theorem Placeless.discard (first : Placeless e p q) : Placeless id (discard p) (discard q) :=
  first.map fun _ _ _ => rfl

theorem Placeless.ite {c : Prop} [Decidable c] {p' q' : Parser α} (yes : Placeless e p q)
    (no : Placeless e p' q') : Placeless e (if c then p else p') (if c then q else q') := by
  split
  · exact yes
  · exact no

/-! ## Primitive questions -/

theorem describe_of_word {t u : Token} (same : t.word = u.word) : t.describe = u.describe := by
  obtain ⟨kind, value⟩ := Prod.mk.inj same
  simp only [Token.describe, kind, value]

theorem message_expected {t u : Token} (same : t.word = u.word) (kinds : List TokenKind) :
    (Problem.expected kinds t).message = (Problem.expected kinds u).message :=
  congrArg ("Expected " ++ TokenKind.describeAny kinds ++ ", found " ++ ·) (describe_of_word same)

theorem message_expectedArgument {t u : Token} (same : t.word = u.word) :
    (Problem.expectedArgument t).message = (Problem.expectedArgument u).message :=
  congrArg ("Expected attribute argument, found " ++ ·) (describe_of_word same)

theorem placeless_current : Placeless Token.word current current :=
  fun _ _ beside => .ok beside.current beside.looked

theorem placeless_advance : Placeless Token.word advance advance :=
  fun _ _ beside => .ok beside.current beside.advanced

theorem placeless_spanFrom (start start' : Token) :
    Placeless Span.bare (spanFrom start) (spanFrom start') :=
  fun _ _ beside => .ok rfl beside

theorem placeless_report {t u : Token} {problem problem' : Problem}
    (same : problem.message = problem'.message) :
    Placeless id (report t problem) (report u problem') :=
  fun _ _ beside => .ok rfl (beside.reported same)

theorem placeless_refuse {t u : Token} {problem problem' : Problem}
    (same : problem.message = problem'.message) :
    Placeless e (refuse t problem) (refuse u problem') :=
  fun _ _ beside => .error same beside

theorem placeless_unexpected (kinds : List TokenKind) :
    Placeless e (unexpected kinds) (unexpected kinds) :=
  placeless_current.bind fun _ _ same => placeless_refuse (message_expected same kinds)

theorem placeless_check (kinds : List TokenKind) : Placeless id (check kinds) (check kinds) :=
  placeless_current.bind fun t u same => placeless_pure (by
    rw [(Prod.mk.inj same).1])

theorem placeless_expect (kind : TokenKind) : Placeless Token.word (expect kind) (expect kind) :=
  placeless_current.bind fun t u same => by
    rw [(Prod.mk.inj same).1]
    exact .ite placeless_advance (placeless_unexpected [kind])

theorem placeless_expectOrReport (kind : TokenKind) :
    Placeless id (expectOrReport kind) (expectOrReport kind) :=
  placeless_current.bind fun t u same => by
    rw [(Prod.mk.inj same).1]
    exact .ite placeless_advance.discard (placeless_report (message_expected same [kind]))

theorem placeless_accept (kind : TokenKind) : Placeless id (accept kind) (accept kind) :=
  (placeless_check [kind]).bind fun found found' same => by
    obtain rfl : found = found' := same
    exact .ite (placeless_advance.discard.bind fun _ _ _ => placeless_pure rfl) (placeless_pure rfl)

/-! ## Loops and recursion -/

theorem placeless_iterate {continues : TokenKind → Bool} {round round' : α → Parser α}
    (h : ∀ a b, e a = e b → Placeless e (round a) (round' b)) {a b : α} (same : e a = e b) :
    Placeless e (iterate continues round a) (iterate continues round' b) := by
  intro s t beside
  induction hn : s.remaining using Nat.strongRecOn generalizing s t a b with
  | ind n ih =>
    rw [iterate, iterate, ← beside.kind, ← beside.remaining]
    split
    · obtain ⟨a', b', s', t', first, second, same', beside'⟩ |
        ⟨d, d', s', t', first, second, same', beside'⟩ := (h a b same beside.looked).split
      · simp only [first, second, ← beside'.remaining]
        split
        · exact ih s'.remaining (by omega) same' beside' rfl
        · exact .ok same' beside'
      · rw [first, second]
        exact .error same' beside'
    · exact .ok same beside.looked

theorem placeless_separated (separator : TokenKind) (h : Placeless e p q) :
    Placeless (List.map e) (separated separator p) (separated separator q) :=
  h.bind fun a b same => placeless_iterate (fun as bs all => placeless_advance.bind fun _ _ _ =>
    h.bind fun a b same => placeless_pure (by simp [all, same])) (by simp [same])

theorem placeless_nested {stuck : Parser α} {phrase : Parser α → Parser α}
    (hs : Placeless e stuck stuck)
    (hp : ∀ inner inner', Placeless e inner inner' → Placeless e (phrase inner) (phrase inner')) :
    Placeless e (nested stuck phrase) (nested stuck phrase) := by
  -- By induction on the tokens that are left; at every level the inner phrase has fewer.
  intro s t beside
  induction hn : s.remaining using Nat.strongRecOn generalizing s t with
  | ind n ih =>
    subst hn
    rw [nested_apply, nested_apply, ← beside.remaining]
    refine hp _ _ (fun u v beside' => ?_) beside
    rw [limited, limited, ← beside'.remaining]
    split
    · next less => exact ih u.remaining less beside' rfl
    · exact hs beside'

theorem syncLength_of_words (resume : List TokenKind) {ts us : List Token}
    (same : ts.map Token.word = us.map Token.word) (depth : Nat) :
    syncLength resume depth ts = syncLength resume depth us := by
  induction ts generalizing us depth with
  | nil => rw [List.map_eq_nil_iff.1 same.symm]
  | cons t ts ih =>
    cases us with
    | nil => cases same
    | cons u us =>
      obtain ⟨first, others⟩ := List.cons.inj same
      simp only [syncLength, (Prod.mk.inj first).1, ih others]

theorem placeless_synchronize (resume : List TokenKind) :
    Placeless id (synchronize resume) (synchronize resume) := by
  intro s t beside
  have lengths := syncLength_of_words resume beside.tokens 0
  unfold synchronize
  rw [show s.stream.upcoming.map Arrival.token = s.tokens from rfl,
    show t.stream.upcoming.map Arrival.token = t.tokens from rfl, lengths]
  exact .ok rfl (beside.skipped _)

theorem placeless_recovering (resume : List TokenKind) (eager : Bool) (h : Placeless e p q) :
    Placeless (Option.map e) (recovering resume eager p) (recovering resume eager q) := by
  intro s t beside
  rw [recovering_apply, recovering_apply]
  obtain ⟨a, b, u, v, first, second, same, beside'⟩ |
    ⟨d, d', u, v, first, second, same, beside'⟩ := (h beside).split
  · rw [first, second]
    exact .ok (congrArg some same) beside'
  · rw [first, second]
    refine .ok rfl ?_
    have reported := beside'.reported same
    have skipped := reported.skipped (syncLength resume 0 (u.reported d).tokens)
    unfold resumed
    simp only [← syncLength_of_words resume reported.tokens, ← beside.consumed, ← skipped.consumed,
      ← skipped.atEnd]
    split
    · exact skipped.advanced
    · exact skipped

/-! ## Names, types and parameters -/

theorem placeless_segments : Placeless id segments segments :=
  (placeless_separated _ (placeless_expect _)).bind fun ts us same => placeless_pure (by
    have values := congrArg (List.map Prod.snd) same
    simpa [Token.word, Function.comp_def] using values)

theorem placeless_dottedName : Placeless id dottedName dottedName :=
  placeless_segments.bind fun _ _ same => placeless_pure (congrArg (".".intercalate ·) same)

theorem placeless_typeArguments {inner inner' : Parser TypeRef}
    (h : Placeless TypeRef.bare inner inner') :
    Placeless (List.map TypeRef.bare) (typeArguments inner) (typeArguments inner') :=
  (placeless_accept _).bind fun opens opens' same => by
    obtain rfl : opens = opens' := same
    exact .ite ((placeless_separated _ h).bind fun _ _ same => (placeless_expect _).discard.bind
      fun _ _ _ => placeless_pure same) (placeless_pure rfl)

theorem placeless_arrayMark : Placeless id arrayMark arrayMark :=
  (placeless_accept _).bind fun opens opens' same => by
    obtain rfl : opens = opens' := same
    exact .ite ((placeless_expect _).discard.bind fun _ _ _ => placeless_pure rfl)
      (placeless_pure rfl)

theorem placeless_typePhrase {inner inner' : Parser TypeRef}
    (h : Placeless TypeRef.bare inner inner') :
    Placeless TypeRef.bare (typePhrase inner) (typePhrase inner') := by
  refine placeless_current.bind fun start start' _ => (placeless_accept _).bind fun void void' same => ?_
  obtain rfl : void = void' := same
  refine .ite ((placeless_spanFrom _ _).bind fun _ _ _ => placeless_pure rfl) ?_
  refine placeless_dottedName.bind fun name name' sameName => (placeless_typeArguments h).bind
    fun ts us sameArguments => placeless_arrayMark.bind fun array array' sameArray =>
      (placeless_spanFrom _ _).bind fun _ _ _ => placeless_pure ?_
  obtain rfl : name = name' := sameName
  obtain rfl : array = array' := sameArray
  simp only [TypeRef.bare, TypeRef.allBare_eq, sameArguments, Span.bare]

theorem placeless_typeRef : Placeless TypeRef.bare typeRef typeRef :=
  placeless_nested (placeless_unexpected _) fun _ _ => placeless_typePhrase

theorem placeless_modifier : Placeless id modifier modifier := by
  refine (placeless_accept _).bind fun out out' same => ?_
  obtain rfl : out = out' := same
  refine .ite (placeless_pure rfl) ((placeless_accept _).bind fun ref ref' same => ?_)
  obtain rfl : ref = ref' := same
  refine .ite (placeless_pure rfl) ((placeless_accept _).bind fun const const' same => ?_)
  obtain rfl : const = const' := same
  exact .ite ((placeless_expect _).discard.bind fun _ _ _ => placeless_pure rfl) (placeless_pure rfl)

theorem value_of_word {t u : Token} (same : t.word = u.word) : t.value = u.value :=
  congrArg Prod.snd same

theorem placeless_parameter : Placeless Parameter.bare parameter parameter := by
  refine placeless_current.bind fun _ _ _ => placeless_modifier.bind fun modifier modifier' same =>
    placeless_typeRef.bind fun type type' sameType => (placeless_expect _).bind
      fun name name' sameName => (placeless_spanFrom _ _).bind fun _ _ _ => placeless_pure ?_
  obtain rfl : modifier = modifier' := same
  simp only [Parameter.bare, sameType, value_of_word sameName, Span.bare]

theorem placeless_parameters : Placeless (List.map Parameter.bare) parameters parameters :=
  (placeless_check _).bind fun none none' same => by
    obtain rfl : none = none' := same
    exact .ite (placeless_pure rfl) (placeless_separated _ placeless_parameter)

/-! ## Attributes -/

theorem literal_of_word {t u : Token} (same : t.word = u.word) :
    t.literal?.map Literal.bare = u.literal?.map Literal.bare := by
  obtain ⟨kind, value⟩ := Prod.mk.inj same
  unfold Token.literal?
  rw [kind]
  cases u.kind.literalKind? with
  | none => rfl
  | some k => simp only [Option.map_some, Literal.bare, value, Span.bare]

theorem placeless_attributeArgument : Placeless Literal.bare attributeArgument attributeArgument := by
  refine placeless_current.bind fun t u same => ?_
  have literals := literal_of_word same
  cases ht : t.literal? <;> cases hu : u.literal? <;> rw [ht, hu] at literals
  · simp only [(Prod.mk.inj same).1]
    refine .ite (placeless_dottedName.bind fun name name' sameName => (placeless_spanFrom _ _).bind
      fun _ _ _ => placeless_pure ?_) (placeless_refuse (message_expectedArgument same))
    obtain rfl : name = name' := sameName
    rfl
  · cases literals
  · cases literals
  · exact placeless_advance.discard.bind fun _ _ _ => placeless_pure (Option.some.inj literals)

theorem placeless_attributeArguments :
    Placeless (List.map Literal.bare) attributeArguments attributeArguments := by
  refine (placeless_accept _).bind fun opens opens' same => ?_
  obtain rfl : opens = opens' := same
  refine .ite ((placeless_accept _).bind fun closes closes' same => ?_) (placeless_pure rfl)
  obtain rfl : closes = closes' := same
  exact .ite (placeless_pure rfl) ((placeless_separated _ placeless_attributeArgument).bind
    fun _ _ same => (placeless_expect _).discard.bind fun _ _ _ => placeless_pure same)

theorem placeless_attributeUse : Placeless Attribute.bare attributeUse attributeUse := by
  refine placeless_current.bind fun _ _ _ => placeless_dottedName.bind fun name name' sameName =>
    placeless_attributeArguments.bind fun _ _ same => (placeless_spanFrom _ _).bind fun _ _ _ =>
      placeless_pure ?_
  obtain rfl : name = name' := sameName
  simp only [Attribute.bare, same, Span.bare]

theorem placeless_attributeLists :
    Placeless (List.map Attribute.bare) attributeLists attributeLists :=
  placeless_iterate (fun as bs all => placeless_advance.bind fun _ _ _ =>
    (placeless_separated _ placeless_attributeUse).bind fun _ _ more =>
      (placeless_expect _).discard.bind fun _ _ _ => placeless_pure (by simp [all, more])) rfl

/-! ## Declarations -/

theorem placeless_initializer : Placeless (Option.map Literal.bare) initializer initializer := by
  refine placeless_current.bind fun t u same => ?_
  have message := message_expected same [.integer, .hex]
  simp only [(Prod.mk.inj same).1]
  refine .ite (placeless_advance.discard.bind fun _ _ _ => placeless_pure (literal_of_word same)) ?_
  refine .ite ((placeless_report message).bind fun _ _ _ => ?_) (placeless_refuse message)
  exact .ite (placeless_segments.discard.bind fun _ _ _ => placeless_pure rfl)
    (placeless_advance.discard.bind fun _ _ _ => placeless_pure rfl)

theorem placeless_enumMember : Placeless EnumMember.bare enumMember enumMember := by
  refine placeless_current.bind fun start start' _ => placeless_attributeLists.bind
    fun attributes attributes' sameAttributes => (placeless_expect _).bind fun name name' sameName =>
      (placeless_accept _).bind fun found found' same => ?_
  obtain rfl : found = found' := same
  have node : ∀ value value' : Option Literal, value.map Literal.bare = value'.map Literal.bare →
      Placeless EnumMember.bare (do return ⟨name.value, value, attributes, ← spanFrom start⟩)
        (do return ⟨name'.value, value', attributes', ← spanFrom start'⟩) := by
    refine fun value value' same => (placeless_spanFrom _ _).bind fun _ _ _ => placeless_pure ?_
    simp only [EnumMember.bare, value_of_word sameName, sameAttributes, same, Span.bare]
  exact .ite (placeless_initializer.bind node) ((placeless_pure rfl).bind node)

theorem placeless_memberSeparator : Placeless id memberSeparator memberSeparator := by
  refine (placeless_accept _).bind fun found found' same => ?_
  obtain rfl : found = found' := same
  refine .ite (placeless_pure rfl) (placeless_current.bind fun t u same => ?_)
  have message := message_expected same [.punct .comma, .punct .rbrace]
  simp only [(Prod.mk.inj same).1]
  refine .ite (placeless_pure rfl) ((placeless_report message).bind fun _ _ _ => ?_)
  exact .ite (placeless_pure rfl)
    ((placeless_synchronize _).bind fun _ _ _ => (placeless_accept _).discard)

theorem placeless_enumMembers : Placeless (List.map EnumMember.bare) enumMembers enumMembers :=
  placeless_iterate (fun ms ms' all => (placeless_recovering _ _ placeless_enumMember).bind
    fun o o' same => placeless_memberSeparator.bind fun _ _ _ => placeless_pure (by
      rw [List.map_append, List.map_append, all, ← Option.toList_map, ← Option.toList_map, same])) rfl

/-- A loop over items that may have to be skipped. -/
theorem placeless_items {continues : TokenKind → Bool} {resume : List TokenKind} {eager : Bool}
    (h : Placeless e p p) : Placeless (List.map e)
      (iterate continues (fun items => do
        let item ← recovering resume eager p
        return items ++ item.toList) [])
      (iterate continues (fun items => do
        let item ← recovering resume eager p
        return items ++ item.toList) []) :=
  placeless_iterate (fun as bs all => (placeless_recovering _ _ h).bind fun o o' same =>
    placeless_pure (by
      rw [List.map_append, List.map_append, all, ← Option.toList_map, ← Option.toList_map, same])) rfl

theorem placeless_structField : Placeless StructField.bare structField structField := by
  refine placeless_current.bind fun _ _ _ => placeless_typeRef.bind fun type type' sameType =>
    (placeless_expect _).bind fun name name' sameName => (placeless_expectOrReport _).bind
      fun _ _ _ => (placeless_spanFrom _ _).bind fun _ _ _ => placeless_pure ?_
  simp only [StructField.bare, sameType, value_of_word sameName, Span.bare]

theorem placeless_accessor {before : List Accessor} : Placeless id (accessor before) (accessor before) := by
  refine placeless_current.bind fun t u same => ?_
  have accessors : accessorOf? t = accessorOf? u := by
    simp only [accessorOf?, (Prod.mk.inj same).1, value_of_word same]
  have message : (Problem.expectedAccessor t).message = (Problem.expectedAccessor u).message :=
    congrArg ("Expected 'get' or 'set', found " ++ ·) (describe_of_word same)
  rw [accessors]
  cases accessorOf? u with
  | none =>
    exact (placeless_report message).bind fun _ _ _ => (placeless_synchronize _).bind fun _ _ _ =>
      placeless_pure rfl
  | some a =>
    have rest : Placeless id
        (do expectOrReport (.punct .semicolon); return if a ∈ before then before else before ++ [a])
        (do expectOrReport (.punct .semicolon); return if a ∈ before then before else before ++ [a]) :=
      (placeless_expectOrReport _).bind fun _ _ _ => placeless_pure rfl
    have duplicate : (Problem.duplicateAccessor t.value).message =
        (Problem.duplicateAccessor u.value).message := by rw [value_of_word same]
    exact placeless_advance.discard.bind fun _ _ _ =>
      .ite ((placeless_report duplicate).bind fun _ _ _ => rest) rest

theorem placeless_accessors : Placeless id accessors accessors := by
  refine (placeless_expect _).discard.bind fun _ _ _ => (placeless_iterate (e := id) (fun as bs all => ?_)
    rfl).bind fun found found' sameFound => placeless_current.bind fun t u same => ?_
  · obtain rfl : as = bs := all
    exact placeless_accessor
  · obtain rfl : found = found' := sameFound
    simp only [(Prod.mk.inj same).1]
    have rest : Placeless id (do expectOrReport (.punct .rbrace); return found)
        (do expectOrReport (.punct .rbrace); return found) :=
      (placeless_expectOrReport _).bind fun _ _ _ => placeless_pure rfl
    exact .ite ((placeless_report rfl).bind fun _ _ _ => rest) rest

theorem placeless_interfaceMember :
    Placeless InterfaceMember.bare interfaceMember interfaceMember := by
  refine placeless_current.bind fun _ _ _ => placeless_attributeLists.bind fun _ _ sameAttributes =>
    (placeless_accept _).bind fun event event' same => ?_
  obtain rfl : event = event' := same
  -- Events, then methods, then properties with and without a block.
  refine .ite ?_ ?_
  · refine placeless_typeRef.bind fun _ _ sameType => (placeless_expect _).bind fun _ _ sameName =>
      (placeless_expectOrReport _).bind fun _ _ _ => (placeless_spanFrom _ _).bind fun _ _ _ =>
        placeless_pure ?_
    simp only [InterfaceMember.bare, sameType, value_of_word sameName, sameAttributes, Span.bare]
  refine placeless_typeRef.bind fun _ _ sameType => (placeless_expect _).bind fun _ _ sameName =>
    (placeless_accept _).bind fun method method' same => ?_
  obtain rfl : method = method' := same
  refine .ite ?_ ((placeless_check _).bind fun block block' same => ?_)
  · refine placeless_parameters.bind fun _ _ sameParameters => (placeless_expect _).discard.bind
      fun _ _ _ => (placeless_expectOrReport _).bind fun _ _ _ => (placeless_spanFrom _ _).bind
        fun _ _ _ => placeless_pure ?_
    simp only [InterfaceMember.bare, sameType, value_of_word sameName, sameParameters, sameAttributes,
      Span.bare]
  obtain rfl : block = block' := same
  refine .ite ?_ ?_
  · refine placeless_accessors.bind fun accessors accessors' same => (placeless_accept _).discard.bind
      fun _ _ _ => (placeless_spanFrom _ _).bind fun _ _ _ => placeless_pure ?_
    obtain rfl : accessors = accessors' := same
    simp only [InterfaceMember.bare, sameType, value_of_word sameName, sameAttributes, Span.bare]
  · refine (placeless_expectOrReport _).bind fun _ _ _ => (placeless_spanFrom _ _).bind fun _ _ _ =>
      placeless_pure ?_
    simp only [InterfaceMember.bare, sameType, value_of_word sameName, sameAttributes, Span.bare]

theorem placeless_bases : Placeless (List.map TypeRef.bare) bases bases :=
  (placeless_accept _).bind fun found found' same => by
    obtain rfl : found = found' := same
    exact .ite (placeless_separated _ placeless_typeRef) (placeless_pure rfl)

section Attributed

variable (start start' : Token) {attributes attributes' : List Attribute}
  (sameAttributes : attributes.map Attribute.bare = attributes'.map Attribute.bare)

include sameAttributes

theorem placeless_enumDecl :
    Placeless EnumDecl.bare (enumDecl start attributes) (enumDecl start' attributes') := by
  refine (placeless_expect _).discard.bind fun _ _ _ => (placeless_expect _).bind fun _ _ sameName =>
    (placeless_expect _).discard.bind fun _ _ _ => placeless_enumMembers.bind fun _ _ sameMembers =>
      (placeless_expectOrReport _).bind fun _ _ _ => (placeless_spanFrom _ _).bind fun _ _ _ =>
        placeless_pure ?_
  simp only [EnumDecl.bare, value_of_word sameName, sameMembers, sameAttributes, Span.bare]

theorem placeless_structDecl :
    Placeless StructDecl.bare (structDecl start attributes) (structDecl start' attributes') := by
  refine (placeless_expect _).discard.bind fun _ _ _ => (placeless_expect _).bind fun _ _ sameName =>
    (placeless_expect _).discard.bind fun _ _ _ => (placeless_items placeless_structField).bind
      fun _ _ sameFields => (placeless_expectOrReport _).bind fun _ _ _ => (placeless_spanFrom _ _).bind
        fun _ _ _ => placeless_pure ?_
  simp only [StructDecl.bare, value_of_word sameName, sameFields, sameAttributes, Span.bare]

theorem placeless_delegateDecl :
    Placeless DelegateDecl.bare (delegateDecl start attributes) (delegateDecl start' attributes') := by
  refine (placeless_expect _).discard.bind fun _ _ _ => placeless_typeRef.bind fun _ _ sameType =>
    (placeless_expect _).bind fun _ _ sameName => (placeless_expect _).discard.bind fun _ _ _ =>
      placeless_parameters.bind fun _ _ sameParameters => (placeless_expect _).discard.bind fun _ _ _ =>
        (placeless_expectOrReport _).bind fun _ _ _ => (placeless_spanFrom _ _).bind fun _ _ _ =>
          placeless_pure ?_
  simp only [DelegateDecl.bare, sameType, value_of_word sameName, sameParameters, sameAttributes,
    Span.bare]

theorem placeless_interfaceDecl :
    Placeless InterfaceDecl.bare (interfaceDecl start attributes) (interfaceDecl start' attributes') := by
  refine (placeless_expect _).discard.bind fun _ _ _ => (placeless_expect _).bind fun _ _ sameName =>
    placeless_bases.bind fun _ _ sameBases => (placeless_expect _).discard.bind fun _ _ _ =>
      (placeless_items placeless_interfaceMember).bind fun _ _ sameMembers =>
        (placeless_expectOrReport _).bind fun _ _ _ => (placeless_spanFrom _ _).bind fun _ _ _ =>
          placeless_pure ?_
  simp only [InterfaceDecl.bare, value_of_word sameName, sameBases, sameMembers, sameAttributes,
    Span.bare]

theorem placeless_namespacePhrase {inner inner' : Parser Declaration}
    (h : Placeless Declaration.bare inner inner') :
    Placeless Namespace.bare (namespacePhrase inner start attributes)
      (namespacePhrase inner' start' attributes') := by
  have body : Placeless (List.map Declaration.bare) (declarations inner) (declarations inner') := by
    refine placeless_iterate (fun ds ds' all => (placeless_recovering _ _ h).bind fun o o' same => ?_)
      rfl
    match o, o' with
    | none, none => exact placeless_pure all
    | some d, some d' =>
      exact (placeless_accept _).discard.bind fun _ _ _ =>
        placeless_pure (by simp [all, Option.some.inj same])
  refine (placeless_expect _).discard.bind fun _ _ _ => placeless_segments.bind
    fun name name' sameName => (placeless_expect _).discard.bind fun _ _ _ => body.bind
      fun _ _ sameBody => (placeless_expectOrReport _).bind fun _ _ _ => (placeless_spanFrom _ _).bind
        fun _ _ _ => placeless_pure ?_
  obtain rfl : name = name' := sameName
  simp only [Namespace.bare, Declaration.allBare_eq, sameBody, sameAttributes, Span.bare]

end Attributed

theorem placeless_declaration : Placeless Declaration.bare declaration declaration := by
  refine placeless_nested (placeless_unexpected _) fun inner inner' h => ?_
  refine placeless_current.bind fun start start' _ => placeless_attributeLists.bind
    fun _ _ sameAttributes => placeless_current.bind fun t u same => ?_
  rw [(Prod.mk.inj same).1]
  split
  · exact (placeless_namespacePhrase start start' sameAttributes h).map fun _ _ => congrArg _
  · exact (placeless_enumDecl start start' sameAttributes).map fun _ _ => congrArg _
  · exact (placeless_structDecl start start' sameAttributes).map fun _ _ => congrArg _
  · exact (placeless_delegateDecl start start' sameAttributes).map fun _ _ => congrArg _
  · exact (placeless_interfaceDecl start start' sameAttributes).map fun _ _ => congrArg _
  · exact placeless_unexpected _

/-! ## Files -/

/-- The bare form of an item at the top level. -/
def bareItem : TopLevel → TopLevel
  | .import_ i => .import_ i.bare
  | .namespace_ ns => .namespace_ ns.bare

theorem placeless_topLevel : Placeless bareItem topLevel topLevel := by
  refine placeless_current.bind fun start start' same => ?_
  rw [(Prod.mk.inj same).1]
  refine .ite ?_ ?_
  · have directive : Placeless Import.bare importDirective importDirective := by
      refine (placeless_expect _).bind fun _ _ _ => (placeless_expect _).bind fun _ _ samePath =>
        (placeless_expectOrReport _).bind fun _ _ _ => (placeless_spanFrom _ _).bind fun _ _ _ =>
          placeless_pure ?_
      simp only [Import.bare, value_of_word samePath, Span.bare]
    exact directive.bind fun _ _ same => placeless_pure (congrArg TopLevel.import_ same)
  · refine placeless_attributeLists.bind fun _ _ sameAttributes => (placeless_check _).bind
      fun found found' same => ?_
    obtain rfl : found = found' := same
    exact .ite ((placeless_namespacePhrase start start' sameAttributes placeless_declaration).bind
      fun _ _ same => placeless_pure (congrArg TopLevel.namespace_ same)) (placeless_unexpected _)

theorem bare_add {tree tree' : IdlFile} {o o' : Option TopLevel} (same : tree.bare = tree'.bare)
    (sameItem : o.map bareItem = o'.map bareItem) : (tree.add o).bare = (tree'.add o').bare := by
  obtain ⟨imports, namespaces⟩ := IdlFile.mk.inj same
  match o, o' with
  | none, none => exact same
  | some (.import_ i), some (.import_ i') =>
    have item := TopLevel.import_.inj (Option.some.inj sameItem)
    simp [IdlFile.add, IdlFile.bare, imports, namespaces, item]
  | some (.namespace_ ns), some (.namespace_ ns') =>
    have item := TopLevel.namespace_.inj (Option.some.inj sameItem)
    simp [IdlFile.add, IdlFile.bare, imports, namespaces, item]

theorem placeless_file : Placeless IdlFile.bare file file :=
  placeless_iterate (fun _ _ same => (placeless_recovering _ _ placeless_topLevel).bind
    fun _ _ sameItem => placeless_pure (bare_add same sameItem)) rfl

end Parser

open IdlFront.Parser

/-- Streams that differ in places only are parsed to trees that are equal up to spans, with the same
    messages. -/
theorem parseStream_beside {stream stream' : TokenStream}
    (beside : (initial stream).Beside (initial stream')) :
    (parseStream stream).result.tree.bare = (parseStream stream').result.tree.bare ∧
      (parseStream stream).result.diagnostics.map Diagnostic.message =
        (parseStream stream').result.diagnostics.map Diagnostic.message := by
  unfold parseStream
  obtain ⟨tree, tree', s, t, run, run', same, after⟩ | ⟨d, d', s, t, run, run', same, after⟩ :=
    (placeless_file beside).split
  · rw [run, run']
    exact ⟨same, after.messages⟩
  · rw [run, run']
    exact ⟨rfl, (after.reported same).messages⟩

/-! ## Sources -/

theorem beside_ofSource {source source' : String} (quiet : (tokenize source).faults = [])
    (quiet' : (tokenize source').faults = [])
    (same : (tokenize source).tokens.map Token.word = (tokenize source').tokens.map Token.word) :
    (initial (.ofSource source)).Beside (initial (.ofSource source')) := by
  rw [← tokens_ofSource, ← tokens_ofSource, List.map_append, List.map_append] at same
  obtain ⟨tokens, ending⟩ := List.append_inj' same rfl
  exact {
    plain := plain_initial (List.flatMap_eq_nil_iff.1 quiet)
    plain' := plain_initial (List.flatMap_eq_nil_iff.1 quiet')
    tokens := tokens
    ending := (List.cons.inj ending).1
    consumed := (consumed_initial _).trans (consumed_initial _).symm
    messages := rfl }

/-- The tokens before the end of input are the words of the source. -/
theorem words_beforeEof {source : String} {words : List (TokenKind × String)}
    (has : Lexical.HasWords source.toList words) :
    (beforeEof (tokenize source).tokens).map Token.word = words := by
  have split := congrArg (List.map Token.word) (tokens_ofSource source)
  have tokens : (initial (.ofSource source)).tokens = beforeEof (tokenize source).tokens :=
    tokens_initial (arrivals source)
  rw [List.map_append, (Lexical.hasWords_iff.1 has).2, tokens] at split
  exact (List.append_inj' split rfl).1

/-- Trivia between the tokens of a text without lexical faults do not matter: with any other trivia in
    their place the text has no lexical faults either and the same words, and is parsed to the same
    tree up to spans, with the same messages. -/
theorem trivia_immaterial {source source' : String} (quiet : (tokenize source).faults = [])
    (respaced : Lexical.Respaced
      ((beforeEof (tokenize source).tokens).map fun t => t.value.toList) source'.toList) :
    (tokenize source').faults = [] ∧
      (tokenize source').tokens.map Token.word = (tokenize source).tokens.map Token.word ∧
      (parse source').tree.bare = (parse source).tree.bare ∧
      (parse source').diagnostics.map Diagnostic.message =
        (parse source).diagnostics.map Diagnostic.message := by
  obtain ⟨words, has⟩ := Lexical.exists_words quiet
  have texts : ((beforeEof (tokenize source).tokens).map fun t => t.value.toList) =
      words.map fun word => word.2.toList := by
    rw [← words_beforeEof has, List.map_map]
    rfl
  rw [texts] at respaced
  obtain ⟨quiet', words'⟩ := Lexical.hasWords_iff.1 (has.respaced respaced)
  have same := words'.trans (Lexical.hasWords_iff.1 has).2.symm
  exact ⟨quiet', same, parseStream_beside (beside_ofSource quiet' quiet same)⟩

/-- A comment in front of an unexpected semicolon, and one that no line feed ends. -/
theorem trivia_immaterial_import : (tokenize "import;").faults = [] ∧
    Lexical.Respaced ((beforeEof (tokenize "import;").tokens).map fun t => t.value.toList)
      "import/* no path */;//".toList ∧
    (parse "import/* no path */;//").diagnostics.map Diagnostic.message =
      (parse "import;").diagnostics.map Diagnostic.message := by
  have quiet : (tokenize "import;").faults = [] := by decide +kernel
  have texts : ((beforeEof (tokenize "import;").tokens).map fun t => t.value.toList) =
      ["import".toList, [';']] := by decide +kernel
  have respaced : Lexical.Respaced
      ((beforeEof (tokenize "import;").tokens).map fun t => t.value.toList)
      "import/* no path */;//".toList := by
    rw [texts]
    have comment : Lexical.IsTrivia "/* no path */".toList :=
      .cons (@Lexical.Trivium.blockComment " no path ".toList (by decide +kernel)) .nil
    have ending : Lexical.IsEnding ['/', '/'] := .openLine .nil (by simp)
    exact .texts .nil (.text comment (by decide) (.ending ending))
  exact ⟨quiet, respaced, (trivia_immaterial quiet respaced).2.2.2⟩

end IdlFront
