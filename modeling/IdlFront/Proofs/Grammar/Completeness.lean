import IdlFront.Proofs.Grammar.Beginnings
import IdlFront.Proofs.Parser.Accepting

/-! # Parsers accept what is in the grammar

A parser that meets a phrase of its production reads it without complaint, to its end and no
further. The grammar itself has no lookahead, so each lemma bars the kinds of tokens behind the phrase
that the parser would take for more of it.
-/

namespace IdlFront.Grammar

open IdlFront.Parser IdlFront.ParserState

variable {α β : Type} {stop : Int} {ts us rest : List Token} {barred : List TokenKind} {bound : Nat}

/-! ## Repetition

Nested phrases are accepted for fewer tokens than their outer ones, so what is known of the items
of a list may come with a bound on the tokens to come. -/

section Separated

variable {separator : TokenKind} {item : Parser α} {phrase : List Token → α → Prop}
  (complete : ∀ {stop ts a rest}, phrase ts a → (ts ++ rest).length < bound →
    nextKind rest ∉ barred → Accepts item stop ts a rest)

include complete

theorem separated_loop_complete {as before : List α} {c : Token} (free : separator ∉ barred)
    (eq : c.kind = separator) (h : Separated separator phrase ts as)
    (short : (ts ++ rest).length < bound) (next : nextKind rest ∉ barred)
    (ends : nextKind rest ≠ separator) :
    Accepts (iterate (· == separator) (fun items => do
      let _ ← advance
      let next ← item
      return items ++ [next]) before) stop (c :: ts) (before ++ as) rest := by
  -- By induction on the items behind the separator; each round starts at a separator.
  induction h generalizing stop before c with
  | one first =>
    rw [← List.append_nil (c :: _)]
    refine accepts_iterate_cons (by simpa using eq) (List.cons_ne_nil _ _) ?_
      (accepts_iterate_nil (by simpa using ends))
    exact accepts_advance.bind ((complete first short next).andThen .pure)
  | @cons ts us a d as first eq' more ih =>
    rw [← List.cons_append]
    have read : Accepts item c.stop ts a (d :: us ++ rest) :=
      complete first (by simpa using short) (by simpa [eq'] using free)
    have loop : Accepts _ (stopAfter stop (c :: ts)) (d :: us) (before ++ [a] ++ as) rest :=
      ih eq' (by simp at short ⊢; omega)
    rw [List.append_assoc] at loop
    exact accepts_iterate_cons (by simpa using eq) (List.cons_ne_nil _ _)
      (accepts_advance.bind (read.andThen .pure)) loop

theorem separated_complete_below {as : List α} (free : separator ∉ barred)
    (h : Separated separator phrase ts as) (short : (ts ++ rest).length < bound)
    (next : nextKind rest ∉ barred) (ends : nextKind rest ≠ separator) :
    Accepts (separated separator item) stop ts as rest := by
  cases h with
  | one first => exact (complete first short next).andThen (accepts_iterate_nil (by simpa using ends))
  | @cons ts us a c as first eq more =>
    refine (complete first (by simpa using short) (by simpa [eq] using free)).bind ?_
    exact separated_loop_complete complete free eq more (by simp at short ⊢; omega) next ends

end Separated

theorem separated_complete {separator : TokenKind} {item : Parser α}
    {phrase : List Token → α → Prop} (barred : List TokenKind)
    (complete : ∀ {stop ts a rest}, phrase ts a → nextKind rest ∉ barred →
      Accepts item stop ts a rest)
    {as : List α} (free : separator ∉ barred) (h : Separated separator phrase ts as)
    (next : nextKind rest ∉ barred) (ends : nextKind rest ≠ separator) :
    Accepts (separated separator item) stop ts as rest :=
  separated_complete_below (fun h _ => complete h) free h (Nat.lt_succ_self _) next ends

section Many

variable {continues : TokenKind → Bool} {round : β → Parser β} {phrase : List Token → α → Prop}
  {kinds : List TokenKind}

/-- A loop whose rounds read one phrase each and add it to what is there. -/
theorem many_complete_below (add : β → α → β) (barred : List TokenKind)
    (complete : ∀ {stop ts a b rest}, phrase ts a → (ts ++ rest).length < bound →
      nextKind rest ∉ barred → Accepts (round b) stop ts (add b a) rest)
    (begins : ∀ {ts a}, phrase ts a → nextKind ts ∈ kinds)
    (goesOn : ∀ k ∈ kinds, continues k = true ∧ k ∉ barred ∧ k ≠ .eof) {as : List α} {b : β}
    (h : Many phrase ts as) (short : (ts ++ rest).length < bound) (next : nextKind rest ∉ barred)
    (ends : continues (nextKind rest) = false) :
    Accepts (iterate continues round b) stop ts (as.foldl add b) rest := by
  induction h generalizing stop b with
  | nil => exact accepts_iterate_nil ends
  | @cons ts us a as first more ih =>
    obtain ⟨goes, -, notEof⟩ := goesOn _ (begins first)
    have nonempty : ts ≠ [] := by
      rintro rfl
      exact notEof rfl
    refine accepts_iterate_cons goes nonempty (complete first (by simpa using short) ?_)
      (ih (by simp at short ⊢; omega))
    -- What follows a phrase is the next phrase, and only behind the last one the rest.
    cases more with
    | nil => exact next
    | cons second =>
      obtain ⟨-, free, notEof⟩ := goesOn _ (begins second)
      rw [List.append_assoc, nextKind_append]
      · exact free
      · rintro rfl
        exact notEof rfl

theorem many_complete (add : β → α → β) (barred : List TokenKind)
    (complete : ∀ {stop ts a b rest}, phrase ts a → nextKind rest ∉ barred →
      Accepts (round b) stop ts (add b a) rest)
    (begins : ∀ {ts a}, phrase ts a → nextKind ts ∈ kinds)
    (goesOn : ∀ k ∈ kinds, continues k = true ∧ k ∉ barred ∧ k ≠ .eof) {as : List α} {b : β}
    (h : Many phrase ts as) (next : nextKind rest ∉ barred)
    (ends : continues (nextKind rest) = false) :
    Accepts (iterate continues round b) stop ts (as.foldl add b) rest :=
  many_complete_below add barred (fun h _ => complete h) begins goesOn h (Nat.lt_succ_self _) next ends

end Many

/-! ## Names and types -/

theorem segments_complete {names : List String} (h : IsQualified ts names)
    (ends : nextKind rest ≠ .punct .dot) : Accepts segments stop ts names rest := by
  suffices ∃ tokens : List Token, tokens.map Token.value = names ∧
      Separated (.punct .dot) (fun ts n => ts = [n] ∧ n.kind = .identifier) ts tokens by
    obtain ⟨tokens, rfl, parts⟩ := this
    refine Accepts.andThen (separated_complete [] ?_ (by simp) parts (by simp) ends) .pure
    rintro stop _ n rest ⟨rfl, eq⟩ -
    exact accepts_expect eq
  induction h with
  | one first =>
    obtain @⟨n, eq⟩ := first
    exact ⟨[n], rfl, .one ⟨rfl, eq⟩⟩
  | cons first eq' _ ih =>
    obtain @⟨n, eq⟩ := first
    obtain ⟨tokens, rfl, parts⟩ := ih
    exact ⟨n :: tokens, rfl, .cons ⟨rfl, eq⟩ eq' parts⟩

theorem dottedName_complete {names : List String} (h : IsQualified ts names)
    (ends : nextKind rest ≠ .punct .dot) :
    Accepts dottedName stop ts (".".intercalate names) rest :=
  (segments_complete h ends).andThen .pure

/-- What behind a type would be taken for more of it. -/
def typeContinuations : List TokenKind := [.punct .dot, .punct .langle, .punct .lbracket]

theorem typeArguments_complete {type : Parser TypeRef} {phrase : List Token → TypeRef → Prop}
    (complete : ∀ {stop ts a rest}, phrase ts a → (ts ++ rest).length < bound →
      nextKind rest ∉ typeContinuations → Accepts type stop ts a rest)
    {arguments : List TypeRef} (h : AreTypeArguments phrase ts arguments)
    (short : (ts ++ rest).length ≤ bound) (ends : nextKind rest ≠ .punct .langle) :
    Accepts (typeArguments type) stop ts arguments rest := by
  cases h with
  | none => exact accepts_acceptElse ends .pure
  | some hl all hr =>
    refine accepts_acceptThen hl (Accepts.bind ?_ (accepts_discardExpectThen hr .pure))
    exact separated_complete_below complete (by decide) all (by simp at short ⊢; omega)
      (by rw [List.singleton_append, nextKind_cons, hr]; decide)
      (by rw [List.singleton_append, nextKind_cons, hr]; decide)

theorem arrayMark_complete {isArray : Bool} (h : IsArrayMark ts isArray)
    (ends : nextKind rest ≠ .punct .lbracket) : Accepts arrayMark stop ts isArray rest := by
  cases h with
  | absent => exact accepts_acceptElse ends .pure
  | present hl hr => exact accepts_acceptThen hl (accepts_discardExpectThen hr .pure)

theorem typePhrase_complete {inner : Parser TypeRef}
    (complete : ∀ {stop ts a rest}, IsType ts a → (ts ++ rest).length < bound →
      nextKind rest ∉ typeContinuations → Accepts inner stop ts a rest)
    {type : TypeRef} (h : IsType ts type) (short : (ts ++ rest).length ≤ bound)
    (next : nextKind rest ∉ typeContinuations) :
    Accepts (typePhrase inner) stop ts type rest := by
  cases h with
  | @void t eq =>
    exact accepts_currentThen rfl (accepts_acceptThen eq (accepts_spanOver stop rfl rfl))
  | @named ns as ms names arguments isArray hns has hms =>
    obtain ⟨first, head⟩ : ∃ first, ns.head? = some first :=
      ⟨_, List.head?_eq_some_head hns.ne_nil⟩
    -- A named type starts with an identifier, so it is not taken for the type without values.
    have notVoid : nextKind ns ≠ .keyword .void := by
      rw [List.mem_singleton.1 hns.begins]
      decide
    simp only [typeContinuations, List.mem_cons, List.not_mem_nil, or_false, not_or] at next
    obtain ⟨noDot, noAngle, noBracket⟩ := next
    have head' : (ns ++ as ++ ms).head? = some first := by simp [head]
    refine accepts_currentThen head' (accepts_acceptElse ?_ ?_)
    · rwa [List.append_assoc, List.append_assoc, nextKind_append hns.ne_nil]
    rw [List.append_assoc]
    refine Accepts.bind (dottedName_complete hns ?_) (Accepts.bind (typeArguments_complete complete has ?_ ?_)
      ((arrayMark_complete hms noBracket).andThen (accepts_spanOver stop ?_ ?_)))
    · cases has with
      | none => cases hms <;> simp_all
      | some => simp_all
    · simp at short ⊢; omega
    · cases hms <;> simp_all
    · simpa using head'
    · simp

theorem typeRef_complete {type : TypeRef} (h : IsType ts type)
    (next : nextKind rest ∉ typeContinuations) : Accepts typeRef stop ts type rest := by
  induction hn : (ts ++ rest).length using Nat.strongRecOn generalizing stop ts rest type with
  | ind n ih =>
    subst hn
    refine accepts_nested (typePhrase_complete ?_ h (Nat.le_refl _) next)
    intro stop ts rest type h short next
    exact accepts_limited short (ih _ short h next rfl)

/-! ## Parameters -/

theorem modifier_complete {m : Option Modifier} (h : IsModifier ts m)
    (next : nextKind rest ∈ typeBeginnings) : Accepts modifier stop ts m rest := by
  cases h with
  | absent =>
    refine accepts_acceptElse ?_ (accepts_acceptElse ?_ (accepts_acceptElse ?_ .pure))
    all_goals exact ne_of_mem_of_not_mem next (by decide)
  | ref eq =>
    refine accepts_acceptElse ?_ (accepts_acceptThen eq .pure)
    simp [eq]
  | constRef eq eq' =>
    refine accepts_acceptElse ?_ (accepts_acceptElse ?_
      (accepts_acceptThen eq (accepts_discardExpectThen eq' .pure)))
    · simp [eq]
    · simp [eq]
  | out eq => exact accepts_acceptThen eq .pure

theorem parameter_complete {p : Parameter} (h : IsParameter ts p) :
    Accepts parameter stop ts p rest := by
  obtain @⟨ms, us, n, m, type, hm, htype, hn⟩ := h
  obtain ⟨first, head⟩ : ∃ first, (ms ++ us ++ [n]).head? = some first :=
    ⟨_, List.head?_eq_some_head (by simp)⟩
  refine accepts_currentThen head ?_
  rw [List.append_assoc]
  refine Accepts.bind (modifier_complete hm ?_) (Accepts.bind (typeRef_complete htype ?_)
    (accepts_expectThen hn (accepts_spanOver stop ?_ ?_)))
  · rw [List.append_assoc]
    exact nextKind_append_mem htype.begins (by decide) _
  · simp [hn, typeContinuations]
  · simpa using head
  · simp

theorem parameters_complete {ps : List Parameter} (h : AreParameters ts ps)
    (next : nextKind rest = .punct .rparen) : Accepts parameters stop ts ps rest := by
  cases h with
  | none => exact accepts_checkThen next .pure
  | some all =>
    have begins := nextKind_append_mem (all.begins IsParameter.begins (by decide)) (by decide) rest
    refine accepts_checkElse (ne_of_mem_of_not_mem begins (by decide)) ?_
    exact separated_complete [] (fun h _ => parameter_complete h) (by simp) all (by simp)
      (by rw [next]; decide)

/-! ## Attributes -/

theorem attributeArgument_complete {l : Literal} (h : IsArgument ts l)
    (ends : nextKind rest ≠ .punct .dot) : Accepts attributeArgument stop ts l rest := by
  cases h with
  | @literal t kind eq =>
    refine accepts_currentThen rfl ?_
    have literal : t.literal? = some ⟨kind, t.value, tokenSpan t⟩ := by
      rw [Token.literal?, isLiteralKind_iff.1 eq]
      rfl
    simp only [literal]
    rw [← tokenSpan_eq]
    exact accepts_advance.discard.andThen .pure
  | name names =>
    obtain ⟨t, us, rfl⟩ := List.exists_cons_of_ne_nil names.ne_nil
    have eq : t.kind = .identifier := List.mem_singleton.1 names.begins
    have noLiteral : t.literal? = none := by
      rw [Token.literal?, eq]
      rfl
    refine accepts_currentThen rfl ?_
    simp only [noLiteral, if_pos eq]
    exact (dottedName_complete names ends).andThen (accepts_spanOver stop rfl rfl)

theorem attributeArguments_complete {ls : List Literal} (h : AreArguments ts ls)
    (ends : nextKind rest ≠ .punct .lparen) : Accepts attributeArguments stop ts ls rest := by
  cases h with
  | none => exact accepts_acceptElse ends .pure
  | empty hl hr => exact accepts_acceptThen hl (accepts_acceptThen hr .pure)
  | some hl all hr =>
    have begins := all.begins IsArgument.begins (by decide)
    refine accepts_acceptThen hl (accepts_acceptElse ?_ ?_)
    · rw [List.append_eq, List.append_assoc]
      exact ne_of_mem_of_not_mem (nextKind_append_mem begins (by decide) _) (by decide)
    refine Accepts.bind (separated_complete [.punct .dot] ?_ (by decide) all ?_ ?_)
      (accepts_discardExpectThen hr .pure)
    · exact fun h next => attributeArgument_complete h (by simpa using next)
    · simp [hr]
    · simp [hr]

/-- What behind an attribute would be taken for more of it. -/
def attributeContinuations : List TokenKind := [.punct .dot, .punct .lparen]

theorem attributeUse_complete {a : Attribute} (h : IsAttribute ts a)
    (next : nextKind rest ∉ attributeContinuations) : Accepts attributeUse stop ts a rest := by
  obtain @⟨ns, as, names, arguments, hns, has⟩ := h
  obtain ⟨first, us, rfl⟩ := List.exists_cons_of_ne_nil hns.ne_nil
  simp only [attributeContinuations, List.mem_cons, List.not_mem_nil, or_false, not_or] at next
  refine accepts_currentThen rfl (Accepts.bind (dottedName_complete hns ?_)
    ((attributeArguments_complete has next.2).andThen (accepts_spanOver stop rfl ?_)))
  · cases has <;> simp_all
  · simp

theorem attributeLists_complete {attributes : List Attribute} (h : AreAttributes ts attributes)
    (next : nextKind rest ≠ .punct .lbracket) :
    Accepts attributeLists stop ts attributes rest := by
  cases h with
  | @mk lists many =>
    have flat : ∀ before : List Attribute,
        lists.foldl (· ++ ·) before = before ++ lists.flatten := by
      clear many
      induction lists <;> simp_all
    rw [← List.nil_append lists.flatten, ← flat]
    refine many_complete (· ++ ·) [] ?_ IsAttributeList.begins (by decide) many (by simp)
      (by simpa using next)
    rintro stop _ new before rest ⟨hl, all, hr⟩ -
    refine accepts_advance.bind (Accepts.bind (separated_complete attributeContinuations ?_
      (by decide) all ?_ ?_) (accepts_discardExpectThen hr .pure))
    · exact attributeUse_complete
    · simp [hr, attributeContinuations]
    · simp [hr]

end IdlFront.Grammar
