import IdlFront.Proofs.Parser.Recovering

/-! # Progress

* `Consumes` — a parser that succeeds only after it has consumed something.
* `recovering_lowers` — an eager list gets over every item, whether it fails or not.
* `iterate_ends` — a loop whose rounds all consume something ends where it does not go on.
-/

namespace IdlFront

namespace ParserState

variable {s t : ParserState}

/-! ## What reaching keeps -/

theorem remaining_advanced (s : ParserState) : s.advanced.remaining = s.remaining - 1 := by
  rw [remaining_eq, remaining_eq, tokens_advanced, List.length_tail]

theorem consumed_advanced (s : ParserState) :
    s.advanced.stream.consumed + s.advanced.remaining = s.stream.consumed + s.remaining := by
  have looked : s.looked.stream.consumed = s.stream.consumed := rfl
  rw [remaining_advanced, ← remaining_looked s, ← looked]
  unfold advanced TokenStream.tail remaining TokenStream.remaining
  cases s.looked.stream.upcoming with
  | nil => rfl
  | cons a as =>
    simp only [List.length_cons]
    omega

/-- Consumed tokens are those that are no longer to come. -/
theorem Reaches.consumed (h : s.Reaches t) :
    t.stream.consumed + t.remaining = s.stream.consumed + s.remaining := by
  induction h with
  | refl => rfl
  | tail _ step ih =>
    rw [← ih]
    cases step with
    | look => rw [remaining_looked]; rfl
    | advance => exact consumed_advanced _
    | report => rfl

theorem Reaches.remaining_le (h : s.Reaches t) : t.remaining ≤ s.remaining := by
  induction h with
  | refl => exact Nat.le_refl _
  | tail _ step ih =>
    refine Nat.le_trans ?_ ih
    cases step with
    | look => exact Nat.le_of_eq (remaining_looked _)
    | advance => exact le_of_eq_of_le (remaining_advanced _) (Nat.sub_le _ _)
    | report => exact Nat.le_refl _

theorem Reaches.ending (h : s.Reaches t) : t.ending = s.ending := by
  induction h with
  | refl => rfl
  | tail _ step ih =>
    rw [← ih]
    cases step with
    | look => exact ending_looked _
    | advance => exact ending_advanced _
    | report => rfl

/-- The tokens to come are the last of those that were to come before. -/
theorem Reaches.tokens (h : s.Reaches t) : t.tokens <:+ s.tokens := by
  induction h with
  | refl => exact List.suffix_rfl
  | tail _ step ih =>
    cases step with
    | look => rwa [tokens_looked]
    | advance => rw [tokens_advanced]; exact (List.tail_suffix _).trans ih
    | report => exact ih

/-- Where nothing has been consumed the same tokens are to come. -/
theorem Reaches.tokens_eq (h : s.Reaches t) (still : t.stream.consumed = s.stream.consumed) :
    t.tokens = s.tokens := by
  have := Reaches.consumed h
  rw [still, remaining_eq, remaining_eq] at this
  exact (Reaches.tokens h).eq_of_length (by omega)

/-- Where no fewer tokens are to come the next one is the same. -/
theorem Reaches.current (h : s.Reaches t) (still : ¬ t.remaining < s.remaining) :
    t.current = s.current := by
  rw [remaining_eq, remaining_eq] at still
  rw [t.current_eq, s.current_eq, (Reaches.tokens h).eq_of_length_le (by omega), Reaches.ending h]

/-- Where neither an item nor the skipping after it has consumed anything, the first token is one that
    skipping stops at. -/
theorem mem_resume_of_still {resume : List TokenKind} {first : Token} {rest : List Token}
    (h : s.Reaches t) (tokens : s.tokens = first :: rest)
    (still : (t.skipped (syncLength resume 0 t.tokens)).stream.consumed = s.stream.consumed) :
    first.kind ∈ resume ∧ (t.skipped (syncLength resume 0 t.tokens)).tokens = s.tokens := by
  have skipped := reaches_skipped (syncLength resume 0 t.tokens) t
  have all := Reaches.tokens_eq (h.trans skipped) still
  have same : t.tokens = s.tokens :=
    (Reaches.tokens h).eq_of_length_le (all ▸ (Reaches.tokens skipped).length_le)
  refine ⟨?_, all⟩
  rw [tokens_skipped, same, tokens] at all
  have lengths := congrArg List.length all
  simp only [List.length_drop, List.length_cons] at lengths
  have none : syncLength resume 0 (first :: rest) = 0 := by omega
  exact Parser.mem_of_syncLength_eq_zero none

theorem tokens_eq_cons (more : 0 < s.remaining) : s.tokens = s.current :: s.tokens.tail := by
  rw [s.remaining_eq] at more
  rw [s.current_eq]
  cases h : s.tokens with
  | nil => rw [h] at more; exact absurd more (Nat.lt_irrefl 0)
  | cons t ts => rfl

/-- Skipping consumes something unless it starts where it stops. -/
theorem remaining_skipped_lt {resume : List TokenKind} (h : s.Reaches t) (more : 0 < s.remaining)
    (goesOn : s.current.kind ∉ resume) :
    (t.skipped (syncLength resume 0 t.tokens)).remaining < s.remaining := by
  have reaches := h.trans (reaches_skipped (syncLength resume 0 t.tokens) t)
  have consumed := Reaches.consumed reaches
  have le := Reaches.remaining_le reaches
  by_cases still : (t.skipped (syncLength resume 0 t.tokens)).stream.consumed = s.stream.consumed
  · exact absurd (mem_resume_of_still h (tokens_eq_cons more) still).1 goesOn
  · omega

end ParserState

namespace Parser

open ParserState

variable {α β : Type} {p : Parser α} {s t : ParserState} {a : α} {d : Diagnostic}

theorem reaches_ok [Uniform p] (h : p s = .ok a t) : s.Reaches t := after_ok h ▸ p.reaches s

theorem reaches_error [Uniform p] (h : p s = .error d t) : s.Reaches t :=
  after_error h ▸ p.reaches s

/-! ## Parsers that consume -/

/-- A parser that succeeds only after it has consumed something. -/
class Consumes (p : Parser α) : Prop where
  lowers : ∀ {s t : ParserState} {a : α}, s.ending.kind = .eof → p s = .ok a t →
    t.remaining < s.remaining

theorem map_ok {f : α → β} {b : β} (h : (f <$> p) s = .ok b t) : ∃ a, p s = .ok a t ∧ f a = b := by
  rw [map_apply] at h
  cases hp : p s with
  | ok a u =>
    rw [hp] at h
    cases h
    exact ⟨a, rfl, rfl⟩
  | error d u =>
    rw [hp] at h
    cases h

theorem bind_ok {f : α → Parser β} {b : β} (h : (p >>= f) s = .ok b t) :
    ∃ a u, p s = .ok a u ∧ f a u = .ok b t := by
  rw [bind_apply] at h
  cases hp : p s with
  | error d u => rw [hp] at h; cases h
  | ok a u => rw [hp] at h; exact ⟨a, u, rfl, h⟩

/-- The first step consumes. -/
theorem Consumes.bind_left {f : α → Parser β} [Uniform p] [∀ a, Uniform (f a)]
    (h : Consumes p) : Consumes (p >>= f) where
  lowers ended run := by
    obtain ⟨a, u, first, second⟩ := bind_ok run
    exact Nat.lt_of_le_of_lt (reaches_ok second).remaining_le (h.lowers ended first)

/-- A later step consumes. -/
instance consumes_bind {f : α → Parser β} [Uniform p] [h : ∀ a, Consumes (f a)] :
    Consumes (p >>= f) where
  lowers ended run := by
    obtain ⟨a, u, first, second⟩ := bind_ok run
    have reaches := reaches_ok first
    exact Nat.lt_of_lt_of_le ((h a).lowers (by rwa [reaches.ending]) second) reaches.remaining_le

instance {f : α → β} [h : Consumes p] : Consumes (f <$> p) where
  lowers {s} _ _ ended run := by
    obtain ⟨a, first, rfl⟩ := map_ok run
    exact h.lowers ended first

theorem remaining_pos (ended : s.ending.kind = .eof) (more : s.current.kind ≠ .eof) :
    0 < s.remaining := by
  rw [s.current_eq] at more
  rw [s.remaining_eq]
  cases h : s.tokens with
  | nil => rw [h] at more; exact absurd ended more
  | cons t ts => exact Nat.succ_pos _

theorem consumes_expect {kind : TokenKind} (more : kind ≠ .eof) : Consumes (expect kind) where
  lowers {s t} a ended run := by
    obtain ⟨found, u, look, run⟩ := bind_ok run
    cases look
    split at run
    · next eq =>
      cases run
      have pos := remaining_pos ended (by rw [eq]; exact more)
      rw [remaining_advanced, remaining_looked]
      omega
    · cases run

theorem consumes_discardExpect {kind : TokenKind} (more : kind ≠ .eof) :
    Consumes (discard (expect kind)) where
  lowers {s t} a ended run := by
    rw [discard_apply] at run
    cases he : expect kind s with
    | error d u => rw [he] at run; cases run
    | ok found u => rw [he] at run; cases run; exact (consumes_expect more).lowers ended he

instance {found : Token} {problem : Problem} : Consumes (refuse found problem : Parser α) where
  lowers _ run := by cases run

instance {kinds : List TokenKind} : Consumes (unexpected kinds : Parser α) := by
  unfold unexpected; infer_instance

section Then

variable {kind : TokenKind} {q : Parser β} [Uniform q]

theorem consumes_expectThen {f : Token → Parser β} [∀ found, Uniform (f found)]
    (more : kind ≠ .eof) : Consumes (expect kind >>= f) := (consumes_expect more).bind_left

theorem consumes_discardExpectThen (more : kind ≠ .eof) :
    Consumes (do discard (expect kind); q) := (consumes_discardExpect more).bind_left

end Then

theorem accept_lowers {kind : TokenKind} (ended : s.ending.kind = .eof) (inside : kind ≠ .eof)
    (run : accept kind s = .ok true t) : t.remaining < s.remaining := by
  rw [accept_apply] at run
  split at run
  · next eq =>
    cases run
    have pos := remaining_pos ended (by rw [eq]; exact inside)
    rw [remaining_advanced, remaining_looked]
    omega
  · cases run

/-- An optional token, and a step that consumes where it is absent. -/
theorem consumes_acceptThen {kind : TokenKind} {yes no : Parser α} [Uniform yes]
    (inside : kind ≠ .eof) (consumes : Consumes no) :
    Consumes (do if ← accept kind then yes else no) where
  lowers ended run := by
    obtain ⟨found, u, first, rest⟩ := bind_ok run
    have reaches := reaches_ok first
    cases found with
    | true =>
      have after := (reaches_ok (show yes u = _ from rest)).remaining_le
      exact Nat.lt_of_le_of_lt after (accept_lowers ended inside first)
    | false =>
      have less := consumes.lowers (by rwa [reaches.ending]) (show no u = _ from rest)
      exact Nat.lt_of_lt_of_le less reaches.remaining_le

/-! ## Names and types -/

instance : Consumes segments := (consumes_expect (by decide)).bind_left.bind_left

instance : Consumes dottedName := Consumes.bind_left inferInstance

instance (inner : Parser TypeRef) [Uniform inner] : Consumes (typePhrase inner) := by
  have named : Consumes dottedName := inferInstance
  exact @consumes_bind _ _ _ _ _ fun start => consumes_acceptThen (by decide) named.bind_left

/-- A nested phrase consumes if it does so over any inner phrase. -/
theorem Consumes.nested {stuck : Parser α} {phrase : Parser α → Parser α} [Uniform stuck]
    (uniform : ∀ inner, Uniform inner → Uniform (phrase inner))
    (consumes : ∀ inner, Uniform inner → Consumes (phrase inner)) : Consumes (nested stuck phrase) where
  lowers {s t a} ended run := by
    rw [nested_apply] at run
    exact (consumes _ (Uniform.limited_nested stuck phrase uniform s.remaining)).lowers ended run

instance : Consumes typeRef := .nested (fun _ _ => inferInstance) fun _ _ => inferInstance

instance : Consumes parameter :=
  @consumes_bind _ _ _ _ _ fun _ => @consumes_bind _ _ _ _ _ fun _ => Consumes.bind_left inferInstance

instance : Consumes attributeUse := @consumes_bind _ _ _ _ _ fun _ => Consumes.bind_left inferInstance

/-! ## Items of lists -/

set_option synthInstance.maxSize 100000

instance : Consumes enumMember :=
  @consumes_bind _ _ _ _ _ fun _ => @consumes_bind _ _ _ _ _ fun _ =>
    consumes_expectThen (by decide)

instance : Consumes structField :=
  @consumes_bind _ _ _ _ _ fun _ => @consumes_bind _ _ _ _ _ fun _ =>
    consumes_expectThen (by decide)

instance : Consumes interfaceMember := by
  refine @consumes_bind _ _ _ _ _ fun start => @consumes_bind _ _ _ _ _ fun attributes =>
    @consumes_bind _ _ _ _ _ fun event => ?_
  split
  · exact @consumes_bind _ _ _ _ _ fun type => consumes_expectThen (by decide)
  · exact @consumes_bind _ _ _ _ _ fun type => consumes_expectThen (by decide)

instance (start : Token) (attributes : List Attribute) : Consumes (enumDecl start attributes) :=
  consumes_discardExpectThen (by decide)

instance (start : Token) (attributes : List Attribute) : Consumes (structDecl start attributes) :=
  consumes_discardExpectThen (by decide)

instance (start : Token) (attributes : List Attribute) :
    Consumes (delegateDecl start attributes) :=
  consumes_discardExpectThen (by decide)

instance (start : Token) (attributes : List Attribute) :
    Consumes (interfaceDecl start attributes) :=
  consumes_discardExpectThen (by decide)

instance (inner : Parser Declaration) [Uniform inner] (start : Token)
    (attributes : List Attribute) : Consumes (namespacePhrase inner start attributes) :=
  consumes_discardExpectThen (by decide)

instance (inner : Parser Declaration) [Uniform inner] (start : Token)
    (attributes : List Attribute) : Consumes (declarationBody inner start attributes) := by
  refine @consumes_bind _ _ _ _ _ fun t => ?_
  split <;> infer_instance

instance (inner : Parser Declaration) [Uniform inner] : Consumes (declarationPhrase inner) := by
  unfold declarationPhrase; infer_instance

instance : Consumes declaration := .nested (fun _ _ => inferInstance) fun _ _ => inferInstance

instance (n : Nat) (stuck p : Parser α) [hs : Consumes stuck] [hp : Consumes p] :
    Consumes (limited n stuck p) where
  lowers {s t a} ended run := by
    unfold limited at run
    split at run
    · exact hp.lowers ended run
    · exact hs.lowers ended run

instance : Consumes importDirective := consumes_expectThen (by decide)

instance : Consumes topLevel := by
  refine @consumes_bind _ _ _ _ _ fun start => ?_
  split
  · exact Consumes.bind_left inferInstance
  · refine @consumes_bind _ _ _ _ _ fun attributes => @consumes_bind _ _ _ _ _ fun found => ?_
    split
    · exact Consumes.bind_left (p := namespacePhrase declaration start attributes) inferInstance
    · infer_instance

/-! ## Loops -/

/-- An item of an eager list costs something, whether it fails or not. -/
theorem recovering_lowers {resume : List TokenKind} {item : Parser α} [Uniform item] [Consumes item]
    {o : Option α} (ended : s.ending.kind = .eof) (more : 0 < s.remaining)
    (h : recovering resume true item s = .ok o t) : t.remaining < s.remaining := by
  rw [recovering_apply] at h
  cases hi : item s with
  | ok a u =>
    rw [hi] at h
    cases h
    exact Consumes.lowers ended hi
  | error d u =>
    rw [hi] at h
    cases h
    -- The item failed: either something has been consumed by now, or the eager list drops a token.
    have failed : s.Reaches (u.reported d) := (reaches_error hi).tail (.report u d)
    have skipped := failed.trans (reaches_skipped (syncLength resume 0 (u.reported d).tokens) _)
    have consumed := Reaches.consumed skipped
    unfold resumed
    simp only
    split
    · have := remaining_advanced ((u.reported d).skipped (syncLength resume 0 (u.reported d).tokens))
      have := Reaches.remaining_le skipped
      omega
    · next stays =>
      simp only [true_and, Classical.not_and_iff_not_or_not, Classical.not_not] at stays
      -- It drops none if it has moved already or if nothing is left to drop.
      obtain moved | ended := stays
      · have := Reaches.remaining_le skipped
        omega
      · rw [atEnd_eq, List.isEmpty_iff] at ended
        rw [remaining_eq, ended]
        exact more

/-- A loop whose rounds all consume something ends where it does not go on. -/
theorem iterate_ends {continues : TokenKind → Bool} {round : β → Parser β} [∀ b, Uniform (round b)]
    (lowers : ∀ {s t : ParserState} {b b' : β}, s.ending.kind = .eof →
      continues s.current.kind = true → round b s = .ok b' t → t.remaining < s.remaining)
    {b b' : β} (ended : s.ending.kind = .eof) (h : iterate continues round b s = .ok b' t) :
    ∃ u, s.Reaches u ∧ continues u.current.kind = false ∧ t = u.looked := by
  suffices all : s.ending.kind = .eof → ∀ b' t, iterate continues round b s = .ok b' t →
      ∃ u, s.Reaches u ∧ continues u.current.kind = false ∧ t = u.looked from all ended b' t h
  apply iterate_induction (motive := fun _ s r => s.ending.kind = .eof → ∀ b' t, r = .ok b' t →
    ∃ u, s.Reaches u ∧ continues u.current.kind = false ∧ t = u.looked)
  case ended =>
    intro b s ends _ b' t eq
    cases eq
    exact ⟨s, .refl, by simpa using ends, rfl⟩
  case failed =>
    intro b s d u _ _ _ b' t eq
    cases eq
  case last =>
    -- Every round consumes something, so none is the last one for having consumed nothing.
    intro b s b₁ u more run stuck ended
    have less := lowers (by rwa [ending_looked]) (by rwa [s.current_looked]) run
    rw [remaining_looked] at less
    exact absurd less stuck
  case step =>
    intro b s b₁ u more run _ ih ended b' t eq
    have reaches : s.Reaches u := .head (.look s) (reaches_ok run)
    obtain ⟨v, there, ends, eq⟩ := ih (by rwa [reaches.ending]) b' t eq
    exact ⟨v, reaches.trans there, ends, eq⟩

end Parser

end IdlFront
