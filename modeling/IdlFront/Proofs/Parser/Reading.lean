import IdlFront.Proofs.Parser.Motion

/-! # Reading without complaint

* `Parser.Yields` — from a plain state a parser consumes some tokens, reports nothing and gives a
  value. The `of_` lemmas take such a run apart along the parser.
* `nextKind` — the kind of token that a parser sees next.
-/

namespace IdlFront

/-- The kind of the first of some tokens, which are all that is left before the end of input. -/
def nextKind (ts : List Token) : TokenKind := (ts.head?.map Token.kind).getD .eof

@[simp] theorem nextKind_nil : nextKind [] = .eof := rfl

@[simp] theorem nextKind_cons (t : Token) (ts : List Token) : nextKind (t :: ts) = t.kind := rfl

theorem nextKind_append {ts : List Token} (nonempty : ts ≠ []) (rest : List Token) :
    nextKind (ts ++ rest) = nextKind ts := by
  cases ts with
  | nil => exact absurd rfl nonempty
  | cons t ts => rfl

/-- The span from a token to an offset. -/
def Token.spanUntil (start : Token) (stop : Int) : Span :=
  ⟨start.line, start.column, start.offset, max start.offset stop⟩

/-- The span from the first to the last of some tokens. Only nonempty lists of tokens have one. -/
def spanOver : List Token → Span
  | [] => ⟨1, 1, 0, 0⟩
  | first :: rest => first.spanUntil ((first :: rest).getLast (List.cons_ne_nil _ _)).stop

open ParserState

theorem spanUntil_stopAfter {first : Token} {ts : List Token} (head : ts.head? = some first)
    (stop : Int) : first.spanUntil (stopAfter stop ts) = spanOver ts := by
  cases ts with
  | nil => cases head
  | cons t ts =>
    cases head
    rw [spanOver, stopAfter_of_getLast? (List.getLast?_eq_some_getLast _)]

theorem Parser.tokenSpan_eq (t : Token) : tokenSpan t = spanOver [t] := by
  have : max t.offset t.stop = t.stop := by unfold Token.stop; omega
  simp [tokenSpan, spanOver, Token.spanUntil, this]

theorem ParserState.Plain.current_kind {s : ParserState} (plain : s.Plain) :
    s.current.kind = nextKind s.tokens := by
  rw [s.current_eq]
  cases s.tokens with
  | nil => exact plain.endIsEof
  | cons t ts => rfl

/-- Unless the end of input is next, the next token is the first of those to come. -/
theorem ParserState.Plain.tokens_eq_cons {s : ParserState} (plain : s.Plain)
    (more : s.current.kind ≠ .eof) : s.tokens = s.current :: s.tokens.tail := by
  rw [s.current_eq] at more ⊢
  cases h : s.tokens with
  | nil => rw [h] at more; exact absurd plain.endIsEof more
  | cons t ts => rfl

theorem ParserState.Moves.head {s t : ParserState} {ts : List Token} {ds : List Diagnostic}
    (h : s.Moves ts ds t) (nonempty : ts ≠ []) : ts.head? = some s.current := by
  rw [s.current_eq, h.tokens]
  cases ts with
  | nil => exact absurd rfl nonempty
  | cons t ts => rfl

/-- The span from where a run started to where it ended is the span of what it consumed. -/
theorem ParserState.Moves.span {s t : ParserState} {ts : List Token} {ds : List Diagnostic}
    (h : s.Moves ts ds t) (nonempty : ts ≠ []) :
    s.current.spanUntil t.prevStop = spanOver ts := by
  rw [h.prevStop]
  exact spanUntil_stopAfter (h.head nonempty) _

namespace Parser

variable {α β : Type}

/-! ## Runs without a report -/

/-- From a plain state the parser consumes `ts`, reports nothing and gives `a`. -/
structure Yields (p : Parser α) (s : ParserState) (ts : List Token) (a : α) (t : ParserState) :
    Prop where
  result : p s = .ok a t
  moves : s.Moves ts [] t

namespace Yields

variable {p : Parser α} {s t u : ParserState} {ts us : List Token} {a : α} {b : β}

theorem of_bind {f : α → Parser β} [Uniform p] [∀ a, Uniform (f a)]
    (h : Yields (p >>= f) s ts b u) :
    ∃ a t us vs, Yields p s us a t ∧ Yields (f a) t vs b u ∧ ts = us ++ vs := by
  obtain ⟨result, moves⟩ := h
  rw [bind_apply] at result
  cases hp : p s with
  | error d t => rw [hp] at result; cases result
  | ok a t =>
    rw [hp] at result
    obtain ⟨us, ds, first⟩ := p.moves moves.plain
    rw [after_ok hp] at first
    obtain ⟨vs, es, second⟩ := (f a).moves first.plainAfter
    rw [after_ok result] at second
    -- Nothing was reported in all, so nothing was reported on either part.
    obtain ⟨rfl, rfl, rfl⟩ := moves.split_silent first second
    exact ⟨a, t, us, vs, ⟨hp, first⟩, ⟨result, second⟩, rfl⟩

theorem of_map {f : α → β} (h : Yields (f <$> p) s ts b t) :
    ∃ a, Yields p s ts a t ∧ b = f a := by
  have result := h.result
  rw [map_apply] at result
  cases hp : p s with
  | error d u => rw [hp] at result; cases result
  | ok a u => rw [hp] at result; cases result; exact ⟨a, ⟨hp, h.moves⟩, rfl⟩

theorem of_discard {u : Unit} (h : Yields (discard p) s ts u t) : ∃ a, Yields p s ts a t := by
  have result := h.result
  rw [discard_apply] at result
  cases hp : p s with
  | error d u => rw [hp] at result; cases result
  | ok a u => rw [hp] at result; cases result; exact ⟨a, hp, h.moves⟩

theorem of_pure {a' : α} (h : Yields (pure a) s ts a' t) : ts = [] ∧ a' = a := by
  cases h.result
  exact ⟨(h.moves.unique (.refl h.moves.plain)).1, rfl⟩

theorem of_thenPure {f : α → β} (h : Yields (do return f (← p)) s ts b t) :
    ∃ a, Yields p s ts a t ∧ b = f a := by
  have result := h.result
  rw [bind_apply] at result
  cases hp : p s with
  | error d u => rw [hp] at result; cases result
  | ok a u => rw [hp] at result; cases result; exact ⟨a, ⟨hp, h.moves⟩, rfl⟩

theorem of_current {a : Token} (h : Yields current s ts a t) : ts = [] ∧ a = s.current := by
  cases h.result
  exact ⟨(h.moves.unique h.moves.plain.moves_looked).1, rfl⟩

/-- A step that starts with a look at the next token. -/
theorem of_currentThen {f : Token → Parser β} (h : Yields (current >>= f) s ts b t) :
    Yields (f s.current) s.looked ts b t := by
  refine ⟨by rw [← h.result]; rfl, h.moves.plain.looked, h.moves.plainAfter, ?_, ?_, ?_, ?_⟩
  · rw [tokens_looked, h.moves.tokens]
  · rw [ending_looked, h.moves.ending]
  · exact h.moves.prevStop
  · rw [h.moves.plain.log_looked, h.moves.log]

theorem of_advance {a : Token} (h : Yields advance s ts a t) (more : s.current.kind ≠ .eof) :
    ts = [a] ∧ a = s.current := by
  cases h.result
  refine ⟨?_, rfl⟩
  rw [(h.moves.unique h.moves.plain.moves_advanced).1, h.moves.plain.tokens_eq_cons more]
  rfl

theorem not_refuse {found : Token} {problem : Problem} :
    ¬ Yields (refuse found problem : Parser α) s ts a t := fun h => by cases h.result

theorem not_unexpected {kinds : List TokenKind} :
    ¬ Yields (unexpected kinds : Parser α) s ts a t := fun h => by
  obtain ⟨found, _, _, _, -, run, -⟩ := h.of_bind
  exact not_refuse run

theorem not_report {found : Token} {problem : Problem} {u : Unit} :
    ¬ Yields (report found problem) s ts u t := fun h => by
  cases h.result
  obtain ⟨-, silent⟩ := h.moves.unique (h.moves.plain.moves_reported _)
  cases silent

/-- After a look the next token is the same. -/
theorem current_after {found : Token} (h : Yields current s ts found t) : t.current = found := by
  cases h.result
  exact s.current_looked

theorem of_expect {kind : TokenKind} {found : Token} (h : Yields (expect kind) s ts found t)
    (more : kind ≠ .eof) : ts = [found] ∧ found.kind = kind := by
  obtain ⟨next, s', us, vs, hnext, run, rfl⟩ := h.of_bind
  obtain ⟨rfl, -⟩ := hnext.of_current
  have same := hnext.current_after
  split at run
  · next eq =>
    subst same
    obtain ⟨rfl, rfl⟩ := run.of_advance (by rw [eq]; exact more)
    exact ⟨rfl, eq⟩
  · exact absurd run not_unexpected

theorem of_expectOrReport {kind : TokenKind} {u : Unit} (h : Yields (expectOrReport kind) s ts u t)
    (more : kind ≠ .eof) : ∃ found, ts = [found] ∧ found.kind = kind := by
  obtain ⟨next, s', us, vs, hnext, run, rfl⟩ := h.of_bind
  obtain ⟨rfl, -⟩ := hnext.of_current
  have same := hnext.current_after
  split at run
  · next eq =>
    subst same
    obtain ⟨found, run⟩ := run.of_discard
    obtain ⟨rfl, rfl⟩ := run.of_advance (by rw [eq]; exact more)
    exact ⟨_, rfl, eq⟩
  · exact absurd run not_report

section Then

variable {kind : TokenKind} {q : Parser β} [Uniform q]

theorem of_expectThen {f : Token → Parser β} [∀ found, Uniform (f found)]
    (h : Yields (expect kind >>= f) s ts b t) (more : kind ≠ .eof) :
    ∃ found s' us, found.kind = kind ∧ ts = found :: us ∧ Yields (f found) s' us b t := by
  obtain ⟨found, s', us, vs, hfound, run, rfl⟩ := h.of_bind
  obtain ⟨rfl, eq⟩ := hfound.of_expect more
  exact ⟨found, s', vs, eq, rfl, run⟩

theorem of_discardExpectThen (h : Yields (do discard (expect kind); q) s ts b t)
    (more : kind ≠ .eof) :
    ∃ found s' us, found.kind = kind ∧ ts = found :: us ∧ Yields q s' us b t := by
  obtain ⟨_, s', us, vs, hfound, run, rfl⟩ := h.of_bind
  obtain ⟨found, hfound⟩ := hfound.of_discard
  obtain ⟨rfl, eq⟩ := hfound.of_expect more
  exact ⟨found, s', vs, eq, rfl, run⟩

theorem of_expectOrReportThen (h : Yields (do expectOrReport kind; q) s ts b t)
    (more : kind ≠ .eof) :
    ∃ found s' us, found.kind = kind ∧ ts = found :: us ∧ Yields q s' us b t := by
  obtain ⟨_, s', us, vs, hfound, run, rfl⟩ := h.of_bind
  obtain ⟨found, rfl, eq⟩ := hfound.of_expectOrReport more
  exact ⟨found, s', vs, eq, rfl, run⟩

end Then

theorem of_check {kinds : List TokenKind} {b : Bool} (h : Yields (check kinds) s ts b t) :
    ts = [] ∧ b = kinds.contains (nextKind s.tokens) ∧ t.tokens = s.tokens := by
  obtain ⟨next, s', us, vs, hnext, run, rfl⟩ := h.of_bind
  obtain ⟨rfl, rfl⟩ := hnext.of_current
  have tokens := h.moves.tokens
  obtain ⟨rfl, rfl⟩ := run.of_pure
  exact ⟨rfl, by rw [h.moves.plain.current_kind], tokens.symm⟩

theorem of_accept {kind : TokenKind} {b : Bool} (h : Yields (accept kind) s ts b t)
    (more : kind ≠ .eof) :
    (b = true ∧ ∃ found, ts = [found] ∧ found.kind = kind) ∨
      (b = false ∧ ts = [] ∧ nextKind t.tokens ≠ kind) := by
  obtain ⟨found, s', us, vs, hfound, run, rfl⟩ := h.of_bind
  obtain ⟨rfl, hcheck, tokens⟩ := hfound.of_check
  cases found with
  | true =>
    rw [if_pos rfl] at run
    obtain ⟨_, t', us, vs, hadv, done, rfl⟩ := run.of_bind
    obtain ⟨rfl, rfl⟩ := done.of_pure
    obtain ⟨next, hadv⟩ := hadv.of_discard
    -- The token that was looked at is the one that is consumed.
    have eq : s'.current.kind = kind := by
      rw [hadv.moves.plain.current_kind, tokens]
      simpa using hcheck.symm
    obtain ⟨rfl, rfl⟩ := hadv.of_advance (by rw [eq]; exact more)
    exact .inl ⟨rfl, _, rfl, eq⟩
  | false =>
    rw [if_neg Bool.false_ne_true] at run
    have same := run.moves.tokens
    obtain ⟨rfl, rfl⟩ := run.of_pure
    refine .inr ⟨rfl, rfl, ?_⟩
    rw [List.nil_append] at same
    rw [← same, tokens]
    simpa using hcheck

/-- A step that first consumes a token of a kind if there is one. -/
theorem of_discardAcceptThen {kind : TokenKind} {q : Parser β} [Uniform q]
    (h : Yields (do discard (accept kind); q) s ts b t) (more : kind ≠ .eof) :
    (∃ found s' us, found.kind = kind ∧ ts = found :: us ∧ Yields q s' us b t) ∨
      (∃ s', Yields q s' ts b t) := by
  obtain ⟨_, s', us, vs, hfound, run, rfl⟩ := h.of_bind
  obtain ⟨_, hfound⟩ := hfound.of_discard
  obtain ⟨-, found, rfl, eq⟩ | ⟨-, rfl, -⟩ := hfound.of_accept more
  · exact .inl ⟨found, s', vs, eq, rfl, run⟩
  · exact .inr ⟨s', run⟩

/-- A choice by whether a token of a kind is next, which is consumed. -/
theorem of_acceptThen {kind : TokenKind} {yes no : Parser α} [Uniform yes] [Uniform no]
    (h : Yields (do if ← accept kind then yes else no) s ts a t) (more : kind ≠ .eof) :
    (∃ found s' us, found.kind = kind ∧ ts = found :: us ∧ Yields yes s' us a t) ∨
      (∃ s', nextKind s'.tokens ≠ kind ∧ Yields no s' ts a t) := by
  obtain ⟨found, s', us, vs, hfound, run, rfl⟩ := h.of_bind
  obtain ⟨rfl, next, rfl, eq⟩ | ⟨rfl, rfl, ne⟩ := hfound.of_accept more
  · exact .inl ⟨next, s', vs, eq, rfl, run⟩
  · exact .inr ⟨s', ne, run⟩

/-- A choice by whether a token of a kind is next, which is not consumed. -/
theorem of_checkThen {kind : TokenKind} {yes no : Parser α} [Uniform yes] [Uniform no]
    (h : Yields (do if ← check [kind] then yes else no) s ts a t) :
    (∃ s', nextKind s'.tokens = kind ∧ Yields yes s' ts a t) ∨
      (∃ s', nextKind s'.tokens ≠ kind ∧ Yields no s' ts a t) := by
  obtain ⟨found, s', us, vs, hfound, run, rfl⟩ := h.of_bind
  obtain ⟨rfl, hcheck, tokens⟩ := hfound.of_check
  rw [← tokens] at hcheck
  cases found with
  | true => exact .inl ⟨s', by simpa using hcheck.symm, run⟩
  | false => exact .inr ⟨s', by simpa using hcheck, run⟩

/-- The last step of a node: its span, and the node. -/
theorem of_spanFrom {start : Token} {node : Span → α}
    (h : Yields (do return node (← spanFrom start)) s ts a t) :
    ts = [] ∧ a = node (start.spanUntil t.prevStop) := by
  obtain ⟨span, s', us, vs, hspan, run, rfl⟩ := h.of_bind
  cases hspan.result
  obtain ⟨rfl, -⟩ := hspan.moves.unique (.refl hspan.moves.plain)
  have stop := run.moves.prevStop
  obtain ⟨rfl, rfl⟩ := run.of_pure
  exact ⟨rfl, by rw [stop]; rfl⟩

/-- A loop ends at once, or after a round, or goes on after a round that left fewer tokens. -/
theorem of_iterate_round {continues : TokenKind → Bool} {round : β → Parser β}
    [∀ b, Uniform (round b)] {b' : β} (h : Yields (iterate continues round b) s ts b' t) :
    (continues (nextKind s.tokens) = false ∧ ts = [] ∧ b' = b ∧ t.tokens = s.tokens) ∨
      (continues (nextKind s.tokens) = true ∧ Yields (round b) s.looked ts b' t ∧ ts = []) ∨
      (continues (nextKind s.tokens) = true ∧ ∃ b₁ s' us vs, Yields (round b) s.looked us b₁ s' ∧
        s'.remaining < s.remaining ∧ Yields (iterate continues round b₁) s' vs b' t ∧
        ts = us ++ vs) := by
  obtain ⟨result, moves⟩ := h
  have plain := moves.plain
  rw [← plain.current_kind]
  by_cases more : continues s.current.kind = true
  · cases run : round b s.looked with
    | error d s' =>
      rw [iterate_error more run] at result
      cases result
    | ok b₁ s' =>
      obtain ⟨us, ds, first⟩ := (round b).moves plain.looked
      rw [after_ok run] at first
      by_cases less : s'.remaining < s.remaining
      · rw [iterate_step more run less] at result
        obtain ⟨vs, es, second⟩ := (iterate continues round b₁).moves first.plainAfter
        rw [after_ok result] at second
        -- The whole loop reports nothing, so neither the round nor the rest does.
        obtain ⟨rfl, rfl, rfl⟩ := moves.split_silent (plain.moves_looked.trans first) second
        exact .inr (.inr ⟨more, b₁, s', us, vs, ⟨run, first⟩, less, ⟨result, second⟩, rfl⟩)
      · rw [iterate_last more run less] at result
        cases result
        obtain ⟨rfl, rfl⟩ := moves.unique (plain.moves_looked.trans first)
        refine .inr (.inl ⟨more, ⟨run, first⟩, ?_⟩)
        have := first.remaining
        rw [remaining_looked] at this
        exact List.length_eq_zero_iff.1 (by omega)
  · rw [iterate_end more] at result
    cases result
    exact .inl ⟨by simpa using more, (moves.unique plain.moves_looked).1, rfl, tokens_looked s⟩

/-- What holds of the tokens consumed so far, the value so far and the tokens to come, and is kept
    by every round of a loop, holds after the loop. -/
theorem of_iterate {continues : TokenKind → Bool} {round : β → Parser β} [∀ b, Uniform (round b)]
    {I : List Token → β → List Token → Prop}
    (step : ∀ {s t : ParserState} {done us : List Token} {b b' : β},
      continues (nextKind s.tokens) = true → Yields (round b) s us b' t → I done b s.tokens →
      I (done ++ us) b' t.tokens)
    {done : List Token} {b' : β} (h : Yields (iterate continues round b) s ts b' t)
    (start : I done b s.tokens) : I (done ++ ts) b' t.tokens := by
  induction hn : s.remaining using Nat.strongRecOn generalizing s ts b done with
  | ind n ih =>
    rw [← tokens_looked s] at start
    obtain ⟨-, rfl, rfl, same⟩ | ⟨more, round, -⟩ | ⟨more, b₁, s', us, vs, round, less, run, rfl⟩ :=
      h.of_iterate_round
    · rw [List.append_nil, same, ← tokens_looked s]
      exact start
    · exact step (by rwa [tokens_looked]) round start
    · rw [← List.append_assoc]
      exact ih _ (by omega) run (step (by rwa [tokens_looked]) round start) rfl

end Yields

end Parser

end IdlFront
