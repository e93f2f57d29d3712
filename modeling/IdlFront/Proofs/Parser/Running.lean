import IdlFront.Parser

/-! # How parsers run

Equations for steps that are put together, and induction along the rounds of a loop.

* `ParserState.tokens` — the tokens to come, without the faults met on the way to them.
* `Parser.bind_apply` and the like — one step after another, and what becomes of a failure.
* `Parser.iterate_induction` — the rounds of a loop.
* `Parser.limited` — a parser for states with few tokens to come.
-/

namespace IdlFront

/-- The tokens to come, up to the end of input. -/
def ParserState.tokens (s : ParserState) : List Token := s.stream.upcoming.map Arrival.token

/-- The token that stands for the end of input. -/
def ParserState.ending (s : ParserState) : Token := s.stream.last.token

namespace ParserState

theorem current_eq (s : ParserState) : s.current = s.tokens.headD s.ending := by
  unfold current TokenStream.current tokens ending
  cases s.stream.upcoming <;> rfl

theorem remaining_eq (s : ParserState) : s.remaining = s.tokens.length := by
  simp [remaining, TokenStream.remaining, tokens]

theorem atEnd_eq (s : ParserState) : s.stream.atEnd = s.tokens.isEmpty := by
  simp [TokenStream.atEnd, tokens]

theorem tokens_looked (s : ParserState) : s.looked.tokens = s.tokens := by
  unfold tokens looked TokenStream.takeUpTo
  cases s.stream.upcoming <;> simp [TokenStream.hushed]

theorem ending_looked (s : ParserState) : s.looked.ending = s.ending := by
  unfold ending looked TokenStream.takeUpTo
  simp only
  split <;> rfl

theorem remaining_looked (s : ParserState) : s.looked.remaining = s.remaining := by
  rw [remaining_eq, remaining_eq, tokens_looked]

theorem current_looked (s : ParserState) : s.looked.current = s.current := by
  rw [current_eq, current_eq, tokens_looked, ending_looked]

theorem looked_looked (s : ParserState) : s.looked.looked = s.looked := by
  unfold looked TokenStream.takeUpTo TokenStream.faultsUpTo TokenStream.reachesEnd
  cases s.stream.upcoming <;> simp [TokenStream.hushed, DiagnosticLog.recordAll]

/-- A report does not touch the source. -/
theorem looked_reported {s : ParserState} (still : s.looked = s) (d : Diagnostic) :
    (s.reported d).looked = s.reported d := by
  have heard : s.stream.faultsUpTo 0 = [] := by
    have log := congrArg (fun s => s.log.toList) still
    simpa [looked] using log
  have stream : s.stream.takeUpTo 0 = s.stream := congrArg ParserState.stream still
  simp [looked, reported, heard, stream, DiagnosticLog.recordAll]

end ParserState

namespace Parser

variable {α β : Type}

/-! ## How steps are put together -/

theorem bind_apply (p : Parser α) (f : α → Parser β) (s : ParserState) :
    (p >>= f) s = match p s with
      | .ok a s' => f a s'
      | .error d s' => .error d s' := by
  show EStateM.bind p f s = _
  unfold EStateM.bind
  cases p s <;> rfl

theorem map_apply (f : α → β) (p : Parser α) (s : ParserState) :
    (f <$> p) s = match p s with
      | .ok a s' => .ok (f a) s'
      | .error d s' => .error d s' := by
  show EStateM.map f p s = _
  unfold EStateM.map
  cases p s <;> rfl

theorem discard_apply (p : Parser α) (s : ParserState) :
    (discard p) s = match p s with
      | .ok _ s' => .ok () s'
      | .error d s' => .error d s' := by
  show EStateM.map (fun _ => ()) p s = _
  unfold EStateM.map
  cases p s <;> rfl

theorem pure_apply (a : α) (s : ParserState) : (pure a : Parser α) s = .ok a s := rfl

theorem accept_apply (kind : TokenKind) (s : ParserState) :
    accept kind s = if s.current.kind = kind then .ok true s.looked.advanced
      else .ok false s.looked := by
  unfold accept check
  simp only [bind_apply, current, pure_apply]
  by_cases eq : s.current.kind = kind
  · rw [if_pos (by simpa using eq), if_pos eq]
    rfl
  · rw [if_neg (by simpa using eq), if_neg eq]
    rfl

theorem accept_bind (kind : TokenKind) (f : Bool → Parser α) : accept kind >>= f =
    current >>= fun t => if t.kind = kind then do discard advance; f true else f false := by
  funext s
  rw [bind_apply, accept_apply, bind_apply]
  simp only [current]
  by_cases eq : s.current.kind = kind
  · rw [if_pos eq, if_pos eq]
    rfl
  · rw [if_neg eq, if_neg eq]

/-! ## How loops run -/

section Iterate

variable {continues : TokenKind → Bool} {round : β → Parser β} {b b' : β} {s t : ParserState}

theorem iterate_end (ends : ¬ continues s.current.kind = true) :
    iterate continues round b s = .ok b s.looked := by
  rw [iterate, if_neg ends]

theorem iterate_error {d : Diagnostic} (more : continues s.current.kind = true)
    (run : round b s.looked = .error d t) : iterate continues round b s = .error d t := by
  rw [iterate, if_pos more, run]

theorem iterate_step (more : continues s.current.kind = true) (run : round b s.looked = .ok b' t)
    (less : t.remaining < s.remaining) :
    iterate continues round b s = iterate continues round b' t := by
  rw [iterate, if_pos more, run]
  exact if_pos less

/-- A round that leaves as many tokens as there were is the last one. -/
theorem iterate_last (more : continues s.current.kind = true) (run : round b s.looked = .ok b' t)
    (stuck : ¬ t.remaining < s.remaining) : iterate continues round b s = .ok b' t := by
  rw [iterate, if_pos more, run]
  exact if_neg stuck

/-- Induction along the rounds of a loop. -/
theorem iterate_induction
    {motive : β → ParserState → EStateM.Result Diagnostic ParserState β → Prop}
    (ended : ∀ b s, ¬ continues s.current.kind = true → motive b s (.ok b s.looked))
    (failed : ∀ b s d t, continues s.current.kind = true → round b s.looked = .error d t →
      motive b s (.error d t))
    (last : ∀ b s b' t, continues s.current.kind = true → round b s.looked = .ok b' t →
      ¬ t.remaining < s.remaining → motive b s (.ok b' t))
    (step : ∀ b s b' t, continues s.current.kind = true → round b s.looked = .ok b' t →
      t.remaining < s.remaining → motive b' t (iterate continues round b' t) →
      motive b s (iterate continues round b' t)) (b : β) (s : ParserState) :
    motive b s (iterate continues round b s) := by
  -- On the tokens that are left: a round that consumes none is the last.
  induction hn : s.remaining using Nat.strongRecOn generalizing s b with
  | ind n ih =>
    by_cases more : continues s.current.kind = true
    · cases run : round b s.looked with
      | error d t =>
        rw [iterate_error more run]
        exact failed b s d t more run
      | ok b' t =>
        by_cases less : t.remaining < s.remaining
        · rw [iterate_step more run less]
          exact step b s b' t more run less (ih t.remaining (hn ▸ less) b' t rfl)
        · rw [iterate_last more run less]
          exact last b s b' t more run less
    · rw [iterate_end more]
      exact ended b s more

/-- What holds before a loop, and is kept by every look and every round, holds behind it. -/
theorem iterate_ok {I : β → ParserState → Prop} (looked : ∀ {b s}, I b s → I b s.looked)
    (kept : ∀ {b b' s t}, continues s.current.kind = true → I b s → round b s.looked = .ok b' t →
      I b' t)
    (first : I b s) (run : iterate continues round b s = .ok b' t) : I b' t := by
  suffices all : I b s → ∀ b' t, iterate continues round b s = .ok b' t → I b' t from
    all first b' t run
  apply iterate_induction (motive := fun b s r => I b s → ∀ b' t, r = .ok b' t → I b' t)
  case ended =>
    rintro b s _ first b' t ⟨⟩
    exact looked first
  case failed => rintro b s d t _ _ _ b' u ⟨⟩
  case last =>
    rintro b s b₁ t more round _ first b' u ⟨⟩
    exact kept more first round
  case step => exact fun b s b₁ t more round _ ih first => ih (kept more first round)

end Iterate

/-! ## How phrases nest -/

/-- A parser for states with fewer than `n` tokens to come; another one for all other states. -/
def limited (n : Nat) (stuck p : Parser α) : Parser α := fun s =>
  if s.remaining < n then p s else stuck s

/-- The inner phrase of a nested one is the nested one itself, for fewer tokens. -/
theorem nested_apply (stuck : Parser α) (phrase : Parser α → Parser α) (s : ParserState) :
    nested stuck phrase s = phrase (limited s.remaining stuck (nested stuck phrase)) s := by
  rw [nested]
  rfl

/-- A loop whose later rounds are only for states with fewer than `n` tokens to come. -/
def iterateWithin (continues : TokenKind → Bool) (round : β → Parser β) (b : β) (n : Nat) :
    Parser β := do
  let t ← current
  if continues t.kind then
    let b' ← round b
    limited n (pure b') (iterate continues round b')
  else
    return b

theorem iterate_apply (continues : TokenKind → Bool) (round : β → Parser β) (b : β) (s : ParserState) :
    iterate continues round b s = iterateWithin continues round b s.remaining s := by
  rw [iterate, iterateWithin, bind_apply]
  simp only [current]
  by_cases more : continues s.current.kind = true
  · rw [if_pos more, if_pos more, bind_apply]
    cases round b s.looked <;> rfl
  · rw [if_neg more, if_neg more]
    rfl

end Parser

end IdlFront
