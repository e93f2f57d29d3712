import IdlFront.Proofs.Parser.Accepting

/-! # Recovering items

* `ParserState.resumed` — where a list goes on after one of its items has failed.
* `recovering_apply` — an item of a list gives its value, or leaves a report and skips.
-/

namespace IdlFront

namespace ParserState

/-- The state in which a list goes on after a failure whose item started when `consumed` tokens were
    consumed. -/
def resumed (resume : List TokenKind) (eager : Bool) (consumed : Nat) (s : ParserState) :
    ParserState :=
  let t := s.skipped (syncLength resume 0 s.tokens)
  if eager ∧ t.stream.consumed = consumed ∧ ¬ t.stream.atEnd then t.advanced else t

theorem reaches_skipped (n : Nat) (s : ParserState) : s.Reaches (s.skipped n) := by
  induction n generalizing s with
  | zero => exact .refl
  | succ n ih => exact .head (.advance s) (ih s.advanced)

theorem tokens_skipped (n : Nat) (s : ParserState) : (s.skipped n).tokens = s.tokens.drop n := by
  induction n generalizing s with
  | zero => rfl
  | succ n ih => rw [skipped, ih, tokens_advanced, ← List.drop_one, List.drop_drop, Nat.add_comm]

theorem reaches_resumed (resume : List TokenKind) (eager : Bool) (consumed : Nat)
    (s : ParserState) : s.Reaches (s.resumed resume eager consumed) := by
  unfold resumed
  simp only
  split
  · exact (reaches_skipped _ s).tail (.advance _)
  · exact reaches_skipped _ s

end ParserState

namespace Parser

open ParserState

variable {α β : Type}

theorem recovering_apply (resume : List TokenKind) (eager : Bool) (item : Parser α)
    (s : ParserState) :
    recovering resume eager item s = match item s with
      | .ok a t => .ok (some a) t
      | .error d t => .ok none ((t.reported d).resumed resume eager s.stream.consumed) := by
  unfold recovering
  cases item s with
  | ok a t => rfl
  | error d t =>
    cases eager with
    | false => simp [bind_apply, synchronize, pure_apply, resumed, tokens]
    | true => simp [bind_apply, map_apply, synchronize, progressFrom, resumed, tokens]

variable {resume : List TokenKind} {eager : Bool} {item : Parser α}

theorem mem_of_syncLength_eq_zero {t : Token} {ts : List Token}
    (h : syncLength resume 0 (t :: ts) = 0) : t.kind ∈ resume := by
  rw [syncLength] at h
  split at h
  · cases h
  split at h
  · next stop => exact stop.2
  · cases h

/-- A list that reports nothing has met no failure. -/
theorem Yields.of_recovering [Uniform item] {s t : ParserState} {ts : List Token} {o : Option α}
    (h : Yields (recovering resume eager item) s ts o t) :
    ∃ a, o = some a ∧ Yields item s ts a t := by
  have result := h.result
  rw [recovering_apply] at result
  cases hi : item s with
  | ok a u =>
    rw [hi] at result
    cases result
    exact ⟨a, rfl, hi, h.moves⟩
  | error d u =>
    rw [hi] at result
    cases result
    -- A failure is reported, and no later move takes the report back.
    obtain ⟨us, ds, failed⟩ := item.moves h.moves.plain
    rw [after_error hi] at failed
    have reported := failed.trans (failed.plainAfter.moves_reported d)
    obtain ⟨vs, es, skipped⟩ := reported.plainAfter.moves_of_reaches
      (reaches_resumed resume eager s.stream.consumed _)
    obtain ⟨-, silent, -⟩ := h.moves.split_silent reported skipped
    simp at silent

section Success

variable {stop : Int} {ts rest : List Token} {a : α}

theorem reports_recovering {ds : List Diagnostic} (h : Reports item stop ts ds a rest) :
    Reports (recovering resume eager item) stop ts ds (some a) rest := by
  intro s plain hstop tokens
  obtain ⟨t, run, moves⟩ := h s plain hstop tokens
  exact ⟨t, by rw [recovering_apply, run], moves⟩

theorem accepts_recovering (h : Accepts item stop ts a rest) :
    Accepts (recovering resume eager item) stop ts (some a) rest :=
  reports_nil_iff.1 (reports_recovering h.reports)

end Success

end Parser

end IdlFront
