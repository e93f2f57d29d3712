import Mathlib.Logic.Relation
import IdlFront.Proofs.Parser.Uniform

/-! # How parsers move

Whatever a parser does, its state only looks, advances and takes reports.

* `ParserState.Step`, `ParserState.Reaches` — one such step, and any number of them.
* `Parser.reaches` — every uniform parser ends in a state it reaches by such steps.
* `ParserState.Plain` — a state whose source has no faults of its own to hand on.
* `ParserState.Moves` — from a plain state some tokens are consumed and some diagnostics reported;
  this is all that reaching can mean.
-/

namespace IdlFront

namespace ParserState

/-! ## Steps -/

/-- One primitive move. -/
inductive Step : ParserState → ParserState → Prop where
  | look (s : ParserState) : Step s s.looked
  | advance (s : ParserState) : Step s s.advanced
  | report (s : ParserState) (d : Diagnostic) : Step s (s.reported d)

/-- Any number of moves. -/
abbrev Reaches : ParserState → ParserState → Prop := Relation.ReflTransGen Step

end ParserState

namespace Parser

variable {α β : Type}

/-- The state in which a parser ends, whether it gives up or not. -/
def after (p : Parser α) (s : ParserState) : ParserState :=
  match p s with
  | .ok _ t => t
  | .error _ t => t

theorem after_ok {p : Parser α} {s t : ParserState} {a : α} (h : p s = .ok a t) :
    p.after s = t := by
  simp [after, h]

theorem after_error {p : Parser α} {s t : ParserState} {d : Diagnostic} (h : p s = .error d t) :
    p.after s = t := by
  simp [after, h]

theorem after_congr {p q : Parser α} {s t : ParserState} (h : p s = q t) :
    p.after s = q.after t := by
  simp [after, h]

/-- Equality of states that are reached from `s` is a bisimulation. -/
theorem reached_bisimulation (s : ParserState) :
    Bisimulation fun t u => t = u ∧ s.Reaches t where
  tokens h := by rw [h.1]
  ending h := by rw [h.1]
  prevStop h := by rw [h.1]
  consumed h h' := by rw [h.1, h'.1]
  looked h := ⟨by rw [h.1], h.2.tail (.look _)⟩
  advanced h := ⟨by rw [h.1], h.2.tail (.advance _)⟩
  reported d h := ⟨by rw [h.1], h.2.tail (.report _ d)⟩

/-- A uniform parser ends in a state that is reached from the one it starts in. -/
theorem reaches (p : Parser α) [hp : Uniform p] (s : ParserState) : s.Reaches (p.after s) := by
  obtain ⟨a, t, u, ht, hu, -, h⟩ | ⟨d, t, u, ht, hu, -, h⟩ :=
    (hp.alike (reached_bisimulation s) ⟨rfl, .refl⟩).split
  · rwa [after_ok ht]
  · rwa [after_error ht]

end Parser

namespace ParserState

/-! ## Plain states -/

/-- No faults are left to hand on, and the end of input, which no other token looks like, comes
    after all tokens. -/
structure Plain (s : ParserState) : Prop where
  quiet : ∀ a ∈ s.stream.upcoming, a.faults = []
  endQuiet : s.stream.last.faults = []
  endIsEof : s.ending.kind = .eof
  noEof : ∀ t ∈ s.tokens, t.kind ≠ .eof

/-- The offset after the last of some tokens, or what it was before them. -/
def stopAfter (stop : Int) (ts : List Token) : Int := ts.foldl (fun _ t => t.stop) stop

@[simp] theorem stopAfter_nil (stop : Int) : stopAfter stop [] = stop := rfl

@[simp] theorem stopAfter_cons (stop : Int) (t : Token) (ts : List Token) :
    stopAfter stop (t :: ts) = stopAfter t.stop ts := rfl

@[simp] theorem stopAfter_append (stop : Int) (ts us : List Token) :
    stopAfter stop (ts ++ us) = stopAfter (stopAfter stop ts) us := by
  simp [stopAfter]

theorem stopAfter_of_getLast? {stop : Int} {ts : List Token} {t : Token}
    (h : ts.getLast? = some t) : stopAfter stop ts = t.stop := by
  obtain ⟨us, rfl⟩ := List.getLast?_eq_some_iff.1 h
  simp

/-- From a plain state the tokens `ts` are consumed and the diagnostics `ds` reported. -/
structure Moves (s : ParserState) (ts : List Token) (ds : List Diagnostic) (t : ParserState) :
    Prop where
  plain : s.Plain
  plainAfter : t.Plain
  tokens : s.tokens = ts ++ t.tokens
  ending : t.ending = s.ending
  prevStop : t.prevStop = stopAfter s.prevStop ts
  log : t.log.toList = s.log.toList ++ ds

namespace Moves

theorem refl {s : ParserState} (plain : s.Plain) : s.Moves [] [] s :=
  ⟨plain, plain, rfl, rfl, rfl, by simp⟩

theorem trans {s t u : ParserState} {ts us : List Token} {ds es : List Diagnostic}
    (h : s.Moves ts ds t) (h' : t.Moves us es u) : s.Moves (ts ++ us) (ds ++ es) u where
  plain := h.plain
  plainAfter := h'.plainAfter
  tokens := by rw [h.tokens, h'.tokens, List.append_assoc]
  ending := by rw [h'.ending, h.ending]
  prevStop := by rw [h'.prevStop, h.prevStop, stopAfter_append]
  log := by rw [h'.log, h.log, List.append_assoc]

/-- Two ways to the same state consume and report the same. -/
theorem unique {s t : ParserState} {ts us : List Token} {ds es : List Diagnostic}
    (h : s.Moves ts ds t) (h' : s.Moves us es t) : ts = us ∧ ds = es :=
  ⟨List.append_cancel_right (h.tokens.symm.trans h'.tokens),
    List.append_cancel_left (h.log.symm.trans h'.log)⟩

/-- The parts of a way on which nothing is reported. -/
theorem split_silent {s t u : ParserState} {ts us vs : List Token} {ds es : List Diagnostic}
    (h : s.Moves ts [] u) (first : s.Moves us ds t) (second : t.Moves vs es u) :
    ts = us ++ vs ∧ ds = [] ∧ es = [] := by
  obtain ⟨tokens, silent⟩ := h.unique (first.trans second)
  exact ⟨tokens, List.append_eq_nil_iff.1 silent.symm⟩

theorem rest {s t : ParserState} {ts rest : List Token} {ds : List Diagnostic}
    (h : s.Moves ts ds t) (tokens : s.tokens = ts ++ rest) : t.tokens = rest :=
  List.append_cancel_left (h.tokens.symm.trans tokens)

theorem remaining {s t : ParserState} {ts : List Token} {ds : List Diagnostic}
    (h : s.Moves ts ds t) : s.remaining = ts.length + t.remaining := by
  rw [s.remaining_eq, t.remaining_eq, h.tokens, List.length_append]

end Moves

/-! ## What a step does to a plain state -/

theorem stream_looked (s : ParserState) : s.looked.stream = s.stream.takeUpTo 0 := rfl

theorem Plain.looked {s : ParserState} (plain : s.Plain) : s.looked.Plain where
  quiet := by
    intro a ha
    simp only [stream_looked, TokenStream.takeUpTo, List.mem_append, List.mem_map] at ha
    obtain ⟨b, -, rfl⟩ | ha := ha
    · rfl
    · exact plain.quiet a (List.mem_of_mem_drop ha)
  endQuiet := by
    simp only [stream_looked, TokenStream.takeUpTo]
    split
    · rfl
    · exact plain.endQuiet
  endIsEof := by rw [ending_looked]; exact plain.endIsEof
  noEof := by rw [tokens_looked]; exact plain.noEof

theorem Plain.log_looked {s : ParserState} (plain : s.Plain) :
    s.looked.log.toList = s.log.toList := by
  have noFaults : s.stream.faultsUpTo 0 = [] := by
    have upcoming : (s.stream.upcoming.take 1).flatMap Arrival.faults = [] :=
      List.flatMap_eq_nil_iff.2 fun a ha => plain.quiet a (List.mem_of_mem_take ha)
    simp only [TokenStream.faultsUpTo, Nat.zero_add, upcoming, plain.endQuiet, ite_self,
      List.append_nil]
  simp [ParserState.looked, noFaults]

theorem Plain.moves_looked {s : ParserState} (plain : s.Plain) : s.Moves [] [] s.looked where
  plain := plain
  plainAfter := plain.looked
  tokens := (tokens_looked s).symm
  ending := ending_looked s
  prevStop := rfl
  log := by rw [plain.log_looked, List.append_nil]

theorem tokens_advanced (s : ParserState) : s.advanced.tokens = s.tokens.tail := by
  unfold tokens advanced TokenStream.tail looked TokenStream.takeUpTo
  cases s.stream.upcoming <;> simp

theorem ending_advanced (s : ParserState) : s.advanced.ending = s.ending := by
  rw [← ending_looked s]
  unfold ending advanced TokenStream.tail
  cases s.looked.stream.upcoming <;> rfl

theorem prevStop_advanced (s : ParserState) :
    s.advanced.prevStop = stopAfter s.prevStop (s.tokens.take 1) := by
  unfold advanced current TokenStream.current TokenStream.atEnd tokens
  cases s.stream.upcoming <;> rfl

theorem Plain.moves_advanced {s : ParserState} (plain : s.Plain) :
    s.Moves (s.tokens.take 1) [] s.advanced where
  plain := plain
  plainAfter :=
    -- No fault is left behind in what has been looked at, so none is met on the way.
    { quiet := by
        intro a ha
        refine plain.looked.quiet a ?_
        simp only [advanced, TokenStream.tail] at ha
        split at ha
        · next h => exact h ▸ List.mem_cons_of_mem _ ha
        · exact ha
      endQuiet := by
        rw [← plain.looked.endQuiet]
        simp only [advanced, TokenStream.tail]
        split <;> rfl
      endIsEof := by rw [ending_advanced]; exact plain.endIsEof
      noEof := by
        rw [tokens_advanced]
        exact fun t ht => plain.noEof t (List.mem_of_mem_tail ht) }
  tokens := by rw [tokens_advanced, ← List.drop_one, List.take_append_drop]
  ending := ending_advanced s
  prevStop := prevStop_advanced s
  log := by
    rw [List.append_nil, ← plain.log_looked]
    rfl

theorem Plain.moves_reported {s : ParserState} (plain : s.Plain) (d : Diagnostic) :
    s.Moves [] [d] (s.reported d) where
  plain := plain
  plainAfter := ⟨plain.quiet, plain.endQuiet, plain.endIsEof, plain.noEof⟩
  tokens := rfl
  ending := rfl
  prevStop := rfl
  log := by simp [reported]

/-- To reach a state from a plain one is to consume some tokens and report some diagnostics. -/
theorem Plain.moves_of_reaches {s t : ParserState} (plain : s.Plain) (h : s.Reaches t) :
    ∃ ts ds, s.Moves ts ds t := by
  induction h with
  | refl => exact ⟨[], [], .refl plain⟩
  | tail _ step ih =>
    obtain ⟨ts, ds, moves⟩ := ih
    cases step with
    | look => exact ⟨_, _, moves.trans moves.plainAfter.moves_looked⟩
    | advance => exact ⟨_, _, moves.trans moves.plainAfter.moves_advanced⟩
    | report d => exact ⟨_, _, moves.trans (moves.plainAfter.moves_reported d)⟩

end ParserState

/-- A uniform parser consumes some tokens and reports some diagnostics. -/
theorem Parser.moves {α : Type} (p : Parser α) [Uniform p] {s : ParserState} (plain : s.Plain) :
    ∃ ts ds, s.Moves ts ds (p.after s) :=
  plain.moves_of_reaches (p.reaches s)

end IdlFront
