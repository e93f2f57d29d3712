import IdlFront.Proofs.Parser.Judgement

/-! # What parsers keep

A property of states that looking, consuming and reporting keep is kept by every parser of the
language.

* `Invariant` — what is so of a state, and what is so where a parser has given up.
* `keeps` — the judgement that a parser keeps all invariants of a family.
* `phrasal_keeps`, `reporting_keeps`, `resuming_keeps`, `lenient_keeps` — its rules, from what single
  steps do to a state.
* `settling` — a property that is kept also where a failure is reported at once.
-/

namespace IdlFront.Parser

open IdlFront.ParserState

/-- A property of states, and of failures with the states they leave. -/
structure Invariant where
  state : ParserState → Prop
  failure : Diagnostic → ParserState → Prop

def Invariant.Behind {α : Type} (I : Invariant) : EStateM.Result Diagnostic ParserState α → Prop
  | .ok _ s => I.state s
  | .error d s => I.failure d s

/-- The token that is said to come next does so, and has been looked at. -/
def Sees (ahead : Option Token) (s : ParserState) : Prop :=
  ∀ t ∈ ahead, s.current = t ∧ s.looked = s

theorem sees_none (s : ParserState) : Sees none s := nofun

theorem sees_looked (s : ParserState) : Sees (some s.current) s.looked := by
  rintro _ ⟨⟩
  exact ⟨s.current_looked, s.looked_looked⟩

/-- A parser keeps every invariant of a family. -/
def keeps {ι : Type} (I : ι → Invariant) : Judgement := fun ahead _ p =>
  ∀ i s, (I i).state s → Sees ahead s → (I i).Behind (p s)

section Rules

variable {ι : Type} {I : ι → Invariant}

theorem phrasal_keeps (looked : ∀ {i s}, (I i).state s → (I i).state s.looked)
    (advanced : ∀ {i s}, (I i).state s → Unbraced s.current.kind → (I i).state s.advanced)
    (refused : ∀ {i s problem}, (I i).state s → s.looked = s → problem.Fits s.current →
      (I i).failure (s.current.report problem) s) : Phrasal (keeps I) where
  anywhere h i s kept _ := h i s kept (sees_none s)
  pure _ _ _ kept _ := kept
  -- Behind the first phrase nothing is known about the next token any more.
  bind {_ _ ahead p f} first next i s kept sees := by
    have behind := first i s kept sees
    rw [bind_apply]
    cases run : p s with
    | ok a t =>
      rw [run] at behind
      exact next a i t behind (sees_none t)
    | error d t => rwa [run] at behind
  look h i s kept _ := h s.current i s.looked (looked kept) (sees_looked s)
  lookAgain {_ f t} h i s kept sees := by
    obtain ⟨rfl, -⟩ := sees t rfl
    exact h i s.looked (looked kept) (sees_looked s)
  measured h i s kept sees := h s.remaining i s kept sees
  advance {t} unbraced i s kept sees := by
    obtain ⟨rfl, -⟩ := sees t rfl
    exact advanced kept unbraced
  refuse {_ t problem} fits i s kept sees := by
    obtain ⟨rfl, still⟩ := sees t rfl
    exact refused kept still fits
  spanFrom _ _ _ kept _ := kept

theorem reporting_keeps [Phrasal (keeps I)]
    (reported : ∀ {i s problem}, (I i).state s → s.looked = s → problem.Fits s.current →
      (I i).state (s.reported (s.current.report problem)))
    (repeated : ∀ {i s name}, (I i).state s → s.looked = s → Unbraced s.current.kind →
      (I i).state (s.advanced.reported (s.current.report (.duplicateAccessor name)))) :
    Reporting (keeps I) where
  reportThen {_ t problem p} fits h i s kept sees := by
    obtain ⟨rfl, still⟩ := sees t rfl
    refine h i _ (reported kept still fits) ?_
    rintro _ ⟨⟩
    exact ⟨rfl, looked_reported still _⟩
  repeated {t name} unbraced i s kept sees := by
    obtain ⟨rfl, still⟩ := sees t rfl
    exact repeated kept still unbraced

/-- Skipping consumes tokens, and what settles a failure is the report that it starts with. -/
theorem resuming_keeps [Reporting (keeps I)]
    (advanced : ∀ {i s}, (I i).state s → (I i).state s.advanced)
    (settled : ∀ {i d s}, (I i).failure d s → (I i).state (s.reported d)) : Resuming (keeps I) := by
  have skipped : ∀ {i} n {s}, (I i).state s → (I i).state (s.skipped n) := by
    intro i n
    induction n with
    | zero => exact fun kept => kept
    | succ n ih => exact fun kept => ih (advanced kept)
  refine ⟨fun _ _ kept _ => advanced kept, fun _ _ _ kept _ => skipped _ kept, ?_⟩
  intro _ resume eager item h i s kept _
  have behind := h i s kept (sees_none s)
  unfold recovering
  cases run : item s with
  | ok a t => rwa [run] at behind
  | error d t =>
    rw [run] at behind
    have there := skipped (syncLength resume 0 (t.reported d).tokens) (settled behind)
    cases eager with
    | false => exact there
    | true =>
      show (I i).state (if _ then _ else _)
      split
      · exact advanced there
      · exact there

theorem lenient_keeps [Phrasal (keeps I)]
    (refused : ∀ {i s kinds}, (I i).state s → s.looked = s →
      (I i).failure (s.current.report (.expected kinds s.current)) s) : Lenient (keeps I) where
  unexpected _ := Phrasal.look fun t i s kept sees => by
    obtain ⟨rfl, still⟩ := sees t rfl
    exact refused kept still

end Rules

/-! ## Failures that are reported -/

/-- The state after a result, with the diagnostic of a failure reported. -/
def settled {α : Type} : EStateM.Result Diagnostic ParserState α → ParserState
  | .ok _ s => s
  | .error d s => s.reported d

/-- A property of states that is also so where a failure is reported at once. -/
def settling (P : ParserState → Prop) : Invariant where
  state := P
  failure d s := P (s.reported d)

theorem behind_settling {α : Type} {P : ParserState → Prop}
    {r : EStateM.Result Diagnostic ParserState α} : (settling P).Behind r ↔ P (settled r) := by
  cases r <;> rfl

end IdlFront.Parser
