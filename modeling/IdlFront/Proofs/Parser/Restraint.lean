import Mathlib.Data.List.Nodup
import IdlFront.Proofs.Lexical.Places
import IdlFront.Proofs.Parser.Headway
import IdlFront.Proofs.Parser.Skipping

/-! # How often a token is reported

A token can be reported as the one in front of which something is missing, and again where the next
item is expected to start, but then it is consumed.

* `reportsAt` — how many diagnostics are at the place of a token.
* `ParserState.Bears` — a state with at most two reports at every token so far, a given number of them
  at the next one and none behind it.
* `ParserState.Passes` — the way from such a state to another one: consumed tokens are left alone.
* `Discreet` — a parser that goes such a way and leaves no report at a token that it does not consume.
-/

namespace IdlFront

/-- The number of diagnostics at the place of a token. -/
def reportsAt (t : Token) (ds : List Diagnostic) : Nat := ds.countP fun d => d.place = t.place

theorem reportsAt_append (t : Token) (ds es : List Diagnostic) :
    reportsAt t (ds ++ es) = reportsAt t ds + reportsAt t es := List.countP_append

theorem reportsAt_singleton (t : Token) (d : Diagnostic) :
    reportsAt t [d] = if d.place = t.place then 1 else 0 := by
  simp [reportsAt, List.countP_singleton]

namespace ParserState

variable {all : List Token} {m n : Nat} {s t u : ParserState}

/-! ## States with few reports -/

/-- Over tokens in the order of their places: at each of them there are at most two reports, except at
    the end of input, and at the next one there are at most `n`. Behind that nothing has been reported,
    and neither has anything in front of all tokens or between them. -/
structure Bears (all : List Token) (n : Nat) (s : ParserState) : Prop where
  plain : s.Plain
  increasing : all.Pairwise fun t u => t.place < u.place
  reads : s.tokens ++ [s.ending] <:+ all
  placed : ∀ d ∈ s.log.toList, ∃ t ∈ all, d.place = t.place
  twice : ∀ t ∈ all, t.kind ≠ .eof → reportsAt t s.log.toList ≤ 2
  here : reportsAt s.current s.log.toList ≤ n
  later : ∀ t ∈ (s.tokens ++ [s.ending]).tail, reportsAt t s.log.toList = 0

/-- What becomes of a number of reports at the next token: they are left behind with it. -/
def kept (n : Nat) (s t : ParserState) : Nat := if t.tokens = s.tokens then n else 0

/-- The state is one that is reached from such a state without a report at its next token. -/
structure Passes (all : List Token) (n : Nat) (s t : ParserState) : Prop where
  suffix : t.tokens <:+ s.tokens
  bears : t.Bears all (kept n s t)

theorem kept_le (n : Nat) (s t : ParserState) : kept n s t ≤ n := by
  unfold kept
  split
  · exact Nat.le_refl n
  · exact Nat.zero_le n

theorem kept_of_lt (less : t.remaining < s.remaining) : kept n s t = 0 := by
  refine if_neg fun same => ?_
  rw [remaining_eq, remaining_eq, same] at less
  exact absurd less (Nat.lt_irrefl _)

theorem kept_kept (first : t.tokens <:+ s.tokens) (second : u.tokens <:+ t.tokens) :
    kept (kept n s t) t u = kept n s u := by
  unfold kept
  by_cases same : u.tokens = s.tokens
  · have between : t.tokens = s.tokens := first.eq_of_length_le (same ▸ second.length_le)
    rw [if_pos (same.trans between.symm), if_pos between, if_pos same]
  · rw [if_neg same]
    split
    · next still => rw [if_neg fun eq => same (still.trans eq)]
    · rfl

/-- One more report at a token that is either consumed next or was not the next one at first. -/
theorem kept_succ_le (less : u.remaining < s.remaining) : kept (kept n s t + 1) t u ≤ 1 := by
  rw [kept]
  split
  · next same => rw [kept_of_lt (by rwa [t.remaining_eq, ← same, ← u.remaining_eq])]
  · exact Nat.zero_le 1

theorem tokens_append_ending (s : ParserState) :
    s.tokens ++ [s.ending] = s.current :: (s.tokens ++ [s.ending]).tail := by
  rw [s.current_eq]
  cases s.tokens <;> rfl

namespace Bears

theorem mono (h : s.Bears all m) (le : m ≤ n) : s.Bears all n := { h with here := le_trans h.here le }

theorem current_mem (h : s.Bears all n) : s.current ∈ all :=
  h.reads.subset (by rw [tokens_append_ending]; exact List.mem_cons_self)

/-- The next token is in front of all that follow. -/
theorem current_lt (h : s.Bears all n) :
    ∀ t ∈ (s.tokens ++ [s.ending]).tail, s.current.place < t.place := by
  have sorted := h.increasing.sublist h.reads.sublist
  rw [tokens_append_ending] at sorted
  exact (List.pairwise_cons.1 sorted).1

theorem eq_of_place_eq (h : s.Bears all n) {a b : Token} (ha : a ∈ all) (hb : b ∈ all)
    (same : a.place = b.place) : a = b := by
  have nodup : (all.map Token.place).Nodup :=
    List.pairwise_map.2 (h.increasing.imp fun less => ne_of_lt less)
  exact List.inj_on_of_nodup_map nodup ha hb same

/-- Without a report the way may lead anywhere. -/
theorem passes (h : s.Bears all n) (reached : s.Reaches t) (silent : t.log.toList = s.log.toList) :
    s.Passes all n t := by
  have suffix := Reaches.tokens reached
  have ending := Reaches.ending reached
  obtain ⟨_, _, moves⟩ := h.plain.moves_of_reaches reached
  have whole : t.tokens ++ [t.ending] <:+ s.tokens ++ [s.ending] := by
    obtain ⟨us, eq⟩ := suffix
    exact ⟨us, by rw [← List.append_assoc, eq, ending]⟩
  -- Either the same tokens are to come, or all of these are behind the one that came next.
  have split := whole
  rw [s.tokens_append_ending, List.suffix_cons_iff, ← s.tokens_append_ending] at split
  refine ⟨suffix, moves.plainAfter, h.increasing, whole.trans h.reads, ?_, ?_, ?_, ?_⟩
  · rw [silent]
    exact h.placed
  · rw [silent]
    exact h.twice
  · rw [silent]
    unfold kept
    split
    · next same =>
      rw [t.current_eq, same, ending, ← s.current_eq]
      exact h.here
    · next moved =>
      have behind := split.resolve_left fun same => moved (by simpa [ending] using same)
      refine Nat.le_of_eq (h.later _ (behind.subset ?_))
      rw [tokens_append_ending]
      exact List.mem_cons_self
  · rw [silent]
    intro u mem
    obtain same | behind := split
    · exact h.later u (same ▸ mem)
    · exact h.later u (behind.subset (List.mem_of_mem_tail mem))

theorem refl (h : s.Bears all n) : s.Passes all n s := h.passes .refl rfl

theorem looked (h : s.Bears all n) : s.Passes all n s.looked :=
  h.passes (.single (.look s)) h.plain.log_looked

theorem advanced (h : s.Bears all n) : s.Passes all n s.advanced :=
  h.passes (.single (.advance s)) (by simpa using h.plain.moves_advanced.log)

theorem skipped (h : s.Bears all n) (k : Nat) : s.Passes all n (s.skipped k) :=
  h.passes (reaches_skipped k s) (by simpa using (h.plain.moves_skipped k).log)

/-- A report at the next token, if there is not more than one yet. -/
theorem reported {d : Diagnostic} (h : s.Bears all n) (at_ : d.place = s.current.place)
    (few : s.tokens ≠ [] → n ≤ 1) : (s.reported d).Bears all (n + 1) := by
  have log : (s.reported d).log.toList = s.log.toList ++ [d] := by simp [ParserState.reported]
  have one (t : Token) : reportsAt t [d] = if s.current.place = t.place then 1 else 0 := by
    rw [reportsAt_singleton, at_]
  refine ⟨(h.plain.moves_reported d).plainAfter, h.increasing, h.reads, ?_, ?_, ?_, ?_⟩
  · rw [log, List.forall_mem_append, List.forall_mem_singleton]
    exact ⟨h.placed, _, h.current_mem, at_⟩
  · -- Places tell tokens apart, so only the next token has one more report.
    intro t mem noEof
    rw [log, reportsAt_append, one]
    by_cases same : s.current.place = t.place
    · have eq := h.eq_of_place_eq h.current_mem mem same
      have more : s.tokens ≠ [] := by
        intro none
        rw [← eq, s.current_eq, none] at noEof
        exact noEof h.plain.endIsEof
      have here := h.here
      rw [eq] at here
      rw [if_pos same]
      have := few more
      omega
    · rw [if_neg same]
      exact h.twice t mem noEof
  · show reportsAt s.current (s.reported d).log.toList ≤ n + 1
    rw [log, reportsAt_append, one, if_pos rfl]
    exact Nat.succ_le_succ h.here
  · intro t mem
    rw [log, reportsAt_append, one, if_neg (ne_of_lt (h.current_lt t mem))]
    exact h.later t mem

theorem congr (h : s.Bears all n) (plain : t.Plain) (tokens : t.tokens = s.tokens)
    (ending : t.ending = s.ending) (log : t.log.toList = s.log.toList) : t.Bears all n where
  plain := plain
  increasing := h.increasing
  reads := by rw [tokens, ending]; exact h.reads
  placed := by rw [log]; exact h.placed
  twice := by rw [log]; exact h.twice
  here := by rw [t.current_eq, tokens, ending, ← s.current_eq, log]; exact h.here
  later := by rw [tokens, ending, log]; exact h.later

/-- A report at a token that has just been consumed. -/
theorem advanced_reported {d : Diagnostic} (h : s.Bears all 1) (at_ : d.place = s.current.place)
    (more : 0 < s.remaining) : (s.advanced.reported d).Bears all 0 := by
  have told := (h.reported at_ fun _ => Nat.le_refl 1).advanced.bears
  have less : (s.reported d).advanced.remaining < (s.reported d).remaining := by
    have := remaining_advanced (s.reported d)
    have : 0 < (s.reported d).remaining := more
    omega
  rw [kept_of_lt less] at told
  have plain := h.plain.moves_advanced.plainAfter
  refine told.congr (plain.moves_reported d).plainAfter ?_ ?_ ?_
  · exact (tokens_advanced s).trans (tokens_advanced (s.reported d)).symm
  · exact (ending_advanced s).trans (ending_advanced (s.reported d)).symm
  · rw [(plain.moves_reported d).log, h.plain.moves_advanced.log,
      (h.plain.moves_reported d).plainAfter.moves_advanced.log, (h.plain.moves_reported d).log]
    simp

end Bears

namespace Passes

theorem trans (h : s.Passes all n t) (h' : t.Passes all (kept n s t) u) : s.Passes all n u where
  suffix := h'.suffix.trans h.suffix
  bears := kept_kept h.suffix h'.suffix ▸ h'.bears

/-- The number of reports at the next token does not grow. -/
theorem few {k : Nat} (h : s.Passes all n t) (few : s.tokens ≠ [] → n ≤ k) :
    t.tokens ≠ [] → kept n s t ≤ k := by
  intro more
  refine le_trans (kept_le n s t) (few fun none => more ?_)
  have suffix := h.suffix
  rw [none] at suffix
  exact List.suffix_nil.1 suffix

end Passes

end ParserState

namespace Parser

open ParserState

variable {α β : Type} {k : Nat} {t : Token} {p : Parser α} {all : List Token} {n : Nat}
  {s : ParserState}

/-! ## Discreet parsers -/

/-- A result without a report at the token that comes next, which is where a failure is. -/
def Discreetly (all : List Token) (n : Nat) (s : ParserState) :
    EStateM.Result Diagnostic ParserState α → Prop
  | .ok _ u => s.Passes all n u
  | .error d u => s.Passes all n u ∧ d.place = u.current.place

theorem Discreetly.after {r : EStateM.Result Diagnostic ParserState α} {u : ParserState}
    (h : s.Passes all n u) (h' : Discreetly all (kept n s u) u r) : Discreetly all n s r := by
  cases r with
  | ok a v => exact h.trans h'
  | error d v => exact ⟨h.trans h'.1, h'.2⟩

/-- On the way from a state with at most `k` reports at the next token. -/
def restraint (k : Nat) : List Token × Nat × ParserState → Invariant
  | (all, n, s) =>
    { state := fun u => s.Passes all n u ∧ (s.tokens ≠ [] → n ≤ k)
      failure := fun d u => s.Passes all n u ∧ d.place = u.current.place }

/-- A parser with such results where there are at most `k` reports at the next token. -/
abbrev Discreet (k : Nat) (p : Parser α) : Prop := Holds (keeps (restraint k)) none p

theorem Discreet.passes (hp : Discreet k p) (h : s.Bears all n) (few : s.tokens ≠ [] → n ≤ k) :
    Discreetly all n s (p s) := by
  have behind := hp.holds (all, n, s) s ⟨h.refl, few⟩ (sees_none s)
  cases run : p s with
  | ok a u =>
    rw [run] at behind
    exact behind.1
  | error d u => rwa [run] at behind

theorem discreet_of {ahead : Option Token}
    (h : ∀ {all n s}, s.Bears all n → (s.tokens ≠ [] → n ≤ k) → Sees ahead s → Discreetly all n s (p s)) :
    Holds (keeps (restraint k)) ahead p := by
  refine ⟨fun (all, n, s) t ⟨passed, few⟩ sees => ?_⟩
  have behind := Discreetly.after passed (h passed.bears (passed.few few) sees)
  cases run : p t with
  | ok a u =>
    rw [run] at behind
    exact ⟨behind, few⟩
  | error d u => rwa [run] at behind

instance : Phrasal (keeps (restraint k)) :=
  phrasal_keeps (fun ⟨passed, few⟩ => ⟨passed.trans passed.bears.looked, few⟩)
    (fun ⟨passed, few⟩ _ => ⟨passed.trans passed.bears.advanced, few⟩)
    fun ⟨passed, _⟩ _ _ => ⟨passed, Token.place_report _ _⟩

instance : Lenient (keeps (restraint k)) :=
  lenient_keeps fun ⟨passed, _⟩ _ => ⟨passed, Token.place_report _ _⟩

instance : Discreet k current := discreet_of fun h _ _ => h.looked

instance : Discreet k advance := discreet_of fun h _ _ => h.advanced

instance (kind : TokenKind) : Discreet k (expect kind) := holds_expect fun _ _ => inferInstance

instance (resume : List TokenKind) : Discreet k (synchronize resume) :=
  discreet_of fun h _ _ => h.skipped _

/-- A report at a token that is consumed next. -/
theorem discreet_report {problem : Problem} {q : Parser α} [hq : Discreet 2 q]
    (consumes : ConsumesAt t.kind q) : Holds (keeps (restraint 1)) (some t) (do report t problem; q) := by
  refine discreet_of fun {all n s} h few sees => ?_
  obtain ⟨rfl, -⟩ := sees t rfl
  have told := h.reported (s.current.place_report problem) few
  have passed := hq.passes told fun more => Nat.succ_le_succ (few more)
  have less := consumes (s.reported (s.current.report problem)) h.plain.endIsEof rfl
  have moved {u : ParserState} (less : u.remaining < s.remaining)
      (passed : (s.reported (s.current.report problem)).Passes all (n + 1) u) : s.Passes all n u := by
    refine ⟨passed.suffix, ?_⟩
    rw [kept_of_lt less, ← kept_of_lt (n := n + 1) (s := s.reported (s.current.report problem)) less]
    exact passed.bears
  show Discreetly all n s (q (s.reported (s.current.report problem)))
  cases run : q (s.reported (s.current.report problem)) with
  | ok a u =>
    rw [run] at passed
    rw [after_ok run] at less
    exact moved less passed
  | error d u =>
    rw [run] at passed
    rw [after_error run] at less
    exact ⟨moved less passed.1, passed.2⟩

/-- What is mistaken for a value is reported and then read. -/
instance : Discreet 1 initializer := by
  unfold initializer
  refine @holds_current _ _ _ _ fun t => .ite (fun _ => inferInstance) fun noInteger => ?_
  refine .ite (fun mistaken => ?_) fun _ => ⟨Phrasal.refuse (.expected (by simpa using noInteger))⟩
  have noEof : t.kind ≠ .eof := fun eof => by simp [eof, isMistakenInitializer] at mistaken
  refine discreet_report ?_
  split
  · next name =>
    rw [name]
    exact ConsumesAt.bind (consumesAt_expect (by decide)).bind.bind.map
  · exact ConsumesAt.bind (consumesAt_advance noEof).map

end Parser

end IdlFront
