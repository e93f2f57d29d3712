import IdlFront.Proofs.Parser.Judgement

/-! # What parsers can see

A parser learns of its state only through the primitive questions, so two states that answer these
alike, now and after every move, are never told apart.

* `Bisimulation` — a relation of states that answer alike.
* `Uniform` — a parser that gives the same outcome in related states, and related states after it.
* `uniformity` — the judgement to this effect, and the rules it follows.

Every parser of the language is uniform. Facts about all parsers at once are bisimulations: that
they only move forward, that faults of the source do not change what is parsed, that what was
reported before does not matter.
-/

namespace IdlFront.Parser

/-! ## Bisimulations -/

/-- A relation of states that answer every primitive question alike and stay related under every
    move. Token counts may differ, but not in when they stand still. -/
structure Bisimulation (R : ParserState → ParserState → Prop) : Prop where
  tokens : ∀ {s t}, R s t → s.tokens = t.tokens
  ending : ∀ {s t}, R s t → s.ending = t.ending
  prevStop : ∀ {s t}, R s t → s.prevStop = t.prevStop
  consumed : ∀ {s t s' t'}, R s t → R s' t' →
    (s'.stream.consumed = s.stream.consumed ↔ t'.stream.consumed = t.stream.consumed)
  looked : ∀ {s t}, R s t → R s.looked t.looked
  advanced : ∀ {s t}, R s t → R s.advanced t.advanced
  reported : ∀ {s t} (d : Diagnostic), R s t → R (s.reported d) (t.reported d)

namespace Bisimulation

variable {R : ParserState → ParserState → Prop} (bisim : Bisimulation R)

include bisim

theorem current {s t : ParserState} (h : R s t) : s.current = t.current := by
  rw [s.current_eq, t.current_eq, bisim.tokens h, bisim.ending h]

theorem remaining {s t : ParserState} (h : R s t) : s.remaining = t.remaining := by
  rw [s.remaining_eq, t.remaining_eq, bisim.tokens h]

theorem atEnd {s t : ParserState} (h : R s t) : s.stream.atEnd = t.stream.atEnd := by
  rw [s.atEnd_eq, t.atEnd_eq, bisim.tokens h]

theorem skipped (n : Nat) : ∀ {s t : ParserState}, R s t → R (s.skipped n) (t.skipped n) := by
  induction n with
  | zero => exact fun h => h
  | succ n ih => exact fun h => ih (bisim.advanced h)

end Bisimulation

variable {α β : Type}

/-- Two outcomes with the same value or diagnostic, in related states. -/
inductive Alike (R : ParserState → ParserState → Prop) :
    EStateM.Result Diagnostic ParserState α → EStateM.Result Diagnostic ParserState α → Prop where
  | ok {s t : ParserState} (a : α) : R s t → Alike R (.ok a s) (.ok a t)
  | error {s t : ParserState} (d : Diagnostic) : R s t → Alike R (.error d s) (.error d t)

theorem Alike.split {R : ParserState → ParserState → Prop}
    {r q : EStateM.Result Diagnostic ParserState α} (h : Alike R r q) :
    (∃ a s t, r = .ok a s ∧ q = .ok a t ∧ R s t) ∨
      (∃ d s t, r = .error d s ∧ q = .error d t ∧ R s t) := by
  cases h with
  | ok a h => exact .inl ⟨a, _, _, rfl, rfl, h⟩
  | error d h => exact .inr ⟨d, _, _, rfl, rfl, h⟩

/-- A parser that tells no two bisimilar states apart. -/
class Uniform (p : Parser α) : Prop where
  alike : ∀ {R : ParserState → ParserState → Prop}, Bisimulation R →
    ∀ {s t : ParserState}, R s t → Alike R (p s) (p t)

/-- Uniformity, also of parsers that know the token that comes next. -/
def uniformity : Judgement := fun ahead _ p => ∀ {R : ParserState → ParserState → Prop},
  Bisimulation R → ∀ {s t : ParserState}, R s t → (∀ next ∈ ahead, s.current = next) →
    Alike R (p s) (p t)

theorem Uniform.judged {ahead : Option Token} {p : Parser α} (hp : Uniform p) : uniformity ahead α p :=
  fun bisim _ _ h _ => hp.alike bisim h

instance (priority := low) (ahead : Option Token) (p : Parser α) [hp : Uniform p] :
    Holds uniformity ahead p := ⟨hp.judged⟩

instance (p : Parser α) [hp : Holds uniformity none p] : Uniform p :=
  ⟨fun bisim _ _ h => hp.holds bisim h nofun⟩

/-! ## Uniform steps -/

theorem uniformity_bind {ahead : Option Token} {p : Parser α} {f : α → Parser β}
    (hp : uniformity ahead α p) (hf : ∀ a, uniformity none β (f a)) : uniformity ahead β (p >>= f) := by
  intro R bisim s t h next
  rw [bind_apply, bind_apply]
  obtain ⟨a, s', t', hs, ht, h'⟩ | ⟨d, s', t', hs, ht, h'⟩ := (hp bisim h next).split
  · rw [hs, ht]
    exact hf a bisim h' nofun
  · rw [hs, ht]
    exact .error d h'

theorem uniformity_look {f : Token → Parser α} {R : ParserState → ParserState → Prop}
    (bisim : Bisimulation R) {s t : ParserState} (h : R s t)
    (hf : uniformity (some s.current) α (f s.current)) :
    Alike R ((current >>= f) s) ((current >>= f) t) := by
  show Alike R (f s.current s.looked) (f t.current t.looked)
  rw [← bisim.current h]
  refine hf bisim (bisim.looked h) ?_
  rintro _ ⟨⟩
  exact s.current_looked

theorem uniform_advance : Uniform advance where
  alike bisim s t h := by
    show Alike _ (.ok s.current s.advanced) (.ok t.current t.advanced)
    rw [bisim.current h]
    exact .ok _ (bisim.advanced h)

instance (t : Token) (problem : Problem) : Uniform (report t problem) where
  alike bisim _ _ h := .ok () (bisim.reported (t.report problem) h)

instance (t : Token) (problem : Problem) : Uniform (refuse t problem : Parser α) where
  alike _ _ _ h := .error (t.report problem) h

theorem uniform_synchronize (resume : List TokenKind) : Uniform (synchronize resume) where
  alike bisim s t h := by
    have eq : s.stream.upcoming.map Arrival.token = t.stream.upcoming.map Arrival.token :=
      bisim.tokens h
    simp only [synchronize, eq]
    exact .ok () (bisim.skipped _ h)

theorem uniform_recovering {resume : List TokenKind} {eager : Bool} {item : Parser α}
    (hi : Uniform item) : Uniform (recovering resume eager item) where
  alike {R} bisim s t h := by
    unfold recovering
    obtain ⟨a, s', t', hs, ht, h'⟩ | ⟨d, s', t', hs, ht, h'⟩ := (hi.alike bisim h).split
    · rw [hs, ht]
      exact .ok (some a) h'
    · rw [hs, ht]
      have synced := (uniform_synchronize resume).alike bisim (bisim.reported d h')
      obtain ⟨_, s'', t'', hs'', ht'', h''⟩ | ⟨d, s'', t'', hs'', ht'', h''⟩ := synced.split
      · simp only [bind_apply, hs'', ht'']
        cases eager with
        | false => exact .ok none h''
        | true =>
          simp only [if_true, bind_apply, progressFrom, pure_apply, ← bisim.atEnd h'', bisim.consumed h h'']
          split
          · exact .ok none (bisim.advanced h'')
          · exact .ok none h''
      · simp only [bind_apply, hs'', ht'']
        exact .error d h''

/-! ## The rules -/

instance : Uniform current where
  alike bisim _ _ h := uniformity_look bisim h (f := pure) fun _ _ _ h _ => .ok _ h

instance : Phrasal uniformity where
  anywhere hp := fun bisim _ _ h _ => hp bisim h nofun
  pure a := fun _ _ _ h _ => .ok a h
  bind := uniformity_bind
  look hf := fun bisim s _ h _ => uniformity_look bisim h (hf s.current)
  lookAgain {_ _ t} hf := fun bisim s _ h next => by
    obtain rfl := next t rfl
    exact uniformity_look bisim h hf
  measured {_ p} hp := fun {R} bisim s t h next => by
    show Alike R (p s.remaining s) (p t.remaining t)
    rw [← bisim.remaining h]
    exact hp s.remaining bisim h next
  advance _ := uniform_advance.judged
  refuse _ := Uniform.judged inferInstance
  spanFrom start := fun bisim _ _ h _ => by
    simp only [spanFrom, bisim.prevStop h]
    exact .ok _ h

instance : Reporting uniformity where
  reportThen _ hp := fun bisim _ _ h next => hp bisim (bisim.reported _ h) next
  repeated _ := fun bisim _ _ h _ => .ok () (bisim.reported _ (bisim.advanced h))

instance : Resuming uniformity where
  consume := uniform_advance.judged
  synchronize resume := (uniform_synchronize resume).judged
  recovering hi := (uniform_recovering ⟨fun bisim _ _ h => hi bisim h nofun⟩).judged

instance : Lenient uniformity where
  unexpected kinds := fun bisim _ _ h _ =>
    uniformity_look bisim h (f := fun t => refuse t (.expected kinds t)) (Uniform.judged inferInstance)

section Nested

variable (stuck : Parser α) (phrase : Parser α → Parser α) [Uniform stuck]
  (hp : ∀ inner, Uniform inner → Uniform (phrase inner))

include hp

theorem Uniform.limited_nested (n : Nat) : Uniform (limited n stuck (nested stuck phrase)) := by
  have := holds_limited_nested (J := uniformity) stuck phrase (fun n _ => ⟨(hp _ inferInstance).judged⟩) n
  infer_instance

/-- A nested phrase is uniform if it is so over any uniform inner phrase. -/
theorem Uniform.nested : Uniform (nested stuck phrase) := by
  have := holds_nested (J := uniformity) stuck phrase fun n _ => ⟨(hp _ inferInstance).judged⟩
  infer_instance

end Nested

end IdlFront.Parser
