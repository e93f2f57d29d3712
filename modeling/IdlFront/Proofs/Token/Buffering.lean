import Mathlib.Data.List.TakeWhile
import IdlFront.Token.Buffer

/-! # Streams are indexed lists

Whatever a stream is asked, and in whatever order, its answers are those of a list of tokens with an
index into it, and no arrival is drawn before a call has to look at it.

* `IndexedTokens` — a list of tokens, the end of input behind it, and an index.
* `demand` — how many arrivals calls ask for.
* `Refines` — a state that stands for an indexed list, with that many arrivals drawn.
* `Steps` — a machine whose calls keep this relation; `Steps.answers` says what its runs do.
* `streams_indexed` — buffers and streams are such machines.
-/

namespace IdlFront

/-! ## Indexed lists -/

/-- The tokens in front of the end of input, this end, and the number of tokens consumed. -/
structure IndexedTokens where
  tokens : List Token
  ending : Token
  index : Nat

/-- The first end of input among some tokens. If there is none, it is right behind the last token, and
    at the first place if there is no token at all. -/
def endOfInput (ts : List Token) : Token :=
  match ts.find? Token.isEof, ts.getLast? with
  | some e, _ => e
  | none, some t => ⟨.eof, "", t.line, t.column + t.value.length, t.stop⟩
  | none, none => ⟨.eof, "", 1, 1, 0⟩

/-- The number of tokens up to and with the first end of input. -/
def supply (ts : List Token) : Nat :=
  (ts.takeWhile fun t => !t.isEof).length + if ts.any Token.isEof then 1 else 0

namespace IndexedTokens

def ofTokens (ts : List Token) : IndexedTokens :=
  ⟨ts.takeWhile fun t => !t.isEof, endOfInput ts, 0⟩

def tokenAt (m : IndexedTokens) (distance : Nat) : Token :=
  (m.tokens[m.index + distance]?).getD m.ending

def next (m : IndexedTokens) : IndexedTokens :=
  if m.index < m.tokens.length then { m with index := m.index + 1 } else m

def call (m : IndexedTokens) : StreamCall → StreamAnswer × IndexedTokens
  | .peek distance =>
    if distance < 0 then (.refused .negativeDistance, m) else (.token (m.tokenAt distance.toNat), m)
  | .advance => (.token (m.tokenAt 0), m.next)
  | .check kinds => (.truth (kinds.contains (m.tokenAt 0).kind), m)
  | .atEnd => (.truth (m.tokenAt 0).isEof, m)

end IndexedTokens

/-- How far a call looks ahead. -/
def StreamCall.distance : StreamCall → Int
  | .peek distance => distance
  | _ => 0

/-- The number of arrivals that calls ask for: at every call those of the consumed tokens, and from
    there to the token that the call looks at. -/
def demand : List StreamCall → IndexedTokens → Int
  | [], _ => 0
  | c :: cs, m => max (m.index + c.distance + 1) (demand cs (m.call c).2)

theorem demand_nonneg (calls : List StreamCall) (m : IndexedTokens) : 0 ≤ demand calls m := by
  induction calls generalizing m with
  | nil => exact Int.le_refl 0
  | cons c cs ih => exact Int.le_trans (ih _) (Int.le_max_right _ _)

/-! ## Machines that stand for indexed lists -/

section Steps

variable {σ : Type} {call : σ → StreamCall → StreamAnswer × σ}
  {R : IndexedTokens → Nat → σ → Prop} {bound : Nat}

/-- Every call gives the answer of the indexed list, and draws no more than it has to, of `bound`
    arrivals that there are. -/
def Steps (call : σ → StreamCall → StreamAnswer × σ) (R : IndexedTokens → Nat → σ → Prop)
    (bound : Nat) : Prop :=
  ∀ ⦃m drawn s⦄ (c : StreamCall), R m drawn s → drawn ≤ bound ∧ (call s c).1 = (m.call c).1 ∧
    ∃ drawn', R (m.call c).2 drawn' (call s c).2 ∧
      (drawn' : Int) = min (bound : Int) (max (drawn : Int) (m.index + c.distance + 1))

theorem Steps.answers (steps : Steps call R bound) (calls : List StreamCall) {m : IndexedTokens}
    {drawn : Nat} {s : σ} (h : R m drawn s) (le : drawn ≤ bound) :
    (IdlFront.answers call calls s).1 = (IdlFront.answers IndexedTokens.call calls m).1 ∧
    ∃ drawn', R (IdlFront.answers IndexedTokens.call calls m).2 drawn'
        (IdlFront.answers call calls s).2 ∧
      (drawn' : Int) = min (bound : Int) (max (drawn : Int) (demand calls m)) := by
  induction calls generalizing m drawn s with
  | nil => exact ⟨rfl, drawn, h, by rw [demand]; omega⟩
  | cons c cs ih =>
    obtain ⟨-, answer, drawn₁, h₁, count₁⟩ := steps c h
    obtain ⟨more, drawn₂, h₂, count₂⟩ := ih h₁ (by omega)
    refine ⟨List.cons_eq_cons.2 ⟨answer, more⟩, drawn₂, h₂, ?_⟩
    rw [demand]
    omega

end Steps

/-! ## Buffers -/

/-- The arrivals in front of the first end of input, and those from it on. -/
structure Parted (as front back : List Arrival) : Prop where
  eq : as = front ++ back
  noEof : ∀ a ∈ front, a.token.isEof = false
  eof : ∀ a, back.head? = some a → a.token.isEof = true

theorem parted_takeWhile (as : List Arrival) : Parted as (as.takeWhile fun a => !a.token.isEof)
    (as.dropWhile fun a => !a.token.isEof) where
  eq := List.takeWhile_append_dropWhile.symm
  noEof a mem := by simpa using List.mem_takeWhile_imp mem
  eof a first := by
    have := List.head?_dropWhile_not (fun a : Arrival => !a.token.isEof) as
    rw [first] at this
    simpa using this

section Parted

variable {as front back : List Arrival}

/-- The end of input of arrivals that are parted there. -/
def endBehind (front back : List Arrival) : Token :=
  match back with
  | e :: _ => e.token
  | [] => TokenBuffer.missingEnd ((front.map Arrival.token).getLast?)

namespace Parted

theorem takeWhile_eq (h : Parted as front back) : (as.takeWhile fun a => !a.token.isEof) = front := by
  have inside : ∀ a ∈ front, (!a.token.isEof) = true := by simpa using h.noEof
  rw [h.eq, List.takeWhile_append_of_pos inside]
  cases back with
  | nil => simp
  | cons e back => simp [h.eof e rfl]

theorem takeWhile_tokens (h : Parted as front back) :
    ((as.map Arrival.token).takeWhile fun t => !t.isEof) = front.map Arrival.token := by
  rw [List.takeWhile_map]
  exact congrArg (List.map Arrival.token) h.takeWhile_eq

theorem find?_tokens (h : Parted as front back) :
    (as.map Arrival.token).find? Token.isEof = back.head?.map Arrival.token := by
  have none : (front.map Arrival.token).find? Token.isEof = none := by simpa using h.noEof
  rw [h.eq, List.map_append, List.find?_append, none, Option.none_or]
  cases back with
  | nil => rfl
  | cons e back => simp [h.eof e rfl]

theorem endOfInput_tokens (h : Parted as front back) :
    endOfInput (as.map Arrival.token) = endBehind front back := by
  rw [endOfInput, h.find?_tokens]
  cases back with
  | nil =>
    rw [h.eq, List.append_nil]
    unfold endBehind TokenBuffer.missingEnd
    cases (front.map Arrival.token).getLast? <;> rfl
  | cons e back => rfl

theorem supply_tokens (h : Parted as front back) :
    supply (as.map Arrival.token) = front.length + (back.take 1).length := by
  have none : (front.map Arrival.token).any Token.isEof = false := by simpa using h.noEof
  rw [supply, h.takeWhile_tokens, List.length_map, h.eq, List.map_append, List.any_append, none,
    Bool.false_or]
  cases back with
  | nil => rfl
  | cons e back => simp [h.eof e rfl]

theorem ofTokens_eq (h : Parted as front back) : IndexedTokens.ofTokens (as.map Arrival.token) =
    ⟨front.map Arrival.token, endBehind front back, 0⟩ := by
  rw [IndexedTokens.ofTokens, h.takeWhile_tokens, h.endOfInput_tokens]

end Parted

theorem isEof_endBehind (parted : Parted as front back) : (endBehind front back).isEof = true := by
  unfold endBehind TokenBuffer.missingEnd
  cases back with
  | nil => cases (front.map Arrival.token).getLast? <;> rfl
  | cons e back => exact parted.eof e rfl

/-- The token at the index is the end of input just if all tokens are consumed. -/
theorem IndexedTokens.isEof_tokenAt (parted : Parted as front back) {m : IndexedTokens}
    (tokens : m.tokens = front.map Arrival.token) (ending : m.ending = endBehind front back) :
    (m.tokenAt 0).isEof = decide (m.tokens.length ≤ m.index) := by
  rw [IndexedTokens.tokenAt, Nat.add_zero]
  by_cases inside : m.index < m.tokens.length
  · have mem : m.tokens[m.index] ∈ front.map Arrival.token := tokens ▸ List.getElem_mem inside
    obtain ⟨a, mem, eq⟩ := List.mem_map.1 mem
    rw [List.getElem?_eq_getElem inside, Option.getD_some, ← eq, parted.noEof a mem,
      decide_eq_false (Nat.not_le.2 inside)]
  · rw [List.getElem?_eq_none (Nat.not_lt.1 inside), Option.getD_none, ending,
      isEof_endBehind parted, decide_eq_true (Nat.not_lt.1 inside)]

/-- The state of a buffer that stands for an indexed list: arrivals in front of the end of input have
    been drawn, or all up to the end of input. -/
inductive TokenBuffer.Refines (front back : List Arrival) : IndexedTokens → Nat → TokenBuffer → Prop
    where
  | drawing {drawn rest : List Arrival} {index : Nat} : front = drawn ++ rest → index ≤ drawn.length →
      Refines front back ⟨front.map Arrival.token, endBehind front back, index⟩ drawn.length
        ⟨rest ++ back, (drawn.map Arrival.token).drop index, none,
          (drawn.map Arrival.token).getLast?, index, drawn.length, drawn.flatMap Arrival.faults⟩
  | ended {last : Option Token} {index : Nat} : index ≤ front.length →
      Refines front back ⟨front.map Arrival.token, endBehind front back, index⟩
        (front.length + (back.take 1).length)
        ⟨back.drop 1, (front.map Arrival.token).drop index, some (endBehind front back), last, index,
          front.length + (back.take 1).length, (front ++ back.take 1).flatMap Arrival.faults⟩

namespace TokenBuffer.Refines

variable {m : IndexedTokens} {n drawn : Nat} {b : TokenBuffer}

theorem taken (h : Refines front back m drawn b) : b.taken = drawn := by
  cases h <;> rfl

theorem consumed (h : Refines front back m drawn b) : b.consumed = m.index := by
  cases h <;> rfl

/-- What has been drawn is what has been consumed and more, and not more than there is. -/
theorem bounds (h : Refines front back m drawn b) :
    m.index ≤ drawn ∧ drawn ≤ front.length + (back.take 1).length := by
  cases h with
  | drawing eq le =>
    rw [eq, List.length_append]
    exact ⟨le, by omega⟩
  | ended le => exact ⟨Nat.le_trans le (Nat.le_add_right _ _), Nat.le_refl _⟩

/-- Drawing goes on to the end of input, and then no further. -/
theorem fillUp (parted : Parted as front back) (h : Refines front back m drawn b) :
    Refines front back m (min (front.length + (back.take 1).length) (drawn + n)) (b.fillUp n) ∧
      ((b.fillUp n).ending = none → b.ending = none ∧ drawn + n ≤ front.length) := by
  -- On the number of draws: once the end of input is met nothing changes, before it one more arrival is
  -- drawn.
  induction n generalizing drawn b with
  | zero =>
    refine ⟨?_, fun more => ?_⟩
    · rw [Nat.add_zero, Nat.min_eq_right h.bounds.2]
      exact h
    · cases h with
      | drawing eq le =>
        rw [eq, List.length_append]
        exact ⟨rfl, Nat.le_add_right _ _⟩
      | ended => cases more
  | succ n ih =>
    cases h with
    | ended le =>
      rw [Nat.min_eq_left (by omega)]
      exact ⟨.ended le, fun more => nomatch more⟩
    | @drawing taken rest index eq le =>
      cases rest with
      | cons a rest =>
        -- An arrival before the end of input is moved to those that wait.
        have inside : a.token.isEof = false := parted.noEof a (by simp [eq])
        have step : TokenBuffer.fill ⟨a :: rest ++ back, (taken.map Arrival.token).drop index, none,
            (taken.map Arrival.token).getLast?, index, taken.length, taken.flatMap Arrival.faults⟩ =
            (true, ⟨rest ++ back, ((taken ++ [a]).map Arrival.token).drop index, none,
              ((taken ++ [a]).map Arrival.token).getLast?, index, (taken ++ [a]).length,
              (taken ++ [a]).flatMap Arrival.faults⟩) := by
          have short : index ≤ (taken.map Arrival.token).length := by rwa [List.length_map]
          simp [TokenBuffer.fill, inside, List.drop_append_of_le_length short]
        have further := ih (@drawing front back (taken ++ [a]) rest index (by simp [eq])
          (by rw [List.length_append]; omega))
        have count : (taken ++ [a]).length + n = taken.length + (n + 1) := by
          rw [List.length_append, List.length_singleton]
          omega
        rw [count] at further
        rw [TokenBuffer.fillUp, step]
        exact ⟨further.1, fun more => ⟨rfl, (further.2 more).2⟩⟩
      | nil =>
        rw [List.append_nil] at eq
        subst eq
        cases back with
        | nil =>
          -- No arrival is left, and the end of input is placed behind the last one.
          have step : TokenBuffer.fill ⟨[] ++ [], (front.map Arrival.token).drop index, none,
              (front.map Arrival.token).getLast?, index, front.length,
              front.flatMap Arrival.faults⟩ =
              (false, ⟨[], (front.map Arrival.token).drop index, some (endBehind front []),
                (front.map Arrival.token).getLast?, index, front.length,
                (front ++ []).flatMap Arrival.faults⟩) := by
            simp [TokenBuffer.fill, endBehind]
          rw [TokenBuffer.fillUp, step, Nat.min_eq_left (by simp)]
          exact ⟨.ended le, fun more => nomatch more⟩
        | cons e back =>
          -- The end of input itself arrives.
          have step : TokenBuffer.fill ⟨[] ++ e :: back, (front.map Arrival.token).drop index, none,
              (front.map Arrival.token).getLast?, index, front.length,
              front.flatMap Arrival.faults⟩ =
              (false, ⟨back, (front.map Arrival.token).drop index, some e.token,
                (front.map Arrival.token).getLast?, index, front.length + 1,
                (front ++ [e]).flatMap Arrival.faults⟩) := by
            simp [TokenBuffer.fill, parted.eof e rfl]
          rw [TokenBuffer.fillUp, step, Nat.min_eq_left (by simp)]
          exact ⟨.ended le, fun more => nomatch more⟩

/-- A look finds the token of the indexed list, and draws what it has to. -/
theorem peek (parted : Parted as front back) (h : Refines front back m drawn b) (distance : Nat) :
    (b.peek distance).1 = m.tokenAt distance ∧ Refines front back m
      (min (front.length + (back.take 1).length) (max drawn (m.index + distance + 1)))
      (b.peek distance).2 := by
  obtain ⟨filled, open_⟩ := h.fillUp (n := distance + 1 - b.waiting.length) parted
  have count : min (front.length + (back.take 1).length) (drawn + (distance + 1 - b.waiting.length)) =
      min (front.length + (back.take 1).length) (max drawn (m.index + distance + 1)) := by
    have bounds := h.bounds
    cases h with
    | drawing eq le =>
      simp only [List.length_drop, List.length_map] at bounds ⊢
      omega
    | ended le => omega
  rw [count] at filled
  -- While the end of input has not been met, the look stays within what has been drawn.
  have reached : (b.fillUp (distance + 1 - b.waiting.length)).ending = none →
      m.index + distance + 1 ≤ min (front.length + (back.take 1).length)
        (max drawn (m.index + distance + 1)) := by
    intro more
    obtain ⟨before, enough⟩ := open_ more
    cases h with
    | drawing eq le =>
      simp only [List.length_drop, List.length_map] at enough ⊢
      omega
    | ended => cases before
  rw [TokenBuffer.peek, IndexedTokens.tokenAt]
  generalize b.fillUp (distance + 1 - b.waiting.length) = b' at filled reached
  generalize min (front.length + (back.take 1).length) (max drawn (m.index + distance + 1)) = drawn'
    at filled reached
  have waiting : b'.waiting[distance]?.getD (b'.ending.getD TokenStream.endOfNothing) =
      (m.tokens[m.index + distance]?).getD m.ending := by
    cases filled with
    | @drawing drawn rest index eq le =>
      have within : index + distance < (drawn.map Arrival.token).length := by
        rw [List.length_map]
        exact reached rfl
      simp only [List.getElem?_drop, eq, List.map_append, List.getElem?_append_left within,
        List.getElem?_eq_getElem within, Option.getD_some]
    | ended le => simp only [List.getElem?_drop, Option.getD_some]
  rw [← waiting]
  cases b'.waiting[distance]? <;> exact ⟨rfl, filled⟩

/-- The next token is consumed unless it is the end of input. -/
theorem advance (parted : Parted as front back) (h : Refines front back m drawn b) :
    (b.advance).1 = m.tokenAt 0 ∧ Refines front back m.next
      (min (front.length + (back.take 1).length) (max drawn (m.index + 1))) (b.advance).2 := by
  obtain ⟨found, filled⟩ := h.peek parted 0
  rw [TokenBuffer.advance]
  generalize b.peek 0 = looked at found filled
  obtain ⟨t, b'⟩ := looked
  simp only at found filled ⊢
  subst found
  have enough := filled.bounds
  generalize eq : min (front.length + (back.take 1).length) (max drawn (m.index + 0 + 1)) = drawn'
    at filled enough
  rw [Nat.add_zero] at eq
  have tokens : m.tokens = front.map Arrival.token := by cases filled <;> rfl
  have ending : m.ending = endBehind front back := by cases filled <;> rfl
  have isEof := IndexedTokens.isEof_tokenAt parted tokens ending
  -- The index moves with the token that is dropped; at the end of input both stay.
  by_cases inside : m.index < m.tokens.length
  · rw [if_neg (by rw [isEof]; simpa using inside), IndexedTokens.next, if_pos inside]
    refine ⟨rfl, ?_⟩
    have length : m.tokens.length = front.length := by rw [tokens, List.length_map]
    have some : m.index + 1 ≤ drawn' := by omega
    rw [length] at inside
    cases filled with
    | @drawing drawn rest index split le =>
      simpa only [List.tail_drop] using @drawing front back drawn rest (index + 1) split some
    | @ended last index le =>
      simpa only [List.tail_drop] using @ended front back last (index + 1) inside
  · rw [if_pos (by rw [isEof]; simpa using inside), IndexedTokens.next, if_neg inside]
    exact ⟨rfl, filled⟩

end TokenBuffer.Refines

theorem TokenBuffer.steps (parted : Parted as front back) :
    Steps TokenBuffer.call (TokenBuffer.Refines front back)
      (front.length + (back.take 1).length) := by
  intro m drawn b c h
  have bounds := h.bounds
  refine ⟨bounds.2, ?_⟩
  cases c with
  | peek distance =>
    rw [TokenBuffer.call, IndexedTokens.call]
    simp only [StreamCall.distance]
    by_cases negative : distance < 0
    · rw [if_pos negative, if_pos negative]
      exact ⟨rfl, drawn, h, by omega⟩
    · rw [if_neg negative, if_neg negative]
      obtain ⟨found, filled⟩ := h.peek parted distance.toNat
      exact ⟨congrArg StreamAnswer.token found, _, filled, by omega⟩
  | advance =>
    obtain ⟨found, filled⟩ := h.advance parted
    exact ⟨congrArg StreamAnswer.token found, _, filled, by simp only [StreamCall.distance]; omega⟩
  | check kinds =>
    obtain ⟨found, filled⟩ := h.peek parted 0
    refine ⟨?_, _, filled, by simp only [StreamCall.distance]; omega⟩
    rw [TokenBuffer.call, IndexedTokens.call, ← found]
  | atEnd =>
    obtain ⟨found, filled⟩ := h.peek parted 0
    refine ⟨?_, _, filled, by simp only [StreamCall.distance]; omega⟩
    rw [TokenBuffer.call, IndexedTokens.call, ← found]

/-! ## Streams -/

/-- A stream that stands for an indexed list. -/
structure TokenStream.Refines (front back : List Arrival) (m : IndexedTokens) (drawn : Nat)
    (s : TokenStream) : Prop where
  tokens : m.tokens = front.map Arrival.token
  ending : m.ending = endBehind front back
  index_le : m.index ≤ m.tokens.length
  upcoming : s.upcoming.map Arrival.token = m.tokens.drop m.index
  last : s.last.token = m.ending
  supply : s.supply = front.length + (back.take 1).length
  consumed : s.consumed = m.index
  taken : s.taken = drawn
  enough : m.index ≤ drawn ∧ drawn ≤ s.supply

namespace TokenStream.Refines

variable {m : IndexedTokens} {drawn distance : Nat} {s : TokenStream}

theorem tokenAt (h : Refines front back m drawn s) : s.tokenAt distance = m.tokenAt distance := by
  have same : (s.upcoming[distance]?).map Arrival.token = m.tokens[m.index + distance]? := by
    rw [← List.getElem?_map, h.upcoming, List.getElem?_drop]
  rw [TokenStream.tokenAt, IndexedTokens.tokenAt, ← same, ← h.last]
  cases s.upcoming[distance]? <;> rfl

theorem current (h : Refines front back m drawn s) : s.current = m.tokenAt 0 := by
  rw [← h.tokenAt, TokenStream.current, TokenStream.tokenAt]
  cases s.upcoming <;> rfl

theorem takeUpTo (h : Refines front back m drawn s) : Refines front back m
    (min (front.length + (back.take 1).length) (max drawn (m.index + distance + 1)))
    (s.takeUpTo distance) where
  tokens := h.tokens
  ending := h.ending
  index_le := h.index_le
  upcoming := by
    rw [← h.upcoming, TokenStream.takeUpTo, List.map_append, List.map_map]
    show List.map Arrival.token _ ++ _ = _
    rw [← List.map_append, List.take_append_drop]
  last := by
    rw [← h.last, TokenStream.takeUpTo]
    simp only
    split <;> rfl
  supply := h.supply
  consumed := h.consumed
  taken := by
    have enough := h.enough
    rw [TokenStream.takeUpTo]
    simp only [h.taken, h.supply, h.consumed] at enough ⊢
    omega
  enough := by
    have enough := h.enough
    show _ ∧ _ ≤ s.supply
    rw [h.supply] at enough ⊢
    omega

/-- Behind a look the next token can be consumed. -/
theorem tail (h : Refines front back m drawn s) (looked : m.index < m.tokens.length → m.index < drawn) :
    Refines front back m.next drawn s.tail := by
  have upcoming := h.upcoming
  unfold TokenStream.tail IndexedTokens.next
  cases eq : s.upcoming with
  | nil =>
    rw [eq, List.map_nil, eq_comm, List.drop_eq_nil_iff] at upcoming
    rw [if_neg (by omega)]
    exact h
  | cons a as =>
    have inside : m.index < m.tokens.length := by
      have length := congrArg List.length upcoming
      rw [eq, List.length_map, List.length_cons, List.length_drop] at length
      omega
    rw [if_pos inside]
    refine ⟨h.tokens, h.ending, inside, ?_, h.last, h.supply, ?_, h.taken,
      looked inside, h.enough.2⟩
    · rw [← List.tail_drop, ← upcoming, eq]
      rfl
    · exact congrArg (· + 1) h.consumed

end TokenStream.Refines

theorem TokenStream.steps (parted : Parted as front back) :
    Steps TokenStream.call (TokenStream.Refines front back)
      (front.length + (back.take 1).length) := by
  intro m drawn s c h
  have enough := h.enough
  rw [h.supply] at enough
  refine ⟨enough.2, ?_⟩
  have front_le : m.tokens.length ≤ front.length + (back.take 1).length := by
    rw [h.tokens, List.length_map]
    exact Nat.le_add_right _ _
  -- Every call is a look at its distance; only one that advances moves the index.
  cases c with
  | peek distance =>
    rw [TokenStream.call, IndexedTokens.call, TokenStream.look]
    simp only [StreamCall.distance]
    by_cases negative : distance < 0
    · rw [if_pos negative, if_pos negative]
      exact ⟨rfl, drawn, h, by omega⟩
    · rw [if_neg negative, if_neg negative]
      exact ⟨congrArg StreamAnswer.token h.tokenAt, _, h.takeUpTo, by omega⟩
  | advance =>
    refine ⟨congrArg StreamAnswer.token h.current, _, h.takeUpTo.tail fun inside => ?_,
      by simp only [StreamCall.distance]; omega⟩
    omega
  | check kinds =>
    refine ⟨?_, _, h.takeUpTo, by simp only [StreamCall.distance]; omega⟩
    rw [TokenStream.call, IndexedTokens.call, ← h.current]
    rfl
  | atEnd =>
    refine ⟨?_, _, h.takeUpTo, by simp only [StreamCall.distance]; omega⟩
    have all : s.atEnd = decide (m.tokens.length ≤ m.index) := by
      have upcoming := congrArg List.isEmpty h.upcoming
      rw [List.isEmpty_map] at upcoming
      rw [TokenStream.atEnd, upcoming, Bool.eq_iff_iff, List.isEmpty_iff, List.drop_eq_nil_iff,
        decide_eq_true_iff]
    rw [TokenStream.call, IndexedTokens.call, all,
      IndexedTokens.isEof_tokenAt parted h.tokens h.ending]

end Parted

/-! ## Streams of tokens -/

theorem TokenBuffer.refines_ofArrivals {as front back : List Arrival} (parted : Parted as front back) :
    Refines front back (.ofTokens (as.map Arrival.token)) 0 (.ofArrivals as) := by
  rw [parted.ofTokens_eq, ofArrivals, parted.eq]
  exact @Refines.drawing front back [] front 0 rfl (Nat.le_refl 0)

theorem TokenStream.missingEnd_eq (as : List Arrival) :
    missingEnd as = TokenBuffer.missingEnd (as.map Arrival.token).getLast? := by
  unfold missingEnd TokenBuffer.missingEnd
  rw [List.getLast?_map]
  cases as.getLast? <;> rfl

theorem TokenStream.refines_ofArrivals {as front back : List Arrival} (parted : Parted as front back) :
    Refines front back (.ofTokens (as.map Arrival.token)) 0 (.ofArrivals as) := by
  have rest : as.drop front.length = back := by rw [parted.eq, List.drop_left]
  rw [parted.ofTokens_eq]
  unfold ofArrivals
  simp only [parted.takeWhile_eq, rest]
  cases back with
  | nil => exact ⟨rfl, rfl, Nat.zero_le _, rfl, missingEnd_eq front, rfl, rfl, rfl, by simp⟩
  | cons e back => exact ⟨rfl, rfl, Nat.zero_le _, rfl, rfl, rfl, rfl, rfl, by simp⟩

/-- Whatever a stream of tokens is asked, it answers as the indexed list of these tokens does, and has
    consumed as many. From the source it has then drawn the arrivals that the calls have asked for, as
    far as there are such up to the first end of input. A call with a negative distance is refused and
    changes nothing. -/
theorem streams_indexed (ts : List Token) (calls : List StreamCall) :
    let model := answers IndexedTokens.call calls (.ofTokens ts)
    let drawn := min (supply ts : Int) (demand calls (.ofTokens ts))
    let buffer := answers TokenBuffer.call calls (.ofTokens ts)
    let stream := answers TokenStream.call calls (.ofTokens ts)
    (buffer.1 = model.1 ∧ buffer.2.consumed = model.2.index ∧ (buffer.2.taken : Int) = drawn ∧
      ∀ k < 0, buffer.2.call (.peek k) = (.refused .negativeDistance, buffer.2)) ∧
    (stream.1 = model.1 ∧ stream.2.consumed = model.2.index ∧ (stream.2.taken : Int) = drawn ∧
      ∀ k < 0, stream.2.call (.peek k) = (.refused .negativeDistance, stream.2)) := by
  intro model drawn buffer stream
  have parted := parted_takeWhile (ts.map fun t => ⟨[], t⟩)
  have tokens : (ts.map fun t => (⟨[], t⟩ : Arrival)).map Arrival.token = ts := by
    rw [List.map_map]
    exact List.map_id ts
  have bound := parted.supply_tokens
  -- Both implementations start as the indexed list does, and every call keeps them in step with it.
  have first := TokenBuffer.refines_ofArrivals parted
  have first' := TokenStream.refines_ofArrivals parted
  rw [tokens] at bound first first'
  obtain ⟨same, taken, refines, count⟩ :=
    (TokenBuffer.steps parted).answers calls first (Nat.zero_le _)
  obtain ⟨same', taken', refines', count'⟩ :=
    (TokenStream.steps parted).answers calls first' (Nat.zero_le _)
  have start : max ((0 : Nat) : Int) (demand calls (.ofTokens ts)) = demand calls (.ofTokens ts) :=
    Int.max_eq_right (demand_nonneg calls _)
  rw [← bound, start] at count count'
  have drawn_eq : (buffer.2.taken : Int) = drawn := (congrArg Nat.cast refines.taken).trans count
  have drawn_eq' : (stream.2.taken : Int) = drawn := (congrArg Nat.cast refines'.taken).trans count'
  refine ⟨⟨same, refines.consumed, drawn_eq, fun k negative => ?_⟩,
    same', refines'.consumed, drawn_eq', fun k negative => ?_⟩
  · rw [TokenBuffer.call, if_pos negative]
  · rw [TokenStream.call, TokenStream.look, if_pos negative]

/-- Tokens with an end of input among them. -/
def endedTokens : List Token :=
  [⟨.identifier, "a", 1, 1, 0⟩, ⟨.eof, "", 1, 2, 1⟩, ⟨.identifier, "b", 1, 3, 2⟩]

/-- The tokens behind an end of input are never drawn, and a look back is refused. -/
theorem streams_indexed_refused :
    (answers TokenBuffer.call [.peek 2, .advance, .advance] (.ofTokens endedTokens)).1 =
        [.token ⟨.eof, "", 1, 2, 1⟩, .token ⟨.identifier, "a", 1, 1, 0⟩, .token ⟨.eof, "", 1, 2, 1⟩] ∧
      ((answers TokenBuffer.call [.peek 2, .advance, .advance] (.ofTokens endedTokens)).2.taken : Int) = 2 ∧
      (-1 : Int) < 0 ∧
      (answers TokenBuffer.call [.peek 2, .advance, .advance] (.ofTokens endedTokens)).2.call (.peek (-1)) =
        (.refused .negativeDistance,
          (answers TokenBuffer.call [.peek 2, .advance, .advance] (.ofTokens endedTokens)).2) := by
  have negative : (-1 : Int) < 0 := by decide
  obtain ⟨⟨answered, -, drawn, refused⟩, -⟩ := streams_indexed endedTokens [.peek 2, .advance, .advance]
  exact ⟨answered.trans (by decide), drawn.trans (by decide), negative, refused (-1) negative⟩

end IdlFront
