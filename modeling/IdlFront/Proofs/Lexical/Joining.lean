import IdlFront.Proofs.Lexical.Names

/-! # Text behind closed text

The words of a text do not depend on what stands behind it if it ends with a mark such as `;` and
with no line comment.

* `Closed` — lexemes that any text may follow.
* `Front.behind` — the first of closed lexemes is the same one, whatever follows them.
* `HasWords.behind` — so are all of them.
* `placed` — the tokens among lexemes, each with its place.
-/

namespace IdlFront.Lexical

variable {rest rest' cs : List Char} {l : Lexeme} {ls ls' : List Lexeme}
  {words : List (TokenKind × String)}

/-! ## Closed lexemes -/

/-- The last token, if there is one, is a mark other than a dot, and the last lexeme is no line
    comment. -/
structure Closed (ls : List Lexeme) : Prop where
  mark : ∀ word, (ls.filterMap wordOf?).getLast? = some word → ∃ p, p ≠ .dot ∧ word.1 = .punct p
  comment : ∀ l, ls.getLast? = some l → l.kind ≠ .lineComment

theorem Closed.tail (h : Closed (l :: ls)) : Closed ls where
  mark word last := h.mark word (by
    rw [List.filterMap_cons]
    cases wordOf? l <;> simp [List.getLast?_cons, last])
  comment m last := h.comment m (by simp [List.getLast?_cons, last])

theorem mark_not_inner {p : Punctuation} (noDot : p ≠ .dot) : isInner p.char = false := by
  cases p with
  | dot => exact absurd rfl noDot
  | _ => decide +kernel

/-- Closed lexemes with tokens among them have a mark in their text. -/
theorem Closed.exists_mark (h : Closed ls) (fronts : ∀ l ∈ ls, ∃ rest, Front l rest)
    (some : ls.filterMap wordOf? ≠ []) : ∃ c ∈ textOf ls, isInner c = false := by
  obtain ⟨word, last⟩ := Option.ne_none_iff_exists'.1 (mt List.getLast?_eq_none_iff.1 some)
  obtain ⟨p, noDot, kind⟩ := h.mark word last
  obtain ⟨l, mem, isWord⟩ := List.mem_filterMap.1 (List.mem_of_getLast? last)
  obtain ⟨_, front⟩ := fronts l mem
  have text : l.text = [p.char] := front.mark (kind ▸ (wordOf?_eq_some isWord).1)
  exact ⟨p.char, List.mem_flatMap.2 ⟨l, mem, by simp [text]⟩, mark_not_inner noDot⟩

/-! ## One lexeme -/

theorem Solid.token (h : Solid l rest) (sound : l.fault = none) : ∃ kind, l.kind = .token kind := by
  cases h with
  | decimal _ _ decimal => cases decimal <;> exact ⟨_, rfl⟩
  | rejected => cases sound
  | _ => exact ⟨_, rfl⟩

/-- A sound mark is the same token before any rest. -/
theorem Front.mark_front (h : Front l rest) (sound : l.fault = none) {p : Punctuation}
    (punct : l.kind = .token (.punct p)) (rest' : List Char) : Front l rest' := by
  have same : l = .sound (.token (.punct p)) [p.char] := by
    rw [Lexeme.sound, ← punct, ← sound, ← h.mark punct]
  rw [same]
  exact (Solid.punctuation p).front rfl

/-- The first of closed lexemes is the same one, whatever stands behind them. -/
theorem Front.behind (front : Front l (textOf ls ++ rest)) (sound : l.fault = none)
    (closed : Closed (l :: ls)) (splits : Splits (textOf ls ++ rest) (ls ++ ls')) :
    Front l (textOf ls ++ rest') := by
  have fronts : ∀ m ∈ ls, ∃ rest, Front m rest := fun m mem =>
    splits.front m (List.mem_append_left ls' mem)
  have whole := front
  generalize eq : textOf ls ++ rest = behind at front
  cases front with
  | whitespace blank => exact .whitespace blank
  | lineComment noLineFeed ends =>
    refine .lineComment noLineFeed ?_
    cases ls with
    | nil => exact absurd rfl (closed.comment _ rfl)
    | cons m ms =>
      -- The comment ends in front of the next lexeme, which stays.
      obtain ⟨_, next⟩ := fronts m List.mem_cons_self
      obtain ⟨c, cs, first⟩ := List.exists_cons_of_ne_nil next.text_ne_nil
      simpa [← eq, EndsLine, first] using ends
  | blockComment first => exact .blockComment first
  | openComment => cases sound
  | solid _ solid =>
    obtain ⟨kind, token⟩ := solid.token sound
    by_cases none : ls.filterMap wordOf? = []
    · have last : ((l :: ls).filterMap wordOf?).getLast? = some (kind, String.ofList l.text) := by
        simp [wordOf?, token, none]
      obtain ⟨p, -, rfl⟩ := closed.mark _ last
      exact whole.mark_front sound token _
    · obtain ⟨mark, mem, free⟩ := closed.tail.exists_mark fronts none
      obtain ⟨run, more, split⟩ := List.append_of_mem mem
      rw [split, List.append_assoc, List.cons_append] at whole ⊢
      exact whole.alike token sound (alike_of_mark free run _ _)

/-! ## Sequences of lexemes -/

theorem splits_cons_iff : Splits (l.text ++ rest) (l :: ls) ↔ Front l rest ∧ Splits rest ls := by
  constructor
  · intro h
    generalize eq : l.text ++ rest = cs at h
    cases h with
    | cons front splits =>
      obtain rfl := List.append_cancel_left eq
      exact ⟨front, splits⟩
  · exact fun ⟨front, splits⟩ => .cons front splits

theorem Splits.right (h : Splits (textOf ls ++ rest) (ls ++ ls')) : Splits rest ls' := by
  induction ls with
  | nil => exact h
  | cons l ls ih =>
    rw [textOf_cons, List.append_assoc, List.cons_append] at h
    exact ih (splits_cons_iff.1 h).2

/-- Closed lexemes have the same words in front of every other text with words. -/
theorem HasWords.behind (h : HasWords rest' words) (splits : Splits (textOf ls ++ rest) (ls ++ ls'))
    (sound : ∀ l ∈ ls, l.fault = none) (closed : Closed ls) :
    HasWords (textOf ls ++ rest') (ls.filterMap wordOf? ++ words) := by
  induction ls with
  | nil => exact h
  | cons l ls ih =>
    obtain ⟨quiet, others⟩ := List.forall_mem_cons.1 sound
    rw [textOf_cons, List.append_assoc, List.cons_append] at splits
    obtain ⟨front, behind⟩ := splits_cons_iff.1 splits
    have here := (ih behind others closed.tail).cons (front.behind quiet closed behind) quiet
    rw [textOf_cons, List.append_assoc, List.filterMap_cons]
    cases word : wordOf? l <;> simpa [word] using here

/-! ## Tokens of lexemes -/

/-- The tokens among lexemes behind a text. -/
def placed (before : List Char) : List Lexeme → List Token
  | [] => []
  | l :: ls =>
    match l.kind with
    | .token kind => (placeOf before).token kind l.text :: placed (before ++ l.text) ls
    | _ => placed (before ++ l.text) ls

theorem tokensFrom_eq (before : List Char) (ls : List Lexeme) :
    tokensFrom before ls = placed before ls ++ [(placeOf (before ++ textOf ls)).token .eof []] := by
  induction ls generalizing before with
  | nil => simp [tokensFrom, placed]
  | cons l ls ih =>
    rw [tokensFrom, placed, textOf_cons, ← List.append_assoc]
    cases l.kind <;> simp [ih]

theorem placed_append (before : List Char) (ls ls' : List Lexeme) :
    placed before (ls ++ ls') = placed before ls ++ placed (before ++ textOf ls) ls' := by
  induction ls generalizing before with
  | nil => simp [placed]
  | cons l ls ih =>
    rw [List.cons_append, placed, placed, textOf_cons, ← List.append_assoc]
    cases l.kind <;> simp [ih]

theorem words_placed (before : List Char) (ls : List Lexeme) :
    (placed before ls).map Token.word = ls.filterMap wordOf? := by
  have words := words_tokensFrom before ls
  rw [tokensFrom_eq, List.map_append] at words
  exact (List.append_inj' words rfl).1

/-- The tokens stand where their lexemes do. -/
theorem placed_bounds (before : List Char) (nonempty : ∀ l ∈ ls, l.text ≠ []) :
    ∀ t ∈ placed before ls, (before.length : Int) ≤ t.offset ∧ t.offset < t.stop ∧
      t.stop ≤ (before ++ textOf ls).length := by
  induction ls generalizing before with
  | nil => simp [placed]
  | cons l ls ih =>
    obtain ⟨some, others⟩ := List.forall_mem_cons.1 nonempty
    have length := List.length_pos_iff.2 some
    have later : ∀ t ∈ placed (before ++ l.text) ls, (before.length : Int) ≤ t.offset ∧
        t.offset < t.stop ∧ t.stop ≤ (before ++ textOf (l :: ls)).length := by
      intro t mem
      obtain ⟨behind, less, within⟩ := ih (before ++ l.text) others t mem
      simp only [List.length_append, textOf_cons] at behind within ⊢
      omega
    rw [placed]
    split
    · next kind =>
      refine List.forall_mem_cons.2 ⟨?_, later⟩
      rw [Position.stop_token, after_placeOf]
      simp only [Position.token, placeOf, List.length_append, textOf_cons]
      omega
    · exact later

end IdlFront.Lexical
