import IdlFront.Proofs.Lexical.Decomposition

/-! # How far tokens look ahead

A token ends where it does because of what stands behind it, but it only looks at a run of characters
that tokens can hold. What stands behind that run does not matter to it.

* `isInner` — the characters of numbers, UUIDs and words.
* `Solid.head` — no sound token starts like trivia.
* `Alike` — a rest that goes on like another one, as far as a token can look.
* `Front.alike` — a token in front of a rest is in front of every rest that goes on alike.
* `Separated`, `Front.separated` — a rest before which every token ends.
* `alike_of_mark` — rests that part behind a mark.
-/

namespace IdlFront.Lexical

variable {c : Char} {text rest rest' other : List Char} {l : Lexeme}

/-! ## Characters inside tokens -/

/-- The characters of numbers, UUIDs and words. -/
def isInner (c : Char) : Bool :=
  isHexDigit c || isIdentifierContinue c || c == '.' || c == '+' || c == '-'

theorem inner_of_digits (run : Run isDigit text) : Run isInner text := fun c mem => by
  simp [isInner, isHexDigit_of_isDigit (run c mem)]

theorem inner_of_hexDigits (run : Run isHexDigit text) : Run isInner text := fun c mem => by
  simp [isInner, run c mem]

theorem inner_of_continue (run : Run isIdentifierContinue text) : Run isInner text := fun c mem => by
  simp [isInner, run c mem]

theorem Run.append {C : Char → Bool} (h : Run C text) (h' : Run C other) : Run C (text ++ other) :=
  List.forall_mem_append.2 ⟨h, h'⟩

theorem Run.cons {C : Char → Bool} (h : C c = true) (h' : Run C text) : Run C (c :: text) :=
  List.forall_mem_cons.2 ⟨h, h'⟩

/-- What stands in literals besides digits. -/
def markers : List Char := ['.', '+', '-', 'e', 'E', '0', 'x', 'X']

theorem marker_inner (mem : c ∈ markers) : isInner c = true := by
  have inner : markers.all isInner = true := by decide +kernel
  exact List.all_eq_true.1 inner c mem

theorem exponentMarker_inner {e : Char} (marker : e ∈ ['e', 'E']) : isInner e = true := by
  have sub : ['e', 'E'] ⊆ markers := by simp [markers]
  exact marker_inner (sub marker)

theorem hexMarker_inner {x : Char} (marker : x ∈ ['x', 'X']) : isInner x = true := by
  have sub : ['x', 'X'] ⊆ markers := by simp [markers]
  exact marker_inner (sub marker)

theorem IsFraction.inner (h : IsFraction text) : Run isInner text := by
  obtain ⟨whole, part, digits, digits', rfl⟩ := h
  have point : isInner '.' = true := marker_inner (by simp [markers])
  exact (inner_of_digits digits.2).append ((inner_of_digits digits'.2).cons point)

theorem IsSign.inner (h : IsSign text) : Run isInner text := by
  have signs : ∀ sign ∈ [[], ['+'], ['-']], sign ⊆ markers := by simp [markers]
  exact fun c mem => marker_inner (signs text h mem)

theorem IsExponent.inner (h : IsExponent text) : Run isInner text := by
  obtain ⟨e, marker, sign, digits, isSign, isDigits, rfl⟩ := h
  exact (isSign.inner.append (inner_of_digits isDigits.2)).cons (exponentMarker_inner marker)

theorem IsFloat.inner (h : IsFloat text) : Run isInner text := by
  obtain fraction | ⟨number, exponent, fraction | digits, isExponent, rfl⟩ := h
  · exact fraction.inner
  · exact fraction.inner.append isExponent.inner
  · exact (inner_of_digits digits.2).append isExponent.inner

theorem IsUuid.inner (h : IsUuid text) : Run isInner text := by
  obtain ⟨a, b, c, d, e, -, runs, rfl⟩ := h
  have group : ∀ g ∈ [a, b, c, d, e], Run isInner g := fun g mem => inner_of_hexDigits (runs g mem)
  have hyphen : isInner '-' = true := marker_inner (by simp [markers])
  simp only [List.forall_mem_cons] at group
  obtain ⟨ha, hb, hc, hd, he, -⟩ := group
  exact ha.append ((hb.append ((hc.append ((hd.append (he.cons hyphen)).cons hyphen)).cons
    hyphen)).cons hyphen)

/-! ## Hyphens

A UUID has four hyphens, so no float and no word is one. -/

theorem count_hyphen_of_run {C : Char → Bool} (free : C '-' = false) (run : Run C text) :
    text.count '-' = 0 := by
  refine List.count_eq_zero.2 fun mem => ?_
  have inside := run _ mem
  rw [free] at inside
  cases inside

theorem IsFraction.count_hyphen (h : IsFraction text) : text.count '-' = 0 := by
  obtain ⟨whole, part, digits, digits', rfl⟩ := h
  have first := count_hyphen_of_run rfl digits.2
  have second := count_hyphen_of_run rfl digits'.2
  rw [List.count_append, first, List.count_cons, second]
  rfl

theorem IsExponent.count_hyphen (h : IsExponent text) : text.count '-' ≤ 1 := by
  obtain ⟨e, marker, sign, digits, isSign, isDigits, rfl⟩ := h
  have markers : ∀ e ∈ ['e', 'E'], (e == '-') = false := by simp
  have signs : ∀ sign ∈ [[], ['+'], ['-']], sign.count '-' ≤ 1 := by simp
  rw [List.count_cons, markers e marker, List.count_append, count_hyphen_of_run rfl isDigits.2]
  exact signs sign isSign

theorem IsFloat.count_hyphen (h : IsFloat text) : text.count '-' ≤ 1 := by
  obtain fraction | ⟨number, exponent, number', isExponent, rfl⟩ := h
  · rw [fraction.count_hyphen]
    exact Nat.zero_le 1
  · have none : number.count '-' = 0 :=
      number'.elim IsFraction.count_hyphen fun digits => count_hyphen_of_run rfl digits.2
    rw [List.count_append, none, Nat.zero_add]
    exact isExponent.count_hyphen

theorem IsUuid.count_hyphen (h : IsUuid text) : 1 < text.count '-' := by
  obtain ⟨a, b, c, d, e, -, -, rfl⟩ := h
  simp only [List.count_append, List.count_cons_self]
  omega

theorem Decimal.not_uuid (h : Decimal l rest) (sound : l.fault = none) : ¬ IsUuid l.text := by
  intro uuid
  have some := uuid.count_hyphen
  cases h with
  | float longest => exact absurd some (Nat.not_lt.2 longest.mem.count_hyphen)
  | brokenFloat => cases sound
  | integer _ longest =>
    have none := count_hyphen_of_run rfl longest.mem.2
    simp only [Lexeme.sound] at some
    omega

theorem not_uuid_of_word (start : isIdentifierStart c = true)
    (run : Run isIdentifierContinue text) : ¬ IsUuid (c :: text) := by
  intro uuid
  have some := uuid.count_hyphen
  have first : c ≠ '-' := by
    rintro rfl
    exact absurd start (by decide +kernel)
  rw [List.count_cons_of_ne first, count_hyphen_of_run (by decide +kernel) run] at some
  omega

/-! ## First characters -/

/-- The characters that trivia start with. -/
def separators : List Char := '/' :: whitespace

/-- No separator is inside a token or starts one. -/
theorem separators_free : ∀ c ∈ separators, isInner c = false ∧ isIdentifierStart c = false := by
  have free : separators.all (fun c => !isInner c && !isIdentifierStart c) = true := by
    decide +kernel
  intro c mem
  simpa using List.all_eq_true.1 free c mem

/-- No trivia starts inside the text. -/
def Unbroken (text : List Char) : Prop := ∀ c ∈ text, c ∉ separators

theorem Run.unbroken (run : Run isInner text) : Unbroken text := by
  intro c mem separator
  have inside := run c mem
  rw [(separators_free c separator).1] at inside
  cases inside

theorem not_separator_of_start (start : isIdentifierStart c = true) : c ∉ separators := by
  intro separator
  rw [(separators_free c separator).2] at start
  cases start

/-- A sound token does not start like trivia. -/
theorem Solid.head (h : Solid l rest) (sound : l.fault = none) (first : l.text.head? = some c) :
    c ∉ separators := by
  have inside : Run isInner l.text → c ∉ separators := fun run =>
    run.unbroken c (List.mem_of_head? first)
  -- Strings and punctuation begin with a character of their own, all else with one that goes on inside.
  cases h with
  | punctuation p =>
    cases first
    cases p <;> decide
  | string isString =>
    obtain ⟨body, -, rfl⟩ := isString
    cases first
    decide
  | uuid isUuid => exact inside isUuid.inner
  | hex =>
    cases first
    decide
  | decimal _ _ decimal =>
    cases decimal with
    | float longest => exact inside longest.mem.inner
    | integer _ longest => exact inside (inner_of_digits longest.mem.2)
    | brokenFloat => cases sound
  | word _ _ start =>
    cases first
    exact not_separator_of_start start
  | _ => cases sound

/-- Where a sound token stands there is no trivia. -/
theorem Solid.front (h : Solid l rest) (sound : l.fault = none) : Front l rest := by
  obtain ⟨c, cs, eq⟩ := List.exists_cons_of_ne_nil h.text_ne_nil
  have visible : c ∉ separators := h.head sound (by rw [eq]; rfl)
  have starts : ∀ mark, '/' :: mark <+: c :: cs ++ rest → False := by
    rintro mark ⟨tail, same⟩
    obtain ⟨rfl, -⟩ := List.cons.inj same
    exact visible List.mem_cons_self
  refine .solid ?_ h
  rw [eq]
  refine ⟨?_, starts _, starts _⟩
  rintro d ⟨⟩ blank
  exact visible (List.mem_cons_of_mem _ blank)

/-! ## Rests that go on alike -/

/-- What is in front of an append is in front of its first part or goes on into the second one. -/
theorem prefix_append_cases (h : other <+: text ++ rest) :
    other <+: text ∨ ∃ more, other = text ++ more ∧ more <+: rest := by
  by_cases le : other.length ≤ text.length
  · exact .inl (List.prefix_of_prefix_length_le h (List.prefix_append text rest) le)
  · obtain ⟨more, rfl⟩ := List.prefix_of_prefix_length_le (List.prefix_append text rest) h
      (by omega)
    exact .inr ⟨more, rfl, (List.prefix_append_right_inj text).1 h⟩

/-- Behind the text the second rest goes on with no run of inner characters that the first one does
    not go on with, and with no UUID. -/
structure Alike (text rest rest' : List Char) : Prop where
  inner : ∀ run, Run isInner run → run <+: rest' → run <+: rest
  uuid : ¬ IsUuid text → ¬ UuidAhead (text ++ rest) → ¬ UuidAhead (text ++ rest')

namespace Alike

variable (h : Alike text rest rest')

include h

theorem front {before : List Char} (run : Run isInner other) (front : other <+: before ++ rest') :
    other <+: before ++ rest := by
  obtain within | ⟨more, rfl, behind⟩ := prefix_append_cases front
  · exact within.trans (List.prefix_append before rest)
  · exact (List.prefix_append_right_inj before).2
      (h.inner more (List.forall_mem_append.1 run).2 behind)

theorem head (inner : isInner c = true) (head : rest'.head? = some c) : rest.head? = some c := by
  obtain ⟨more, rfl⟩ := List.head?_eq_some_iff.1 head
  obtain ⟨more', rfl⟩ := h.inner [c] (by simpa [Run] using inner) ⟨more, rfl⟩
  rfl

theorem longest {L : List Char → Prop} {run : List Char} (inner : ∀ w, L w → Run isInner w)
    (longest : Longest L run (run ++ rest)) : Longest L run (run ++ rest') where
  front := List.prefix_append _ _
  mem := longest.mem
  longest other front mem := longest.longest other (h.front (inner other mem) front) mem

theorem hexAhead (no : ¬ HexAhead (text ++ rest)) : ¬ HexAhead (text ++ rest') := by
  rintro ⟨x, marker, front⟩
  have inner : Run isInner ['0', x] := by
    have zero : isInner '0' = true := marker_inner (by simp [markers])
    simp [Run, zero, hexMarker_inner marker]
  exact no ⟨x, marker, h.front inner front⟩

end Alike

theorem Decimal.alike (h : Decimal l rest) (sound : l.fault = none)
    (alike : Alike text rest rest') : Decimal l rest' := by
  cases h with
  | float longest complete =>
    refine .float (alike.longest (fun _ => IsFloat.inner) longest) fun fraction c head marker => ?_
    exact complete fraction c (alike.head (exponentMarker_inner marker) head) marker
  | brokenFloat => cases sound
  | integer noFloat longest =>
    exact .integer (fun other float front => noFloat other float (alike.front float.inner front))
      (alike.longest (fun _ digits => inner_of_digits digits.2) longest)

theorem Solid.alike (h : Solid l rest) (sound : l.fault = none) (alike : Alike l.text rest rest') :
    Solid l rest' := by
  cases h with
  | punctuation p => exact .punctuation p
  | string isString => exact .string isString
  | openString => cases sound
  | uuid isUuid ends =>
    refine .uuid isUuid fun c head => ?_
    by_cases inner : isInner c = true
    · exact ends c (alike.head inner head)
    · simp only [isInner, Bool.or_eq_true, not_or, Bool.not_eq_true, beq_eq_false_iff_ne] at inner
      exact ⟨inner.2, inner.1.1.1.2⟩
  | hex marker nonempty longest =>
    exact .hex marker nonempty (alike.longest (fun _ => inner_of_hexDigits) longest)
  | emptyHex => cases sound
  | decimal noUuid noHex decimal =>
    exact .decimal (alike.uuid (decimal.not_uuid sound) noUuid) (alike.hexAhead noHex)
      (decimal.alike sound alike)
  | word noUuid noDigit start longest isWord =>
    exact .word (alike.uuid (not_uuid_of_word start longest.mem) noUuid) noDigit start
      (alike.longest (fun _ => inner_of_continue) longest) isWord
  | rejected => cases sound

/-- A token is the same token before every rest that goes on alike. -/
theorem Front.alike (h : Front l rest) {kind : TokenKind} (token : l.kind = .token kind)
    (sound : l.fault = none) (alike : Alike l.text rest rest') : Front l rest' := by
  cases h with
  | solid _ solid => exact (solid.alike sound alike).front sound
  | _ => cases token

/-! ## Where tokens end -/

/-- No inner character comes next. -/
def Stopped (rest : List Char) : Prop := ∀ c, rest.head? = some c → isInner c = false

/-- Nothing comes next, or the start of trivia. -/
def Separated (rest : List Char) : Prop := ∀ c, rest.head? = some c → c ∈ separators

theorem Separated.stopped (h : Separated rest) : Stopped rest := fun c head =>
  (separators_free c (h c head)).1

/-- A run of inner characters in front of a text with a stopped rest is in front of the text. -/
theorem Stopped.front (h : Stopped rest) (run : Run isInner other) (front : other <+: text ++ rest) :
    other <+: text := by
  obtain within | ⟨more, rfl, behind⟩ := prefix_append_cases front
  · exact within
  · cases more with
    | nil => simp
    | cons c cs =>
      -- The run would go on with the first character of the rest.
      obtain ⟨tail, rfl⟩ := behind
      have stops := h c rfl
      rw [run c (by simp)] at stops
      cases stops

/-- Where a rest is stopped, no token goes on. -/
theorem Stopped.alike (h : Stopped rest') : Alike text rest rest' where
  inner run inner front := by
    have front : run <+: [] ++ rest' := front
    rw [List.prefix_nil.1 (h.front inner front)]
    exact List.nil_prefix
  uuid noUuid no := by
    rintro ⟨uuid, behind, isUuid, ends, eq⟩
    obtain ⟨more, rfl⟩ := h.front isUuid.inner ⟨behind, eq.symm⟩
    rw [List.append_assoc] at eq
    obtain rfl := List.append_cancel_left eq
    cases more with
    | nil => exact noUuid (by rwa [List.append_nil])
    | cons c cs => exact no ⟨uuid, c :: cs ++ rest, isUuid, ends, List.append_assoc _ _ _⟩

/-- A token is the same token before any trivia. -/
theorem Front.separated (h : Front l rest) {kind : TokenKind} (token : l.kind = .token kind)
    (sound : l.fault = none) (separated : Separated rest') : Front l rest' :=
  h.alike token sound separated.stopped.alike

/-- Rests that part behind a mark go on alike. -/
theorem alike_of_mark {mark : Char} (free : isInner mark = false) (run more more' : List Char) :
    Alike text (run ++ mark :: more) (run ++ mark :: more') := by
  have stopped : Stopped (mark :: more') := by
    rintro c ⟨⟩
    exact free
  refine ⟨fun other inner front => (stopped.front inner front).trans (List.prefix_append _ _), ?_⟩
  rintro - no ⟨uuid, behind, isUuid, ends, eq⟩
  rw [← List.append_assoc] at eq
  obtain ⟨gap, split⟩ := stopped.front isUuid.inner ⟨behind, eq.symm⟩
  rw [← split, List.append_assoc] at eq
  obtain rfl := List.append_cancel_left eq
  refine no ⟨uuid, gap ++ mark :: more, isUuid, ?_, ?_⟩
  · -- What ends the UUID is the mark or stands in front of it.
    cases gap with
    | nil => exact ends
    | cons d gap => exact ends
  · rw [← List.append_assoc, ← split, List.append_assoc]

end IdlFront.Lexical
