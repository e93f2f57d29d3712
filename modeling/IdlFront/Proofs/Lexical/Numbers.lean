import IdlFront.Proofs.Lexical.Scanning

/-! # Scanning numbers

* `exponent_cases` — what `Exponent.at` finds: the longest exponent, a broken one, or none.
* `decimal_iff` — a decimal literal stands in front of a rest if and only if it is the one scanned.
* `numberLexeme_hex`, `numberLexeme_decimal` — numbers with `0x` in front, and all others.
-/

namespace IdlFront.Lexical

variable {c e : Char} {cs text sign number rest : List Char} {l l' : Lexeme}

theorem not_isDigit_marker (h : e ∈ ['e', 'E']) : isDigit e = false := by
  simp only [List.mem_cons, List.not_mem_nil, or_false] at h
  obtain rfl | rfl := h <;> rfl

/-! ## Exponents -/

theorem length_le_of_isSign (h : IsSign sign) : sign.length ≤ 1 := by
  simp only [IsSign, List.mem_cons, List.not_mem_nil, or_false] at h
  obtain rfl | rfl | rfl := h <;> simp

theorem longest_sign_iff : Longest IsSign sign cs ↔ sign = signText cs := by
  have scanned : Longest IsSign (signText cs) cs := by
    unfold signText
    split
    · exact ⟨by simp, by simp [IsSign], fun _ _ => length_le_of_isSign⟩
    · exact ⟨by simp, by simp [IsSign], fun _ _ => length_le_of_isSign⟩
    · next noPlus noMinus =>
      refine ⟨List.nil_prefix, by simp [IsSign], ?_⟩
      rintro other ⟨rest, rfl⟩ isSign
      simp only [IsSign, List.mem_cons, List.not_mem_nil, or_false] at isSign
      obtain rfl | rfl | rfl := isSign
      · simp
      · exact absurd rfl (noPlus rest)
      · exact absurd rfl (noMinus rest)
  exact ⟨fun h => h.unique scanned, fun h => h ▸ scanned⟩

theorem front_sign (cs : List Char) : signText cs <+: cs :=
  (longest_sign_iff.2 rfl).front

/-- No sign is a digit, so a sign in front of digits is the one that is scanned. -/
theorem signText_append (isSign : IsSign sign) (digits : startsWithDigit rest = true) :
    signText (sign ++ rest) = sign := by
  simp only [IsSign, List.mem_cons, List.not_mem_nil, or_false] at isSign
  obtain rfl | rfl | rfl := isSign
  · cases rest with
    | nil => rfl
    | cons c rest =>
      unfold signText
      split
      · simp_all [startsWithDigit, isDigit]
      · simp_all [startsWithDigit, isDigit]
      · rfl
  · rfl
  · rfl

theorem startsWithDigit_iff : startsWithDigit cs = true ↔ cs.takeWhile isDigit ≠ [] := by
  cases cs with
  | nil => simp [startsWithDigit]
  | cons c cs => by_cases digit : isDigit c = true <;> simp [startsWithDigit, digit]

theorem startsWithDigit_append {digits : List Char} (h : Digits digits) :
    startsWithDigit (digits ++ rest) = true := by
  obtain ⟨nonempty, inside⟩ := h
  obtain ⟨d, ds, rfl⟩ := List.exists_cons_of_ne_nil nonempty
  exact inside d List.mem_cons_self

/-- An exponent is found, as long as can be; or a marker with no digits behind it; or no marker. -/
theorem exponent_cases (cs : List Char) :
    (∃ x, Exponent.at cs = .complete x ∧ Longest IsExponent x cs) ∨
    (∃ e sign rest, Exponent.at cs = .broken (e :: sign) ∧ e ∈ ['e', 'E'] ∧
      cs = e :: (sign ++ rest) ∧ Longest IsSign sign (sign ++ rest) ∧
      ∀ x, IsExponent x → ¬ x <+: cs) ∨
    (Exponent.at cs = .absent ∧ ∀ c, cs.head? = some c → c ∉ ['e', 'E']) := by
  cases cs with
  | nil => exact .inr (.inr ⟨rfl, nofun⟩)
  | cons e cs =>
    by_cases marker : e ∈ ['e', 'E']
    · have same : e = 'e' ∨ e = 'E' := by simpa using marker
      have split := append_drop_of_front (front_sign cs)
      simp only [Exponent.at, same, if_true]
      generalize eq : cs.drop (signText cs).length = rest at split ⊢
      -- What an exponent at the front looks like: its sign is the one scanned.
      have shape : ∀ x, IsExponent x → x <+: e :: cs → startsWithDigit rest = true ∧
          x.length ≤ (e :: signText cs ++ rest.takeWhile isDigit).length := by
        rintro x ⟨e', -, sign, digits, isSign, isDigits, rfl⟩ ⟨more, eq'⟩
        simp only [List.cons_append, List.append_assoc, List.cons.injEq] at eq'
        have starts : startsWithDigit (digits ++ more) = true := startsWithDigit_append isDigits
        have signs : signText cs = sign := eq'.2 ▸ signText_append isSign starts
        rw [signs, ← eq'.2] at split
        obtain rfl := List.append_cancel_left split
        refine ⟨starts, ?_⟩
        rw [signs, List.takeWhile_append_of_pos isDigits.2]
        simp only [List.length_cons, List.length_append, List.cons_append]
        omega
      by_cases digits : startsWithDigit rest = true
      · rw [if_pos digits]
        refine .inl ⟨_, rfl, ⟨?_, ?_, fun x front isExponent => (shape x isExponent front).2⟩⟩
        · obtain ⟨more, run⟩ := List.takeWhile_prefix (l := rest) isDigit
          exact ⟨more, by simp [run, split]⟩
        · exact ⟨e, marker, signText cs, rest.takeWhile isDigit, (longest_sign_iff.2 rfl).mem,
            ⟨startsWithDigit_iff.1 digits, (longest_takeWhile isDigit rest).mem⟩, rfl⟩
      · rw [if_neg digits]
        refine .inr (.inl ⟨e, signText cs, rest, rfl, marker, by rw [split], ?_, ?_⟩)
        · rw [split]
          exact longest_sign_iff.2 rfl
        · exact fun x isExponent front => digits (shape x isExponent front).1
    · refine .inr (.inr ⟨?_, by simpa using marker⟩)
      have other : ¬ (e = 'e' ∨ e = 'E') := by simpa using marker
      simp [Exponent.at, other]

/-! ## Decimal literals -/

/-- The digits at the front of a text, with the fraction behind them if there is one. -/
def numberText (cs : List Char) : List Char :=
  cs.takeWhile isDigit ++ fractionText (cs.drop (cs.takeWhile isDigit).length)

theorem fractionText_eq_nil_or (cs : List Char) : fractionText cs = [] ∨
    ∃ part, Digits part ∧ part <+: cs.tail ∧ fractionText cs = '.' :: part ∧ cs.head? = some '.' := by
  unfold fractionText
  split
  · next cs =>
    by_cases digits : startsWithDigit cs = true
    · rw [if_pos digits]
      exact .inr ⟨_, ⟨startsWithDigit_iff.1 digits, (longest_takeWhile isDigit cs).mem⟩,
        List.takeWhile_prefix isDigit, rfl, rfl⟩
    · rw [if_neg digits]
      exact .inl rfl
  · exact .inl rfl

theorem front_number (cs : List Char) : numberText cs <+: cs := by
  have split := append_drop_of_front (List.takeWhile_prefix (l := cs) isDigit)
  conv => rhs; rw [← split]
  unfold numberText
  rw [List.prefix_append_right_inj]
  obtain none | ⟨part, -, front, some, head⟩ := fractionText_eq_nil_or (cs.drop (cs.takeWhile isDigit).length)
  · rw [none]
    exact List.nil_prefix
  · rw [some]
    obtain ⟨more, eq⟩ := List.head?_eq_some_iff.1 head
    rw [eq] at front ⊢
    exact List.cons_prefix_cons.2 ⟨rfl, front⟩

/-- A fraction at the front of a text shows in the number there, which is at least as long, and just
    as long where no digit follows the fraction. -/
theorem numberText_fraction (fraction : IsFraction text) (rest : List Char) :
    IsFraction (numberText (text ++ rest)) ∧ text.length ≤ (numberText (text ++ rest)).length ∧
      (startsWithDigit rest = false → numberText (text ++ rest) = text) := by
  obtain ⟨whole, part, isWhole, isPart, rfl⟩ := fraction
  have digits : (whole ++ '.' :: part ++ rest).takeWhile isDigit = whole := by
    rw [List.append_assoc]
    apply takeWhile_run isWhole.2
    rintro c ⟨⟩
    rfl
  have starts : startsWithDigit (part ++ rest) = true := startsWithDigit_append isPart
  have same : numberText (whole ++ '.' :: part ++ rest) =
      whole ++ '.' :: (part ++ rest.takeWhile isDigit) := by
    unfold numberText
    rw [digits, List.append_assoc, List.drop_left]
    simp [fractionText, starts, List.takeWhile_append_of_pos isPart.2]
  -- Digits in the rest lengthen the fraction, and nothing else does.
  rw [same]
  refine ⟨⟨whole, _, isWhole, ⟨by simp [isPart.1], ?_⟩, rfl⟩, by simp, ?_⟩
  · rintro c mem
    obtain inside | more := List.mem_append.1 mem
    · exact isPart.2 c inside
    · exact List.mem_takeWhile_imp more
  · intro ends
    have none : rest.takeWhile isDigit = [] := by
      by_contra some
      simp [startsWithDigit_iff.2 some] at ends
    rw [none, List.append_nil]

/-- The number in front of an exponent is the number that is scanned. -/
theorem numberText_append (isNumber : IsFraction number ∨ Digits number) (marker : e ∈ ['e', 'E']) :
    numberText (number ++ e :: rest) = number := by
  have noDigit := not_isDigit_marker marker
  obtain fraction | digits := isNumber
  · exact (numberText_fraction fraction _).2.2 noDigit
  · have run : (number ++ e :: rest).takeWhile isDigit = number := by
      apply takeWhile_run digits.2
      rintro c ⟨⟩
      exact noDigit
    have noPoint : fractionText (e :: rest) = [] := by
      simp only [List.mem_cons, List.not_mem_nil, or_false] at marker
      obtain rfl | rfl := marker <;> rfl
    unfold numberText
    rw [run, List.drop_left, noPoint, List.append_nil]

/-- A float at the front of a text is a fraction, no longer than the number there, or that number
    with an exponent. -/
theorem float_cases (float : IsFloat text) (front : text <+: cs) :
    (IsFraction (numberText cs) ∧ text.length ≤ (numberText cs).length) ∨
    ∃ x, IsExponent x ∧ text = numberText cs ++ x ∧ x <+: cs.drop (numberText cs).length := by
  obtain ⟨rest, rfl⟩ := front
  obtain fraction | ⟨number, exponent, isNumber, isExponent, rfl⟩ := float
  · obtain ⟨same, le, -⟩ := numberText_fraction fraction rest
    exact .inl ⟨same, le⟩
  · have whole := isExponent
    obtain ⟨e, marker, sign, digits, -, -, rfl⟩ := whole
    have same : numberText (number ++ e :: (sign ++ digits) ++ rest) = number := by
      rw [List.append_assoc]
      exact numberText_append isNumber marker
    refine .inr ⟨_, isExponent, by rw [same], ?_⟩
    rw [same, List.append_assoc, List.drop_left]
    exact List.prefix_append _ _

/-- There is no marker of an exponent in a fraction. -/
theorem not_isFraction_exponent {x : List Char} (isExponent : IsExponent x) :
    ¬ IsFraction (number ++ x) := by
  obtain ⟨e, marker, sign, digits, -, -, rfl⟩ := isExponent
  rintro ⟨whole, part, isWhole, isPart, eq⟩
  have mem : e ∈ whole ++ '.' :: part := eq ▸ by simp
  have noDigit := not_isDigit_marker marker
  rw [List.mem_append, List.mem_cons] at mem
  obtain inside | rfl | inside := mem
  · simp [isWhole.2 e inside] at noDigit
  · simp at marker
  · simp [isPart.2 e inside] at noDigit

theorem longest_number (fraction : IsFraction (numberText cs))
    (noExponent : ∀ x, IsExponent x → ¬ x <+: cs.drop (numberText cs).length) :
    Longest IsFloat (numberText cs) cs where
  front := front_number cs
  mem := .inl fraction
  longest := by
    intro other front float
    obtain ⟨-, le⟩ | ⟨x, isExponent, -, front⟩ := float_cases float front
    · exact le
    · exact absurd front (noExponent x isExponent)

/-- The number in front of an exponent has a fraction or is all digits. -/
theorem number_cases (starts : startsWithDigit cs = true) :
    fractionText (cs.drop (cs.takeWhile isDigit).length) = [] ∧ numberText cs = cs.takeWhile isDigit ∨
      (∃ part, fractionText (cs.drop (cs.takeWhile isDigit).length) = '.' :: part) ∧
        IsFraction (numberText cs) := by
  obtain none | ⟨part, isPart, -, some, -⟩ :=
    fractionText_eq_nil_or (cs.drop (cs.takeWhile isDigit).length)
  · exact .inl ⟨none, by rw [numberText, none, List.append_nil]⟩
  · exact .inr ⟨⟨part, some⟩, _, part,
      ⟨startsWithDigit_iff.1 starts, (longest_takeWhile isDigit cs).mem⟩, isPart, by rw [numberText, some]⟩

/-- Without a fraction and without an exponent no float is at the front. -/
theorem decimal_integer (starts : startsWithDigit cs = true)
    (same : numberText cs = cs.takeWhile isDigit)
    (noExponent : ∀ x, IsExponent x → ¬ x <+: cs.drop (numberText cs).length) :
    Decimal (.sound (.token .integer) (numberText cs)) (cs.drop (numberText cs).length) := by
  have split := append_drop_of_front (front_number cs)
  refine .integer ?_ ?_
  · rw [split]
    intro other float front
    obtain ⟨⟨whole, part, isWhole, -, eq⟩, -⟩ | ⟨x, isExponent, -, front⟩ := float_cases float front
    · rw [same] at eq
      have point : '.' ∈ cs.takeWhile isDigit := eq ▸ by simp
      exact absurd (List.mem_takeWhile_imp point) (by decide)
    · exact noExponent x isExponent front
  · rw [split, longest_digits_iff]
    exact ⟨same, same ▸ startsWithDigit_iff.1 starts⟩

theorem decimal_sound (starts : startsWithDigit cs = true) :
    ∃ rest, cs = (decimalLexeme cs).text ++ rest ∧ Decimal (decimalLexeme cs) rest := by
  have nonempty := startsWithDigit_iff.1 starts
  have split := append_drop_of_front (front_number cs)
  have number : cs.takeWhile isDigit ++ fractionText (cs.drop (cs.takeWhile isDigit).length) =
      numberText cs := rfl
  simp only [decimalLexeme, number]
  obtain ⟨x, found, longest⟩ | ⟨e, sign, rest, found, marker, eq, longest, none⟩ | ⟨found, noMarker⟩ :=
    exponent_cases (cs.drop (numberText cs).length)
  · -- The number with its exponent is the longest float.
    rw [found]
    obtain ⟨rest, eq⟩ := longest.front
    have whole : cs = numberText cs ++ x ++ rest := by rw [List.append_assoc, eq, split]
    refine ⟨rest, whole, .float ?_ fun fraction => absurd fraction (not_isFraction_exponent longest.mem)⟩
    refine ⟨List.prefix_append _ _, .inr ⟨_, x, ?_, longest.mem, rfl⟩, ?_⟩
    · obtain ⟨-, same⟩ | ⟨-, fraction⟩ := number_cases starts
      · exact .inr (same ▸ ⟨nonempty, (longest_takeWhile isDigit cs).mem⟩)
      · exact .inl fraction
    · rw [← whole]
      intro other front float
      obtain ⟨-, le⟩ | ⟨y, isExponent, rfl, behind⟩ := float_cases float front
      · simp only [List.length_append]
        omega
      · have := longest.longest y behind isExponent
        simp only [List.length_append]
        omega
  · -- A broken exponent belongs to the number just if this has a fraction.
    rw [found]
    obtain ⟨noFraction, same⟩ | ⟨⟨part, fractionEq⟩, fraction⟩ := number_cases starts
    · rw [noFraction]
      exact ⟨_, split.symm, decimal_integer starts same none⟩
    · rw [fractionEq]
      have whole : cs = numberText cs ++ e :: (sign ++ rest) := by rw [← eq, split]
      refine ⟨rest, by simpa using whole, .brokenFloat ?_ fraction marker longest⟩
      rw [← whole]
      exact longest_number fraction none
  · -- Nothing behind the number looks like an exponent.
    rw [found]
    have noExponent : ∀ x, IsExponent x → ¬ x <+: cs.drop (numberText cs).length := by
      rintro x ⟨e, marker, sign, digits, -, -, rfl⟩ ⟨more, eq⟩
      exact noMarker e (by rw [← eq]; rfl) marker
    obtain ⟨noFraction, same⟩ | ⟨⟨part, fractionEq⟩, fraction⟩ := number_cases starts
    · rw [noFraction]
      exact ⟨_, split.symm, decimal_integer starts same noExponent⟩
    · rw [fractionEq]
      refine ⟨_, split.symm, .float ?_ fun _ => noMarker⟩
      rw [split]
      exact longest_number fraction noExponent

/-- A float that ends there is not the number of a broken one. -/
theorem not_broken_of_float {rest' : List Char} (longest : Longest IsFloat text (text ++ rest))
    (plain : IsFraction text → ∀ c, rest.head? = some c → c ∉ ['e', 'E'])
    (longest' : Longest IsFloat number (number ++ e :: rest')) (fraction : IsFraction number)
    (marker : e ∈ ['e', 'E']) : text ++ rest ≠ number ++ e :: rest' := by
  intro same
  rw [same] at longest
  obtain rfl := longest.unique longest'
  rw [List.append_cancel_left same] at plain
  exact plain fraction e rfl marker

/-- Only one decimal literal is in front of a text. -/
theorem Decimal.unique {rest' : List Char} (h : Decimal l rest) (h' : Decimal l' rest')
    (same : l.text ++ rest = l'.text ++ rest') : l = l' := by
  cases h with
  | @float text rest longest plain =>
    simp only [Lexeme.sound] at same
    -- Two floats are both the longest one; with a float at the front nothing else is there.
    cases h' with
    | float longest' =>
      simp only [Lexeme.sound] at same
      rw [same] at longest
      rw [longest.unique longest']
    | brokenFloat longest' fraction marker =>
      simp only [List.append_assoc, List.cons_append] at same
      exact absurd same (not_broken_of_float longest plain longest' fraction marker)
    | integer none =>
      simp only [Lexeme.sound] at same
      rw [← same] at none
      exact absurd longest.front (none _ longest.mem)
  | @brokenFloat number sign rest e longest fraction marker signs =>
    simp only [List.append_assoc, List.cons_append] at same
    cases h' with
    | float longest' plain =>
      simp only [Lexeme.sound] at same
      exact absurd same.symm (not_broken_of_float longest' plain longest fraction marker)
    | brokenFloat longest' _ _ signs' =>
      simp only [List.append_assoc, List.cons_append] at same
      rw [same] at longest
      obtain rfl := longest.unique longest'
      obtain ⟨rfl, tails⟩ := List.cons.inj (List.append_cancel_left same)
      rw [tails] at signs
      rw [signs.unique signs']
    | integer none =>
      simp only [Lexeme.sound] at same
      rw [← same] at none
      exact absurd longest.front (none _ longest.mem)
  | @integer text rest none digits =>
    simp only [Lexeme.sound] at same
    cases h' with
    | float longest =>
      simp only [Lexeme.sound] at same
      rw [same] at none
      exact absurd longest.front (none _ longest.mem)
    | brokenFloat longest =>
      simp only [List.append_assoc, List.cons_append] at same
      rw [same] at none
      exact absurd longest.front (none _ longest.mem)
    | integer _ digits' =>
      simp only [Lexeme.sound] at same
      rw [same] at digits
      rw [digits.unique digits']

theorem Decimal.starts (h : Decimal l rest) : startsWithDigit (l.text ++ rest) = true := by
  have ofFloat : ∀ {text cs}, IsFloat text → startsWithDigit (text ++ cs) = true := by
    rintro text cs (⟨whole, part, isWhole, -, rfl⟩ | ⟨number, x, isNumber, -, rfl⟩)
    · rw [List.append_assoc]
      exact startsWithDigit_append isWhole
    · obtain ⟨whole, part, isWhole, -, rfl⟩ | digits := isNumber
      · rw [List.append_assoc, List.append_assoc]
        exact startsWithDigit_append isWhole
      · rw [List.append_assoc]
        exact startsWithDigit_append digits
  cases h with
  | float longest => exact ofFloat longest.mem
  | brokenFloat longest =>
    rw [List.append_assoc]
    exact ofFloat longest.mem
  | integer _ digits => exact startsWithDigit_append digits.mem

/-- A decimal literal stands in front of a rest if and only if it is the one that is scanned. -/
theorem decimal_iff : Decimal l rest ↔
    startsWithDigit (l.text ++ rest) = true ∧ decimalLexeme (l.text ++ rest) = l := by
  constructor
  · intro h
    obtain ⟨rest', split, scanned⟩ := decimal_sound h.starts
    exact ⟨h.starts, (h.unique scanned split).symm⟩
  · rintro ⟨starts, scanned⟩
    obtain ⟨rest', split, found⟩ := decimal_sound starts
    rw [scanned] at split found
    rwa [List.append_cancel_left split]

/-! ## Numbers -/

theorem numberLexeme_decimal (no : ¬ HexAhead cs) : numberLexeme cs = decimalLexeme cs := by
  unfold numberLexeme
  split
  · next x rest =>
    rw [if_neg]
    intro marker
    exact no ⟨x, by simpa using marker, rest, rfl⟩
  · rfl

theorem numberLexeme_hex {x : Char} (marker : x ∈ ['x', 'X']) :
    numberLexeme ('0' :: x :: cs) = match cs.takeWhile isHexDigit with
      | [] => ⟨.token .hex, ['0', x], some (.missingHexDigits (String.ofList ['0', x]))⟩
      | digits => .sound (.token .hex) ('0' :: x :: digits) := by
  have marker : x = 'x' ∨ x = 'X' := by simpa using marker
  unfold numberLexeme
  exact if_pos marker

end IdlFront.Lexical
