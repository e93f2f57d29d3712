import IdlFront.Proofs.Lexical.Numbers

/-! # Source texts as lexemes

* `solid_iff`, `front_iff` — the lexeme in front of a rest is the one that is scanned.
* `Splits.unique` — a text is a sequence of lexemes in one way only.
* `splits_singly` — the lexemes that are scanned, with their blanks taken apart, are that sequence.
* `tokenize_splits` — tokens and diagnostics are those of the sequence.
-/

namespace IdlFront.Lexical

variable {c : Char} {cs text rest rest' : List Char} {l : Lexeme} {ls ls' : List Lexeme}

/-! ## First characters -/

theorem punctuation_ne (p : Punctuation) :
    isHexDigit p.char = false ∧ isIdentifierStart p.char = false := by
  cases p <;> exact ⟨rfl, by decide +kernel⟩

theorem free_of_hexDigit (h : isHexDigit c = true) : Punctuation.ofChar? c = none ∧ c ≠ '"' := by
  refine ⟨punctuation_eq_none_iff.2 ?_, ?_⟩
  · rintro p rfl
    simp [punctuation_ne p] at h
  · rintro rfl
    cases h

theorem free_of_start (h : isIdentifierStart c = true) :
    Punctuation.ofChar? c = none ∧ c ≠ '"' := by
  refine ⟨punctuation_eq_none_iff.2 ?_, ?_⟩
  · rintro p rfl
    simp [punctuation_ne p] at h
  · rintro rfl
    exact absurd h (by decide +kernel)

theorem isHexDigit_of_isDigit (h : isDigit c = true) : isHexDigit c = true := by
  simp [isHexDigit, h]

/-- Hexadecimal digits that are no digits are letters. -/
theorem start_of_hexDigit (h : isHexDigit c = true) (letter : isDigit c = false) :
    isIdentifierStart c = true := by
  have small : ∀ n < 6, isIdentifierStart (Char.ofNat (97 + n)) = true ∧
      isIdentifierStart (Char.ofNat (65 + n)) = true := by
    decide +kernel
  have same : ∀ base n, c.toNat = base + n → c = Char.ofNat (base + n) := by
    intro base n eq
    rw [← eq, Char.ofNat_toNat]
  simp only [isHexDigit, letter, Bool.false_or, Bool.or_eq_true, Bool.and_eq_true,
    decide_eq_true_eq, Char.le_def, UInt32.le_iff_toNat_le] at h
  obtain ⟨low, high⟩ | ⟨low, high⟩ := h
  · have low : 97 ≤ c.toNat := low
    have high : c.toNat ≤ 102 := high
    rw [same 97 (c.toNat - 97) (by omega)]
    exact (small _ (by omega)).1
  · have low : 65 ≤ c.toNat := low
    have high : c.toNat ≤ 70 := high
    rw [same 65 (c.toNat - 65) (by omega)]
    exact (small _ (by omega)).2

theorem IsUuid.starts (h : IsUuid text) :
    ∃ a b more, text = a :: b :: more ∧ isHexDigit a = true ∧ isHexDigit b = true := by
  obtain ⟨group, _, _, _, _, lengths, inside, rfl⟩ := h
  have length : group.length = 8 := (List.cons.inj lengths).1
  have hex : Run isHexDigit group := inside group (by simp)
  match group, length with
  | a :: b :: more, _ => exact ⟨a, b, _, rfl, hex a (by simp), hex b (by simp)⟩

/-- Where the first character or the second one is no hexadecimal digit, there is no UUID. -/
theorem no_uuid (h : isHexDigit c = false ∨ ∃ d rest, cs = d :: rest ∧ isHexDigit d = false) :
    uuidText? (c :: cs) = none := by
  rw [uuidText?_eq_none_iff]
  rintro ⟨text, behind, uuid, -, eq⟩
  obtain ⟨a, b, more, rfl, first, second⟩ := IsUuid.starts uuid
  obtain ⟨rfl, rfl⟩ := List.cons.inj eq
  obtain no | ⟨d, rest, eq, no⟩ := h
  · simp [first] at no
  · obtain ⟨rfl, -⟩ := List.cons.inj eq
    simp [second] at no

/-! ## Tokens -/

theorem solid_punctuation (p : Punctuation) (cs : List Char) :
    Lexeme.solid p.char cs = .sound (.token (.punct p)) [p.char] := by
  rw [Lexeme.solid, punctuation_eq_some_iff.2 rfl]

theorem solid_quote (cs : List Char) : Lexeme.solid '"' cs =
    ⟨.token .string, '"' :: (stringTail cs).1,
      if (stringTail cs).2 then none else some .unterminatedString⟩ :=
  rfl

theorem solid_uuid (found : uuidText? (c :: cs) = some text) :
    Lexeme.solid c cs = .sound (.token .uuid) text := by
  obtain ⟨rest, uuid, -, eq⟩ := uuidText?_eq_some_iff.1 found
  obtain ⟨a, b, more, rfl, hex, -⟩ := IsUuid.starts uuid
  obtain ⟨rfl, -⟩ := List.cons.inj eq
  obtain ⟨free, quote⟩ := free_of_hexDigit hex
  simp [Lexeme.solid, free, quote, found]

theorem solid_number (none : uuidText? (c :: cs) = none) (digit : isDigit c = true) :
    Lexeme.solid c cs = numberLexeme (c :: cs) := by
  obtain ⟨free, quote⟩ := free_of_hexDigit (isHexDigit_of_isDigit digit)
  simp [Lexeme.solid, free, quote, none, digit]

theorem solid_word (none : uuidText? (c :: cs) = none) (noDigit : isDigit c = false)
    (start : isIdentifierStart c = true) : Lexeme.solid c cs =
      .sound (.token (wordKind (c :: cs.takeWhile isIdentifierContinue)))
        (c :: cs.takeWhile isIdentifierContinue) := by
  obtain ⟨free, quote⟩ := free_of_start start
  simp [Lexeme.solid, free, quote, none, noDigit, start]

theorem solid_rejected (free : ∀ p : Punctuation, p.char ≠ c) (quote : c ≠ '"')
    (noDigit : isDigit c = false) (noStart : isIdentifierStart c = false) :
    Lexeme.solid c cs = ⟨.rejected, [c], some (.unexpectedCharacter c)⟩ := by
  have noHex : isHexDigit c = false := by
    rw [Bool.eq_false_iff]
    intro hex
    simp [start_of_hexDigit hex noDigit] at noStart
  have none : uuidText? (c :: cs) = none := no_uuid (.inl noHex)
  simp [Lexeme.solid, punctuation_eq_none_iff.2 free, quote, none, noDigit, noStart]

/-- Behind `0x` stands no UUID. -/
theorem solid_hex {x : Char} (marker : x ∈ ['x', 'X']) :
    Lexeme.solid '0' (x :: rest) = numberLexeme ('0' :: x :: rest) := by
  apply solid_number _ rfl
  apply no_uuid (.inr ⟨_, _, rfl, ?_⟩)
  simp only [List.mem_cons, List.not_mem_nil, or_false] at marker
  obtain rfl | rfl := marker <;> rfl

theorem solid_complete (h : Solid l rest) (same : l.text ++ rest = c :: cs) :
    Lexeme.solid c cs = l := by
  cases h with
  | punctuation p =>
    obtain ⟨rfl, -⟩ := List.cons.inj same
    exact solid_punctuation p cs
  | string isString =>
    obtain ⟨body, isBody, rfl⟩ := isString
    simp only [Lexeme.sound, List.cons_append, List.append_assoc, List.cons.injEq] at same
    obtain ⟨rfl, rfl⟩ := same
    rw [solid_quote, List.nil_append, stringTail_closed isBody]
    rfl
  | @openString body rest noLineFeed ends never =>
    -- That no string is at the front is stated of the whole text, not of the body.
    have scanned : stringTail (body ++ rest) = _ := stringTail_open never
    simp only [List.cons_append, List.cons.injEq] at same
    obtain ⟨rfl, rfl⟩ := same
    rw [solid_quote, scanned, takeWhile_line noLineFeed ends]
    rfl
  | uuid isUuid ends => exact solid_uuid (uuidText?_eq_some_iff.2 ⟨rest, isUuid, ends, same.symm⟩)
  | hex marker nonempty longest =>
    simp only [Lexeme.sound, List.cons_append, List.cons.injEq] at same
    obtain ⟨rfl, rfl⟩ := same
    rw [solid_hex marker, numberLexeme_hex marker, ← longest_run_iff.1 longest]
    obtain ⟨d, ds, rfl⟩ := List.exists_cons_of_ne_nil nonempty
    rfl
  | emptyHex marker longest =>
    simp only [List.cons_append, List.nil_append, List.cons.injEq] at same
    obtain ⟨rfl, rfl⟩ := same
    rw [solid_hex marker, numberLexeme_hex marker, ← longest_run_iff.1 longest]
  | decimal noUuid noHex decimal =>
    obtain ⟨starts, scanned⟩ := decimal_iff.1 decimal
    rw [same] at noUuid noHex starts scanned
    rw [solid_number (uuidText?_eq_none_iff.2 noUuid) starts, numberLexeme_decimal noHex, scanned]
  | @word first run rest kind noUuid noDigit start longest isWord =>
    have none : uuidText? (first :: (run ++ rest)) = none := uuidText?_eq_none_iff.2 noUuid
    simp only [Lexeme.sound, List.cons_append, List.cons.injEq] at same
    obtain ⟨rfl, rfl⟩ := same
    rw [solid_word none noDigit start, ← longest_run_iff.1 longest, isWord_iff.1 isWord]
  | rejected noMark quote noDigit noStart =>
    obtain ⟨rfl, -⟩ := List.cons.inj same
    exact solid_rejected noMark quote noDigit noStart

theorem string_sound (cs : List Char) :
    ∃ rest, '"' :: cs = (Lexeme.solid '"' cs).text ++ rest ∧ Solid (Lexeme.solid '"' cs) rest := by
  rw [solid_quote]
  obtain ⟨body, rest, isBody, rfl, scanned⟩ | scanned := stringTail_spec cs
  · rw [scanned]
    exact ⟨rest, by simp, .string ⟨body, isBody, rfl⟩⟩
  · rw [scanned]
    obtain ⟨noLineFeed, ends⟩ := endsLine_takeWhile cs
    have split := append_drop_of_front (List.takeWhile_prefix (l := cs) (· ≠ '\n'))
    refine ⟨_, congrArg _ split.symm, .openString noLineFeed ends ?_⟩
    rintro text ⟨body, isBody, rfl⟩ ⟨rest, eq⟩
    -- A string at the front would have been scanned to its end.
    have front : cs = body ++ '"' :: rest := by
      simp only [List.cons_append, List.append_assoc, List.nil_append, List.cons.injEq, true_and] at eq
      exact split.symm.trans eq.symm
    rw [front, stringTail_closed isBody] at scanned
    cases (Prod.mk.inj scanned).2

theorem number_sound (none : uuidText? (c :: cs) = none) (digit : isDigit c = true) :
    ∃ rest, c :: cs = (numberLexeme (c :: cs)).text ++ rest ∧ Solid (numberLexeme (c :: cs)) rest := by
  by_cases hex : HexAhead (c :: cs)
  · obtain ⟨x, marker, rest, split⟩ := hex
    rw [← split, List.cons_append, List.cons_append, List.nil_append, numberLexeme_hex marker]
    have longest := longest_takeWhile isHexDigit rest
    have split := append_drop_of_front longest.front
    by_cases none : rest.takeWhile isHexDigit = []
    · rw [none] at longest ⊢
      exact ⟨rest, rfl, .emptyHex marker longest⟩
    · obtain ⟨d, ds, some⟩ := List.exists_cons_of_ne_nil none
      rw [some] at longest split ⊢
      refine ⟨_, congrArg ('0' :: x :: ·) split.symm, .hex marker (List.cons_ne_nil d ds) ?_⟩
      rwa [split]
  · have starts : startsWithDigit (c :: cs) = true := digit
    obtain ⟨rest, split, decimal⟩ := decimal_sound starts
    have noUuid := uuidText?_eq_none_iff.1 none
    rw [numberLexeme_decimal hex]
    exact ⟨rest, split, .decimal (split ▸ noUuid) (split ▸ hex) decimal⟩

theorem word_sound (none : uuidText? (c :: cs) = none) (noDigit : isDigit c = false)
    (start : isIdentifierStart c = true) :
    ∃ rest, c :: cs = (Lexeme.solid c cs).text ++ rest ∧ Solid (Lexeme.solid c cs) rest := by
  have longest := longest_takeWhile isIdentifierContinue cs
  have split := append_drop_of_front longest.front
  rw [solid_word none noDigit start]
  refine ⟨_, congrArg _ split.symm, .word ?_ noDigit start ?_ (isWord_iff.2 rfl)⟩
  · rw [List.cons_append, split]
    exact uuidText?_eq_none_iff.1 none
  · rwa [split]

theorem solid_sound (c : Char) (cs : List Char) :
    ∃ rest, c :: cs = (Lexeme.solid c cs).text ++ rest ∧ Solid (Lexeme.solid c cs) rest := by
  -- The cases in the order in which the first character is looked at.
  cases mark : Punctuation.ofChar? c with
  | some p =>
    obtain rfl := punctuation_eq_some_iff.1 mark
    rw [solid_punctuation]
    exact ⟨cs, rfl, .punctuation p⟩
  | none =>
    by_cases quote : c = '"'
    · subst quote
      exact string_sound cs
    cases found : uuidText? (c :: cs) with
    | some text =>
      obtain ⟨rest, isUuid, ends, split⟩ := uuidText?_eq_some_iff.1 found
      rw [solid_uuid found]
      exact ⟨rest, split, .uuid isUuid ends⟩
    | none =>
      by_cases digit : isDigit c = true
      · rw [solid_number found digit]
        exact number_sound found digit
      rw [Bool.not_eq_true] at digit
      by_cases start : isIdentifierStart c = true
      · exact word_sound found digit start
      · rw [Bool.not_eq_true] at start
        have noMark := punctuation_eq_none_iff.1 mark
        rw [solid_rejected noMark quote digit start]
        exact ⟨cs, rfl, .rejected noMark quote digit start⟩

/-! ## Trivia -/

theorem isBlank_iff : isBlank c = true ↔ c ∈ whitespace := by
  simp [isBlank, whitespace, or_assoc]

theorem first_lineComment (cs : List Char) : Lexeme.first '/' ('/' :: cs) =
    .sound .lineComment ('/' :: '/' :: cs.takeWhile (· ≠ '\n')) :=
  rfl

theorem first_blockComment (cs : List Char) : Lexeme.first '/' ('*' :: cs) =
    ⟨.blockComment, '/' :: '*' :: (blockTail cs).1,
      if (blockTail cs).2 then none else some .unterminatedComment⟩ :=
  rfl

theorem first_blank (blank : isBlank c = true) :
    Lexeme.first c cs = .sound .blank (c :: cs.takeWhile isBlank) := by
  unfold Lexeme.first
  exact if_pos blank

/-- Without a blank and without the start of a comment, the lexeme at the front is no trivia. -/
theorem first_eq_solid (no : NoTrivia (c :: cs)) :
    isBlank c = false ∧ Lexeme.first c cs = Lexeme.solid c cs := by
  obtain ⟨noBlank, noLine, noBlock⟩ := no
  have visible : isBlank c = false := by
    rw [Bool.eq_false_iff, ne_eq, isBlank_iff]
    exact noBlank c rfl
  refine ⟨visible, ?_⟩
  unfold Lexeme.first
  rw [visible, if_neg Bool.false_ne_true]
  split
  · exact absurd ⟨_, rfl⟩ noLine
  · exact absurd ⟨_, rfl⟩ noBlock
  · rfl

/-- The lexeme in front of a rest is the one that is scanned, or one blank. -/
theorem front_complete (h : Front l rest) (same : l.text ++ rest = c :: cs) :
    isBlank c = true ∧ l = .sound .blank [c] ∨ isBlank c = false ∧ Lexeme.first c cs = l := by
  cases h with
  | whitespace blank =>
    obtain ⟨rfl, -⟩ := List.cons.inj same
    exact .inl ⟨isBlank_iff.2 blank, rfl⟩
  | lineComment noLineFeed ends =>
    simp only [Lexeme.sound, List.cons_append, List.cons.injEq] at same
    obtain ⟨rfl, rfl⟩ := same
    rw [first_lineComment, takeWhile_line noLineFeed ends]
    exact .inr ⟨rfl, rfl⟩
  | blockComment first =>
    simp only [Lexeme.sound, List.cons_append, List.append_assoc, List.cons.injEq] at same
    obtain ⟨rfl, rfl⟩ := same
    rw [first_blockComment, List.nil_append, blockTail_closed first]
    exact .inr ⟨rfl, rfl⟩
  | openComment never =>
    simp only [List.append_nil, List.cons.injEq] at same
    obtain ⟨rfl, rfl⟩ := same
    rw [first_blockComment, blockTail_open never]
    exact .inr ⟨rfl, rfl⟩
  | solid no solid =>
    rw [same] at no
    obtain ⟨visible, scanned⟩ := first_eq_solid no
    exact .inr ⟨visible, scanned.trans (solid_complete solid same)⟩

theorem front_sound (visible : isBlank c = false) :
    ∃ rest, c :: cs = (Lexeme.first c cs).text ++ rest ∧ Front (Lexeme.first c cs) rest := by
  by_cases line : ['/', '/'] <+: c :: cs
  · obtain ⟨rest, split⟩ := line
    obtain ⟨rfl, rfl⟩ := List.cons.inj split
    obtain ⟨noLineFeed, ends⟩ := endsLine_takeWhile rest
    have split := append_drop_of_front (List.takeWhile_prefix (l := rest) (· ≠ '\n'))
    exact ⟨_, congrArg ('/' :: '/' :: ·) split.symm, .lineComment noLineFeed ends⟩
  by_cases block : ['/', '*'] <+: c :: cs
  · obtain ⟨rest, split⟩ := block
    obtain ⟨rfl, rfl⟩ := List.cons.inj split
    have scanned : Lexeme.first '/' (['*'].append rest) = _ := first_blockComment rest
    rw [scanned]
    obtain never | ⟨body, rest, rfl, first⟩ := first_close rest
    · rw [blockTail_open never]
      exact ⟨[], by simp, .openComment never⟩
    · rw [blockTail_closed first]
      exact ⟨rest, by simp, .blockComment first⟩
  · have no : NoTrivia (c :: cs) := by
      refine ⟨?_, line, block⟩
      rintro d ⟨⟩ blank
      simp [isBlank_iff.2 blank] at visible
    rw [(first_eq_solid no).2]
    obtain ⟨rest, split, solid⟩ := solid_sound c cs
    exact ⟨rest, split, .solid (split ▸ no) solid⟩

/-! ## Sequences -/

theorem Solid.text_ne_nil (h : Solid l rest) : l.text ≠ [] := by
  cases h with
  | string isString =>
    obtain ⟨body, -, rfl⟩ := isString
    simp [Lexeme.sound]
  | uuid isUuid =>
    obtain ⟨a, b, more, rfl, -⟩ := IsUuid.starts isUuid
    simp [Lexeme.sound]
  | decimal _ _ decimal =>
    cases decimal with
    | float longest =>
      rintro empty
      obtain ⟨_, _, -, -, rfl⟩ | ⟨_, _, -, ⟨_, -, _, _, -, -, rfl⟩, rfl⟩ := longest.mem <;>
        simp [Lexeme.sound] at empty
    | brokenFloat => simp
    | integer _ digits => exact digits.mem.1
  | _ => simp [Lexeme.sound]

theorem Front.text_ne_nil (h : Front l rest) : l.text ≠ [] := by
  cases h with
  | solid _ solid => exact solid.text_ne_nil
  | _ => simp [Lexeme.sound]

theorem Front.unique {l' : Lexeme} (h : Front l rest) (h' : Front l' rest')
    (same : l.text ++ rest = l'.text ++ rest') : l = l' := by
  obtain ⟨c, cs, eq⟩ := List.exists_cons_of_ne_nil h.text_ne_nil
  have split : l.text ++ rest = c :: (cs ++ rest) := by rw [eq, List.cons_append]
  obtain ⟨blank, first⟩ | ⟨visible, first⟩ := front_complete h split
  · obtain ⟨-, second⟩ | ⟨no, -⟩ := front_complete h' (same ▸ split)
    · rw [first, second]
    · simp [blank] at no
  · obtain ⟨no, -⟩ | ⟨-, second⟩ := front_complete h' (same ▸ split)
    · simp [no] at visible
    · rw [← first, second]

/-- A text is a sequence of lexemes in one way only. -/
theorem Splits.unique (h : Splits cs ls) (h' : Splits cs ls') : ls = ls' := by
  induction h generalizing ls' with
  | nil =>
    generalize empty : ([] : List Char) = cs at h'
    cases h' with
    | nil => rfl
    | cons front => exact absurd (List.append_eq_nil_iff.1 empty.symm).1 front.text_ne_nil
  | @cons l rest ls front _ ih =>
    generalize same : l.text ++ rest = cs at h'
    cases h' with
    | nil => exact absurd (List.append_eq_nil_iff.1 same).1 front.text_ne_nil
    | cons front' splits =>
      obtain rfl := front.unique front' same
      obtain rfl := List.append_cancel_left same
      rw [ih splits]

/-- A lexeme of several blanks taken apart. -/
def singly (l : Lexeme) : List Lexeme :=
  if l.kind = .blank then l.text.map fun c => .sound .blank [c] else [l]

theorem splits_blanks (blanks : Run isBlank text) (splits : Splits rest ls) :
    Splits (text ++ rest) ((text.map fun c => .sound .blank [c]) ++ ls) := by
  induction text with
  | nil => exact splits
  | cons c text ih =>
    obtain ⟨blank, others⟩ := List.forall_mem_cons.1 blanks
    exact .cons (l := .sound .blank [c]) (.whitespace (isBlank_iff.1 blank)) (ih others)

theorem Solid.kind_ne_blank (h : Solid l rest) : l.kind ≠ .blank := by
  cases h with
  | decimal _ _ decimal => cases decimal <;> simp [Lexeme.sound]
  | _ => simp [Lexeme.sound]

/-- What stands where no blank is stays whole. -/
theorem singly_first (visible : isBlank c = false) :
    singly (Lexeme.first c cs) = [Lexeme.first c cs] := by
  obtain ⟨rest, split, front⟩ : ∃ rest, c :: cs = (Lexeme.first c cs).text ++ rest ∧
    Front (Lexeme.first c cs) rest := front_sound visible
  apply if_neg
  intro blank
  generalize Lexeme.first c cs = l at split front blank
  cases front with
  | whitespace mem =>
    obtain ⟨rfl, -⟩ := List.cons.inj split
    simp [isBlank_iff.2 mem] at visible
  | solid _ solid => exact solid.kind_ne_blank blank
  | _ => cases blank

/-- What the next lexeme is scanned from is what stands behind the first one. -/
theorem Front.drop_eq (front : Front l rest) (split : c :: cs = l.text ++ rest) :
    cs.drop (l.text.length - 1) = rest := by
  obtain ⟨d, ds, eq⟩ := List.exists_cons_of_ne_nil front.text_ne_nil
  rw [eq, List.cons_append] at split
  obtain ⟨rfl, rfl⟩ := List.cons.inj split
  simp [eq]

theorem splits_singly (cs : List Char) : Splits cs ((Lexeme.split cs).flatMap singly) := by
  -- On the length of the text; a run of blanks counts as one lexeme for each of them.
  induction hn : cs.length using Nat.strongRecOn generalizing cs with
  | ind n ih =>
    cases cs with
    | nil =>
      simp only [Lexeme.split, List.flatMap_nil]
      exact .nil
    | cons c cs =>
      rw [Lexeme.split, List.flatMap_cons]
      by_cases blank : isBlank c = true
      · have run : Run isBlank (c :: cs.takeWhile isBlank) :=
          List.forall_mem_cons.2 ⟨blank, (longest_takeWhile isBlank cs).mem⟩
        have split := append_drop_of_front (List.takeWhile_prefix (l := cs) isBlank)
        have rest := splits_blanks run (ih _ (by rw [← hn, List.length_drop, List.length_cons]; omega)
          (cs.drop (cs.takeWhile isBlank).length) rfl)
        rw [List.cons_append, split] at rest
        rw [first_blank blank]
        exact rest
      · rw [Bool.not_eq_true] at blank
        obtain ⟨rest, split, front⟩ : ∃ rest, c :: cs = (Lexeme.first c cs).text ++ rest ∧
          Front (Lexeme.first c cs) rest := front_sound blank
        have splits := Splits.cons front (ih rest.length (by
          rw [← hn, split, List.length_append]
          have := List.length_pos_iff.2 front.text_ne_nil
          omega) rest rfl)
        rw [← split] at splits
        rw [singly_first blank, front.drop_eq split]
        exact splits

/-! ## Tokens and diagnostics -/

theorem next_placeOf (before : List Char) (c : Char) :
    (placeOf before).next c = placeOf (before ++ [c]) := by
  by_cases lineFeed : c = '\n'
  · simp [Position.next, placeOf, lineFeed, Nat.add_assoc]
  · simp [Position.next, placeOf, lineFeed, Nat.add_comm]

theorem after_placeOf (before text : List Char) :
    (placeOf before).after text = placeOf (before ++ text) := by
  induction text generalizing before with
  | nil => simp [Position.after]
  | cons c text ih =>
    have step : (placeOf before).after (c :: text) = ((placeOf before).next c).after text := rfl
    rw [step, next_placeOf, ih, List.append_assoc, List.singleton_append]

theorem arrivalsFrom_blanks (p : Position) (pending : List Diagnostic) (ls : List Lexeme) :
    arrivalsFrom p pending ((text.map fun c => .sound .blank [c]) ++ ls) =
      arrivalsFrom (p.after text) pending ls := by
  induction text generalizing p with
  | nil => rfl
  | cons c text ih =>
    rw [List.map_cons, List.cons_append, arrivalsFrom]
    simp only [Lexeme.sound, Position.faults, Option.toList_none, List.map_nil, List.append_nil]
    exact ih _

/-- How blanks are put together does not show in what arrives. -/
theorem arrivalsFrom_singly (p : Position) (pending : List Diagnostic)
    (quiet : ∀ l ∈ ls, l.kind = .blank → l.fault = none) :
    arrivalsFrom p pending (ls.flatMap singly) = arrivalsFrom p pending ls := by
  induction ls generalizing p pending with
  | nil => rfl
  | cons l ls ih =>
    obtain ⟨first, others⟩ := List.forall_mem_cons.1 quiet
    rw [List.flatMap_cons, singly]
    by_cases blank : l.kind = .blank
    · rw [if_pos blank, arrivalsFrom_blanks, arrivalsFrom]
      simp [blank, Position.faults, first blank, ih _ _ others]
    · rw [if_neg blank, List.singleton_append, arrivalsFrom, arrivalsFrom]
      simp only [ih _ _ others]

theorem arrivalsFrom_tokens (before : List Char) (pending : List Diagnostic) (ls : List Lexeme) :
    (arrivalsFrom (placeOf before) pending ls).map Arrival.token = tokensFrom before ls ∧
      (arrivalsFrom (placeOf before) pending ls).flatMap Arrival.faults =
        pending ++ faultsFrom before ls := by
  induction ls generalizing before pending with
  | nil => simp [arrivalsFrom, tokensFrom, faultsFrom]
  | cons l ls ih =>
    rw [arrivalsFrom, tokensFrom, faultsFrom, after_placeOf]
    cases l.kind <;> simp [ih]

theorem Front.fault_of_blank (h : Front l rest) (blank : l.kind = .blank) : l.fault = none := by
  cases h with
  | whitespace => rfl
  | solid _ solid => exact absurd blank solid.kind_ne_blank
  | _ => cases blank

theorem split_fault_of_blank (cs : List Char) :
    ∀ l ∈ Lexeme.split cs, l.kind = .blank → l.fault = none := by
  induction cs using Lexeme.split.induct with
  | case1 => simp [Lexeme.split]
  | case2 c cs lexeme ih =>
    rw [Lexeme.split, List.forall_mem_cons]
    constructor
    · intro blank
      by_cases visible : isBlank c = true
      · rw [first_blank visible]
        rfl
      · obtain ⟨_, -, front⟩ : ∃ rest, c :: cs = (Lexeme.first c cs).text ++ rest ∧
          Front (Lexeme.first c cs) rest := front_sound (Bool.eq_false_iff.2 visible)
        exact front.fault_of_blank blank
    · exact ih

theorem tokenize_of_splits {source : String} (splits : Splits source.toList ls) :
    tokenize source = ⟨tokensFrom [] ls, faultsFrom [] ls⟩ := by
  obtain rfl := splits.unique (splits_singly source.toList)
  have arrive : arrivals source =
      arrivalsFrom (placeOf []) [] ((Lexeme.split source.toList).flatMap singly) :=
    (arrivalsFrom_singly _ _ (split_fault_of_blank source.toList)).symm
  obtain ⟨tokens, faults⟩ := arrivalsFrom_tokens [] [] ((Lexeme.split source.toList).flatMap singly)
  simp only [tokenize, arrive, tokens, faults, List.nil_append]

/-- Every source text is a sequence of lexemes in one way, and its tokens and diagnostics are those
    of this sequence. -/
theorem tokenize_splits (source : String) :
    (∃! ls, Splits source.toList ls) ∧
      ∃ ls, Splits source.toList ls ∧ tokenize source = ⟨tokensFrom [] ls, faultsFrom [] ls⟩ := by
  have splits := splits_singly source.toList
  exact ⟨⟨_, splits, fun ls other => other.unique splits⟩, _, splits, tokenize_of_splits splits⟩

end IdlFront.Lexical
