import IdlFront.Proofs.Lexical.Lexicon

/-! # What scanners find

Every scanner takes the text that its language says, and takes nothing where the language has
nothing:

* `longest_run_iff` — `takeWhile` is the longest run.
* `blockTail_closed`, `stringTail_closed`, … — comments and strings.
* `uuidText?_eq_some_iff` — UUIDs.
* `decimal_iff` — numbers without `0x`.
-/

namespace IdlFront.Lexical

variable {C : Char → Bool} {c d : Char} {cs text run rest body : List Char}

/-! ## Runs -/

theorem takeWhile_run (inside : Run C run) (ends : ∀ c, rest.head? = some c → C c = false) :
    (run ++ rest).takeWhile C = run := by
  rw [List.takeWhile_append_of_pos inside]
  cases rest with
  | nil => simp
  | cons c rest => simp [ends c rest.head?_cons]

theorem head?_drop_takeWhile (h : (cs.drop (cs.takeWhile C).length).head? = some c) : C c = false := by
  have same : cs.drop (cs.takeWhile C).length = cs.dropWhile C := calc
    _ = (cs.takeWhile C ++ cs.dropWhile C).drop (cs.takeWhile C).length := by
      rw [List.takeWhile_append_dropWhile]
    _ = cs.dropWhile C := List.drop_left
  have first := List.head?_dropWhile_not C cs
  rw [same] at h
  simpa [h] using first

theorem longest_takeWhile (C : Char → Bool) (cs : List Char) :
    Longest (Run C) (cs.takeWhile C) cs where
  front := List.takeWhile_prefix C
  mem := fun _ => List.mem_takeWhile_imp
  longest := by
    rintro other ⟨rest, rfl⟩ inside
    rw [List.takeWhile_append_of_pos inside]
    simp

theorem longest_run_iff : Longest (Run C) run cs ↔ run = cs.takeWhile C :=
  ⟨fun h => h.unique (longest_takeWhile C cs), fun h => h ▸ longest_takeWhile C cs⟩

theorem longest_digits_iff : Longest Digits text cs ↔ text = cs.takeWhile isDigit ∧ text ≠ [] := by
  have longest := longest_takeWhile isDigit cs
  constructor
  · intro h
    have le := longest.longest text h.front h.mem.2
    have nonempty : cs.takeWhile isDigit ≠ [] := by
      rintro empty
      rw [empty, List.length_nil] at le
      exact h.mem.1 (List.length_eq_zero_iff.1 (by omega))
    have ge := h.longest _ longest.front ⟨nonempty, longest.mem⟩
    exact ⟨(List.prefix_of_prefix_length_le h.front longest.front le).eq_of_length (by omega), h.mem.1⟩
  · rintro ⟨rfl, nonempty⟩
    exact ⟨longest.front, ⟨nonempty, longest.mem⟩, fun other front digits =>
      longest.longest other front digits.2⟩

theorem takeWhile_line (noLineFeed : '\n' ∉ body) (ends : EndsLine rest) :
    (body ++ rest).takeWhile (· ≠ '\n') = body := by
  apply takeWhile_run
  · intro c mem
    simpa using ne_of_mem_of_not_mem mem noLineFeed
  · intro c head
    simp [ends c head]

theorem endsLine_takeWhile (cs : List Char) :
    '\n' ∉ cs.takeWhile (· ≠ '\n') ∧ EndsLine (cs.drop (cs.takeWhile (· ≠ '\n')).length) := by
  constructor
  · intro mem
    simpa using List.mem_takeWhile_imp mem
  · intro c head
    simpa using head?_drop_takeWhile head

/-- What is in front of a rest by its length is in front of it as a text. -/
theorem append_drop_of_front (front : text <+: cs) : text ++ cs.drop text.length = cs := by
  obtain ⟨rest, rfl⟩ := front
  simp

/-! ## Comments -/

theorem blockTail_closed (first : ¬ ['*', '/'] <:+: body ++ ['*']) :
    blockTail (body ++ '*' :: '/' :: rest) = (body ++ ['*', '/'], true) := by
  induction body with
  | nil => rfl
  | cons c body ih =>
    -- A star here closes nothing: what follows is in the body, or the star of the close.
    have notHere : ∀ tail, c = '*' → body ++ '*' :: '/' :: rest = '/' :: tail → False := by
      rintro tail rfl eq
      cases body with
      | nil => simp at eq
      | cons d body =>
        simp only [List.cons_append, List.cons.injEq] at eq
        simp [eq.1, List.infix_cons_iff] at first
    have later : ¬ ['*', '/'] <:+: body ++ ['*'] := fun h =>
      first (h.trans (List.infix_cons List.infix_rfl))
    rw [List.cons_append, blockTail.eq_3 _ _ notHere, ih later]
    rfl

theorem blockTail_open (never : ¬ ['*', '/'] <:+: cs) : blockTail cs = (cs, false) := by
  induction cs with
  | nil => rfl
  | cons c cs ih =>
    have notHere : ∀ tail, c = '*' → cs = '/' :: tail → False := by
      rintro tail rfl rfl
      simp [List.infix_cons_iff] at never
    rw [blockTail.eq_3 _ _ notHere, ih fun h => never (h.trans (List.infix_cons List.infix_rfl))]

/-- A text has a first `*/`, or none. -/
theorem first_close (cs : List Char) : ¬ ['*', '/'] <:+: cs ∨
    ∃ body rest, cs = body ++ '*' :: '/' :: rest ∧ ¬ ['*', '/'] <:+: body ++ ['*'] := by
  induction cs with
  | nil => simp
  | cons c cs ih =>
    by_cases here : ['*', '/'] <+: c :: cs
    · obtain ⟨rest, eq⟩ := here
      exact .inr ⟨[], rest, by simpa using eq.symm, by simp [List.infix_cons_iff]⟩
    · obtain never | ⟨body, rest, rfl, first⟩ := ih
      · exact .inl fun h => (List.infix_cons_iff.1 h).elim here never
      · refine .inr ⟨c :: body, rest, rfl, fun h => ?_⟩
        obtain front | later := List.infix_cons_iff.1 h
        · -- Then it would be in front of the longer text as well.
          apply here
          obtain ⟨tail, eq⟩ := front
          cases body with
          | nil => simp at eq
          | cons d body =>
            obtain ⟨rfl, more⟩ := List.cons.inj eq
            obtain ⟨rfl, -⟩ := List.cons.inj more
            simp
        · exact first later

/-! ## Strings -/

theorem stringTail_closed (h : StringBody body) :
    stringTail (body ++ '"' :: rest) = (body ++ ['"'], true) := by
  induction h with
  | nil => rfl
  | @plain c cs quote backslash lineFeed _ ih =>
    rw [List.cons_append, stringTail.eq_5 _ _ quote lineFeed (fun _ _ h _ => backslash h), ih]
    rfl
  | @escape c cs lineFeed _ ih => simp [stringTail, lineFeed, ih]

/-- A string that is scanned to its end is one of the grammar; one that is not takes the line. -/
theorem stringTail_spec (cs : List Char) :
    (∃ body rest, StringBody body ∧ cs = body ++ '"' :: rest ∧
      stringTail cs = (body ++ ['"'], true)) ∨
    stringTail cs = (cs.takeWhile (· ≠ '\n'), false) := by
  -- An escape takes two characters, so the induction is on the length.
  induction hn : cs.length using Nat.strongRecOn generalizing cs with
  | ind n ih =>
    match cs with
    | [] => exact .inr rfl
    | c :: cs =>
      by_cases quote : c = '"'
      · subst quote
        exact .inl ⟨[], cs, .nil, rfl, rfl⟩
      by_cases lineFeed : c = '\n'
      · subst lineFeed
        exact .inr rfl
      by_cases escape : c = '\\' ∧ cs ≠ []
      · -- A backslash takes the next character with it, unless that is a line feed.
        obtain ⟨rfl, nonempty⟩ := escape
        obtain ⟨d, ds, rfl⟩ := List.exists_cons_of_ne_nil nonempty
        by_cases stops : d = '\n'
        · subst stops
          exact .inr rfl
        · obtain ⟨body, rest, isBody, rfl, scanned⟩ | scanned := ih ds.length (by simp at hn; omega) ds rfl
          · exact .inl ⟨_, rest, .escape stops isBody, rfl, by simp [stringTail, stops, scanned]⟩
          · exact .inr (by simp [stringTail, stops, scanned])
      · have plain : stringTail (c :: cs) = (c :: (stringTail cs).1, (stringTail cs).2) := by
          rw [stringTail.eq_5 _ _ quote lineFeed fun d ds h h' => escape ⟨h, by simp [h']⟩]
        obtain ⟨body, rest, isBody, rfl, scanned⟩ | scanned := ih cs.length (by simp at hn; omega) cs rfl
        · refine .inl ⟨c :: body, rest, .plain quote (fun h => escape ⟨h, by simp⟩) lineFeed isBody, rfl, ?_⟩
          rw [plain, scanned]
          rfl
        · exact .inr (by simp [plain, scanned, lineFeed])

theorem stringTail_open (never : ∀ text, IsString text → ¬ text <+: '"' :: cs) :
    stringTail cs = (cs.takeWhile (· ≠ '\n'), false) := by
  obtain ⟨body, rest, isBody, rfl, -⟩ | scanned := stringTail_spec cs
  · exact absurd ⟨rest, by simp⟩ (never _ ⟨body, isBody, rfl⟩)
  · exact scanned

/-! ## UUIDs -/

/-- Places without hyphens hold hexadecimal digits. -/
theorem uuidFrom_run {i n : Nat} (plain : ∀ j < n, isUuidHyphen (i + j) = false) (le : i + n ≤ 36) :
    uuidFrom i cs = true ↔ ∃ group rest, group.length = n ∧ Run isHexDigit group ∧
      cs = group ++ rest ∧ uuidFrom (i + n) rest = true := by
  induction n generalizing i cs with
  | zero => simp [Run]
  | succ n ih =>
    have first : isUuidHyphen i = false := plain 0 (by omega)
    have others : ∀ j < n, isUuidHyphen (i + 1 + j) = false := by
      intro j less
      rw [Nat.add_assoc, Nat.add_comm 1]
      exact plain (j + 1) (by omega)
    have next : i + 1 + n = i + (n + 1) := by omega
    cases cs with
    | nil =>
      have short : i ≠ 36 := by omega
      simp only [uuidFrom, beq_iff_eq, short, false_iff]
      rintro ⟨group, rest, length, -, empty, -⟩
      rw [List.nil_eq, List.append_eq_nil_iff] at empty
      simp [empty.1] at length
    | cons c cs =>
      simp only [uuidFrom, first, Bool.false_eq_true, if_false, Bool.and_eq_true,
        ih others (by omega), next]
      constructor
      · rintro ⟨hex, group, rest, length, inside, rfl, more⟩
        exact ⟨c :: group, rest, by simp [length], by simpa [Run, hex] using inside, rfl, more⟩
      · rintro ⟨group, rest, length, inside, eq, more⟩
        obtain ⟨d, ds, rfl⟩ := List.exists_cons_of_length_eq_add_one length
        obtain ⟨rfl, rfl⟩ := List.cons.inj eq
        obtain ⟨hex, inside⟩ := List.forall_mem_cons.1 inside
        exact ⟨hex, ds, rest, by simpa using length, inside, rfl, more⟩

theorem uuidFrom_hyphen {i : Nat} (hyphen : isUuidHyphen i = true) :
    uuidFrom i cs = true ↔ ∃ rest, cs = '-' :: rest ∧ uuidFrom (i + 1) rest = true := by
  cases cs with
  | nil =>
    have short : i ≠ 36 := by
      rintro rfl
      cases hyphen
    simp [uuidFrom, short]
  | cons c cs =>
    simp only [uuidFrom, hyphen, if_true, Bool.and_eq_true, beq_iff_eq, List.cons.injEq]
    constructor
    · rintro ⟨rfl, more⟩
      exact ⟨cs, ⟨rfl, rfl⟩, more⟩
    · rintro ⟨rest, ⟨rfl, rfl⟩, more⟩
      exact ⟨rfl, more⟩

theorem length_of_uuidFrom {i : Nat} (h : uuidFrom i cs = true) : i + cs.length = 36 := by
  induction cs generalizing i with
  | nil => simpa [uuidFrom] using h
  | cons c cs ih =>
    simp only [uuidFrom, Bool.and_eq_true] at h
    have := ih h.2
    simp only [List.length_cons]
    omega

theorem uuidFrom_end : uuidFrom 36 cs = true ↔ cs = [] := by
  constructor
  · intro h
    have := length_of_uuidFrom h
    exact List.length_eq_zero_iff.1 (by omega)
  · rintro rfl
    rfl

theorem uuidFrom_iff : uuidFrom 0 text = true ↔ IsUuid text := by
  -- Groups of 8, 4, 4, 4 and 12 digits, with a hyphen behind each but the last.
  rw [uuidFrom_run (n := 8) (by decide) (by decide)]
  simp only [uuidFrom_hyphen (i := 0 + 8) rfl, uuidFrom_hyphen (i := 0 + 8 + 1 + 4) rfl,
    uuidFrom_hyphen (i := 0 + 8 + 1 + 4 + 1 + 4) rfl,
    uuidFrom_hyphen (i := 0 + 8 + 1 + 4 + 1 + 4 + 1 + 4) rfl,
    uuidFrom_run (i := 0 + 8 + 1) (n := 4) (by decide) (by decide),
    uuidFrom_run (i := 0 + 8 + 1 + 4 + 1) (n := 4) (by decide) (by decide),
    uuidFrom_run (i := 0 + 8 + 1 + 4 + 1 + 4 + 1) (n := 4) (by decide) (by decide),
    uuidFrom_run (i := 0 + 8 + 1 + 4 + 1 + 4 + 1 + 4 + 1) (n := 12) (by decide) (by decide)]
  constructor
  · rintro ⟨a, _, la, ha, rfl, _, rfl, b, _, lb, hb, rfl, _, rfl, c, _, lc, hc, rfl, _, rfl,
      d, _, ld, hd, rfl, _, rfl, e, _, le, he, rfl, ended⟩
    obtain rfl := uuidFrom_end.1 ended
    exact ⟨a, b, c, d, e, by simp [la, lb, lc, ld, le], by simp [ha, hb, hc, hd, he], by simp⟩
  · rintro ⟨a, b, c, d, e, lengths, inside, rfl⟩
    simp only [List.map_cons, List.map_nil, List.cons.injEq, and_true] at lengths
    obtain ⟨la, lb, lc, ld, le⟩ := lengths
    simp only [List.forall_mem_cons, List.not_mem_nil, false_implies, implies_true, and_true] at inside
    obtain ⟨ha, hb, hc, hd, he⟩ := inside
    exact ⟨a, _, la, ha, rfl, _, rfl, b, _, lb, hb, rfl, _, rfl, c, _, lc, hc, rfl, _, rfl,
      d, _, ld, hd, rfl, _, rfl, e, [], le, he, by simp, rfl⟩

theorem IsUuid.length (h : IsUuid text) : text.length = 36 := by
  have := length_of_uuidFrom (uuidFrom_iff.2 h)
  omega

theorem endsUuid_iff : EndsUuid rest ↔ (match rest with
    | c :: _ => !(c == '-' || isIdentifierContinue c)
    | [] => true) = true := by
  cases rest <;> simp [EndsUuid]

theorem uuidText?_eq_some_iff :
    uuidText? cs = some text ↔ ∃ rest, IsUuid text ∧ EndsUuid rest ∧ cs = text ++ rest := by
  unfold uuidText?
  simp only [Bool.and_eq_true, uuidFrom_iff, Option.ite_none_right_eq_some, Option.some.injEq]
  constructor
  · rintro ⟨⟨uuid, ends⟩, rfl⟩
    exact ⟨_, uuid, endsUuid_iff.2 ends, (List.take_append_drop 36 cs).symm⟩
  · rintro ⟨rest, uuid, ends, rfl⟩
    rw [← uuid.length, List.take_left, List.drop_left]
    exact ⟨⟨uuid, endsUuid_iff.1 ends⟩, rfl⟩

theorem uuidText?_eq_none_iff : uuidText? cs = none ↔ ¬ UuidAhead cs := by
  rw [Option.eq_none_iff_forall_ne_some]
  unfold UuidAhead
  simp [uuidText?_eq_some_iff]

/-! ## Words -/

theorem Keyword.ofText?_text (k : Keyword) : Keyword.ofText? k.text = some k := by
  cases k <;> decide

theorem isWord_iff {kind : TokenKind} : IsWord text kind ↔ wordKind text = kind := by
  unfold wordKind
  constructor
  · rintro (k | no)
    · simp [Keyword.ofText?_text]
    · have none : Keyword.ofText? (String.ofList text) = none := by
        unfold Keyword.ofText?
        rw [List.find?_eq_none]
        intro k _ same
        apply no k
        rw [beq_iff_eq.1 same, String.toList_ofList]
      rw [none]
  · rintro rfl
    cases found : Keyword.ofText? (String.ofList text) with
    | none =>
      apply IsWord.identifier
      rintro k rfl
      simp [Keyword.ofText?_text] at found
    | some k =>
      have same := List.find?_some found
      simp only [beq_iff_eq] at same
      have word := IsWord.keyword k
      rwa [same, String.toList_ofList] at word

theorem punctuation_eq_some_iff {p : Punctuation} : Punctuation.ofChar? c = some p ↔ p.char = c := by
  constructor
  · intro found
    simpa using List.find?_some found
  · rintro rfl
    cases p <;> rfl

theorem punctuation_eq_none_iff : Punctuation.ofChar? c = none ↔ ∀ p : Punctuation, p.char ≠ c := by
  rw [Option.eq_none_iff_forall_ne_some]
  simp [punctuation_eq_some_iff]

end IdlFront.Lexical
