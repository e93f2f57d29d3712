import IdlFront.Json.Reader
import IdlFront.Proofs.Json.Lexing

/-! # Texts that stop early

* `Json.split?_append` — behind a closing brace more text leaves the tokens as they are.
* `Json.run?_append` — tokens in turn; once a value is complete there is no further one.
* `Json.blank_of_read?` — behind an object that was read there can only be blanks.
* `Json.not_object_of_torn` — so what is left of the text of an object, once its end is cut off, is not
  read as an object.
-/

namespace IdlFront.Json

/-! ## One token in front of more text -/

section Append

variable {cs after : List Char} (more : List Char)

/-- A scan that stops inside a text stops there whatever follows. -/
theorem takeWhile_append_of_mem {p : Char → Bool} {stop : Char} (mem : stop ∈ cs)
    (stops : p stop = false) : (cs ++ more).takeWhile p = cs.takeWhile p := by
  induction cs with
  | nil => cases mem
  | cons c cs ih =>
    rw [List.cons_append, List.takeWhile_cons, List.takeWhile_cons]
    split
    · next goesOn =>
      cases mem with
      | head => exact absurd goesOn (ne_true_of_eq_false stops)
      | tail _ mem => rw [ih mem]
    · rfl

/-- What is dropped from the front is free of a character, so that the character is still there. -/
theorem drop_behind_front {front : List Char} {stop : Char} (mem : stop ∈ cs)
    (isFront : front <+: cs) (free : stop ∉ front) :
    (cs ++ more).drop front.length = cs.drop front.length ++ more ∧
      stop ∈ cs.drop front.length := by
  obtain ⟨rest, rfl⟩ := isFront
  rw [List.append_assoc, List.drop_left, List.drop_left]
  exact ⟨rfl, (List.mem_append.1 mem).resolve_left free⟩

/-- A string literal that is closed is read alike in front of anything. -/
theorem stringBody_append {units : List Nat} (read : stringBody cs = some (units, after)) :
    stringBody (cs ++ more) = some (units, after ++ more) := by
  -- By the steps of reading: each looks only at characters that are still there.
  fun_induction stringBody cs generalizing units with
  | case1 => cases read
  | case2 rest =>
    cases read
    rfl
  | case3 a b c d rest ih =>
    simp only [Option.bind_eq_bind, Option.bind_eq_some_iff] at read
    obtain ⟨unit, value, ⟨_, _⟩, body, eq⟩ := read
    cases eq
    simp [stringBody, value, ih body]
  | case4 e rest short ih =>
    simp only [Option.bind_eq_bind, Option.bind_eq_some_iff] at read
    obtain ⟨c, value, ⟨_, _⟩, body, eq⟩ := read
    cases eq
    have ne : e ≠ 'u' := by
      rintro rfl
      cases value
    rw [List.cons_append, List.cons_append, stringBody_pair ne value, ih body]
    rfl
  | case5 c rest quote unicode escape bad => cases read
  | case6 c rest quote unicode escape good ih =>
    simp only [Option.bind_eq_bind, Option.bind_eq_some_iff] at read
    obtain ⟨⟨_, _⟩, body, eq⟩ := read
    cases eq
    have noSlash := (not_or.1 good).2
    rw [List.cons_append, stringBody.eq_5 _ _ quote (fun _ _ _ _ _ eq _ => noSlash eq)
      fun _ _ eq _ => noSlash eq, if_neg good, ih body]
    rfl

theorem afterWord?_append {word : String} (mem : '\x7d' ∈ cs) (free : '\x7d' ∉ word.toList) :
    afterWord? word (cs ++ more) = (afterWord? word cs).map (· ++ more) := by
  unfold afterWord?
  by_cases front : word.toList <+: cs
  · have goesOn := (drop_behind_front more mem front free).1
    rw [String.length_toList] at goesOn
    rw [if_pos (List.isPrefixOf_iff_prefix.2 front),
      if_pos (List.isPrefixOf_iff_prefix.2 (front.trans (List.prefix_append cs more))), goesOn]
    rfl
  · have later : ¬ word.toList <+: cs ++ more := by
      intro within
      obtain longer | shorter := List.prefix_or_prefix_of_prefix within (List.prefix_append cs more)
      · exact front longer
      · exact free (shorter.subset mem)
    rw [if_neg (by rwa [List.isPrefixOf_iff_prefix]), if_neg (by rwa [List.isPrefixOf_iff_prefix])]
    rfl

theorem word?_append (mem : '\x7d' ∈ cs) :
    word? (cs ++ more) = (word? cs).map fun read => (read.1, read.2 ++ more) := by
  have free : ∀ w ∈ words, '\x7d' ∉ w.1.toList := by decide
  unfold word?
  generalize words = ws at free
  induction ws with
  | nil => rfl
  | cons w ws ih =>
    simp only [List.findSome?_cons, afterWord?_append more mem (free w List.mem_cons_self)]
    cases afterWord? w.1 cs with
    | some rest => rfl
    | none => exact ih fun w mem => free w (List.mem_cons_of_mem _ mem)

/-- The digits of a number end in front of the brace. -/
theorem mem_drop_digits (mem : '\x7d' ∈ cs) :
    (cs ++ more).drop (cs.takeWhile isDigit).length =
        cs.drop (cs.takeWhile isDigit).length ++ more ∧
      '\x7d' ∈ cs.drop (cs.takeWhile isDigit).length :=
  drop_behind_front more mem (List.takeWhile_prefix _) fun digit =>
    absurd (List.all_eq_true.1 List.all_takeWhile _ digit) (by decide)

theorem wholeDigits_append (mem : '\x7d' ∈ cs) :
    wholeDigits (cs ++ more) = wholeDigits cs ∧ wholeDigits cs <+: cs ∧ '\x7d' ∉ wholeDigits cs := by
  by_cases zero : ∃ rest, cs = '0' :: rest
  · obtain ⟨rest, rfl⟩ := zero
    exact ⟨rfl, List.prefix_append ['0'] rest, by simp [wholeDigits]⟩
  · have digits : ∀ ds, cs ≠ [] → wholeDigits (cs ++ ds) = (cs ++ ds).takeWhile isDigit := by
      intro ds ne
      refine wholeDigits.eq_2 _ fun rest eq => ?_
      obtain ⟨c, cs, rfl⟩ := List.exists_cons_of_ne_nil ne
      exact zero ⟨cs, congrArg (· :: cs) (List.cons.inj eq).1⟩
    have ne := List.ne_nil_of_mem mem
    have alone := digits [] ne
    rw [List.append_nil] at alone
    rw [digits more ne, alone, takeWhile_append_of_mem more mem rfl]
    exact ⟨rfl, List.takeWhile_prefix _, fun digit =>
      absurd (List.all_eq_true.1 List.all_takeWhile _ digit) (by decide)⟩

theorem fractionDigits_append (mem : '\x7d' ∈ cs) :
    fractionDigits (cs ++ more) = ((fractionDigits cs).1, (fractionDigits cs).2 ++ more) ∧
      '\x7d' ∈ (fractionDigits cs).2 := by
  cases cs with
  | nil => cases mem
  | cons c cs =>
    by_cases point : c = '.'
    · subst point
      have mem : '\x7d' ∈ cs := by simpa using mem
      have behind := mem_drop_digits more mem
      have scan := takeWhile_append_of_mem more mem (p := isDigit) rfl
      simp only [List.cons_append, fractionDigits, scan]
      split
      · exact ⟨rfl, List.mem_cons_of_mem _ mem⟩
      · exact ⟨congrArg _ behind.1, behind.2⟩
    · have none : ∀ ds, fractionDigits (c :: ds) = ([], c :: ds) := fun ds =>
        fractionDigits.eq_2 _ fun _ eq => point (List.cons.inj eq).1
      rw [List.cons_append, none, none]
      exact ⟨rfl, mem⟩

theorem exponentValue_append (mem : '\x7d' ∈ cs) :
    exponentValue (cs ++ more) = ((exponentValue cs).1, (exponentValue cs).2 ++ more) := by
  have digits : ∀ {ds : List Char}, '\x7d' ∈ ds →
      (ds ++ more).takeWhile isDigit = ds.takeWhile isDigit ∧
      (ds ++ more).drop (ds.takeWhile isDigit).length =
        ds.drop (ds.takeWhile isDigit).length ++ more :=
    fun mem => ⟨takeWhile_append_of_mem more mem rfl, (mem_drop_digits more mem).1⟩
  cases cs with
  | nil => cases mem
  | cons c cs =>
    simp only [List.cons_append, exponentValue]
    split
    · next marker =>
      have mem : '\x7d' ∈ cs := by
        refine (List.mem_cons.1 mem).resolve_left ?_
        rintro rfl
        exact absurd marker (by decide)
      -- With either sign or without one, the digits end in front of the brace.
      cases cs with
      | nil => cases mem
      | cons d cs =>
        by_cases minus : d = '-'
        · subst minus
          have mem : '\x7d' ∈ cs := by simpa using mem
          simp only [List.cons_append, digits mem]
          split <;> rfl
        · by_cases plus : d = '+'
          · subst plus
            have mem : '\x7d' ∈ cs := by simpa using mem
            simp only [List.cons_append, digits mem]
            split <;> rfl
          · have scan := digits mem
            simp only [List.cons_append] at scan ⊢
            simp only [List.cons.injEq, minus, plus, false_and, imp_false, not_false_eq_true,
              implies_true, scan]
            split <;> rfl
    · rfl

theorem number?_append {negative : Bool} (mem : '\x7d' ∈ cs) :
    number? negative (cs ++ more) =
      (number? negative cs).map fun read => (read.1, read.2 ++ more) := by
  obtain ⟨whole, front, free⟩ := wholeDigits_append more mem
  obtain ⟨behind, mem⟩ := drop_behind_front more mem front free
  obtain ⟨fraction, mem⟩ := fractionDigits_append more mem
  have exponent := exponentValue_append more mem
  simp only [number?, whole, behind, fraction, exponent]
  split
  · rfl
  · split <;> rfl

/-- What starts with another character than a bracket, a mark or a quote is a word or a number. -/
theorem first?_scalar {c : Char} (mark : c ∉ ['\x7b', '\x7d', '[', ']', ',', ':'])
    (quote : c ≠ '"') : ∃ number : List Char → Option (Json × List Char),
      (number = number? true ∨ number = fun ds => number? false (c :: ds)) ∧
      ∀ ds, Token.first? (c :: ds) =
        ((word? (c :: ds)).or (number ds)).map fun read => (.scalar read.1, read.2) := by
  by_cases minus : c = '-'
  · subst minus
    refine ⟨number? true, .inl rfl, fun ds => ?_⟩
    rw [Token.first?.eq_8]
    cases word? ('-' :: ds) <;> rfl
  · have ne : ∀ {x : Char} {ds rest : List Char}, c ≠ x → c :: ds = x :: rest → False :=
      fun ne eq => ne (List.cons.inj eq).1
    simp only [List.mem_cons, List.not_mem_nil, or_false, not_or] at mark
    obtain ⟨brace, close, bracket, closeBracket, comma, colon⟩ := mark
    refine ⟨fun ds => number? false (c :: ds), .inr rfl, fun ds => ?_⟩
    rw [Token.first?.eq_9 _ (fun _ => ne brace) (fun _ => ne close) (fun _ => ne bracket)
      (fun _ => ne closeBracket) (fun _ => ne comma) (fun _ => ne colon) (fun _ => ne quote)
      (fun _ => ne minus)]
    cases word? (c :: ds) <;> rfl

/-- A token that is found in front of a closing brace, or is that brace, is found there whatever
    follows. -/
theorem first?_append {t : Token} (mem : '\x7d' ∈ cs) (first : Token.first? cs = some (t, after)) :
    Token.first? (cs ++ more) = some (t, after ++ more) := by
  obtain ⟨c, ds, rfl⟩ := List.exists_cons_of_ne_nil (List.ne_nil_of_mem mem)
  by_cases mark : c ∈ ['\x7b', '\x7d', '[', ']', ',', ':']
  · simp only [List.mem_cons, List.not_mem_nil, or_false] at mark
    obtain rfl | rfl | rfl | rfl | rfl | rfl := mark <;>
    · cases first
      rfl
  by_cases quote : c = '"'
  · subst quote
    obtain ⟨⟨units, rest⟩, body, eq⟩ := Option.map_eq_some_iff.1 first
    cases eq
    simp only [List.cons_append, Token.first?, stringBody_append more body, Option.map_some]
  · -- What is neither a mark nor a string is a number or a word, and neither reads past a brace.
    obtain ⟨number, kind, eq⟩ := first?_scalar mark quote
    have numberAppend :
        number (ds ++ more) = (number ds).map fun read => (read.1, read.2 ++ more) := by
      obtain rfl | rfl := kind
      · refine number?_append more ((List.mem_cons.1 mem).resolve_left ?_)
        rintro rfl
        exact mark (by decide)
      · exact number?_append more mem
    have wordAppend := word?_append more mem
    rw [eq] at first
    rw [List.cons_append] at wordAppend ⊢
    rw [eq, wordAppend, numberAppend, ← Option.map_or]
    obtain ⟨read, found, eq⟩ := Option.map_eq_some_iff.1 first
    cases eq
    rw [found]
    rfl

end Append

/-! ## What a token leaves -/

section Suffix

variable {cs after : List Char}

theorem stringBody_suffix {units : List Nat} (read : stringBody cs = some (units, after)) :
    after <:+ cs := by
  fun_induction stringBody cs generalizing units with
  | case1 => cases read
  | case2 rest =>
    cases read
    exact List.suffix_cons _ _
  | case3 a b c d rest ih =>
    simp only [Option.bind_eq_bind, Option.bind_eq_some_iff] at read
    obtain ⟨unit, value, ⟨_, _⟩, body, eq⟩ := read
    cases eq
    exact (ih body).trans (List.suffix_append ['\\', 'u', a, b, c, d] rest)
  | case4 e rest short ih =>
    simp only [Option.bind_eq_bind, Option.bind_eq_some_iff] at read
    obtain ⟨c, value, ⟨_, _⟩, body, eq⟩ := read
    cases eq
    exact (ih body).trans (List.suffix_append ['\\', e] rest)
  | case5 c rest quote unicode escape bad => cases read
  | case6 c rest quote unicode escape good ih =>
    simp only [Option.bind_eq_bind, Option.bind_eq_some_iff] at read
    obtain ⟨⟨_, _⟩, body, eq⟩ := read
    cases eq
    exact (ih body).trans (List.suffix_cons c rest)

theorem word?_spec {value : Json} (read : word? cs = some (value, after)) :
    after <:+ cs ∧ ∀ fields, value ≠ .object fields := by
  have scalars : ∀ w ∈ words, ∀ fields, w.2 ≠ .object fields := by simp [words]
  obtain ⟨⟨word, v⟩, known, found⟩ := List.exists_of_findSome?_eq_some read
  obtain ⟨rest, behind, eq⟩ := Option.map_eq_some_iff.1 found
  cases eq
  refine ⟨?_, scalars _ known⟩
  unfold afterWord? at behind
  split at behind
  · cases behind
    exact List.drop_suffix _ _
  · cases behind

theorem fractionDigits_suffix (cs : List Char) : (fractionDigits cs).2 <:+ cs := by
  unfold fractionDigits
  split
  · simp only
    split
    · exact List.suffix_rfl
    · exact (List.drop_suffix _ _).trans (List.suffix_cons _ _)
  · exact List.suffix_rfl

theorem exponentValue_suffix (cs : List Char) : (exponentValue cs).2 <:+ cs := by
  unfold exponentValue
  split
  · next e rest =>
    split
    · have signed : ∀ (sign : Char) (n : Nat) (body : List Char), body.drop n <:+ e :: sign :: body :=
        fun sign n body => (List.drop_suffix n body).trans (List.suffix_append [e, sign] body)
      simp only
      split <;> split
      · exact List.suffix_rfl
      · exact signed _ _ _
      · exact List.suffix_rfl
      · exact signed _ _ _
      · exact List.suffix_rfl
      · exact (List.drop_suffix _ _).trans (List.suffix_cons _ _)
    · exact List.suffix_rfl
  · exact List.suffix_rfl

theorem number?_spec {negative : Bool} {value : Json}
    (read : number? negative cs = some (value, after)) :
    after <:+ cs ∧ ∀ fields, value ≠ .object fields := by
  have behind : (exponentValue (fractionDigits (cs.drop (wholeDigits cs).length)).2).2 <:+ cs :=
    (exponentValue_suffix _).trans ((fractionDigits_suffix _).trans (List.drop_suffix _ _))
  unfold number? at read
  simp only at read
  split at read
  · cases read
  · split at read <;>
    · cases read
      exact ⟨behind, nofun⟩

/-- What a token leaves is behind it; only a brace is read as a closing brace, and what is not read
    from brackets is no object. -/
theorem first?_spec {t : Token} (first : Token.first? cs = some (t, after)) :
    after <:+ cs ∧ (t = .rbrace → '\x7d' ∈ cs) ∧ ∀ fields, t ≠ .scalar (.object fields) := by
  cases cs with
  | nil => cases first
  | cons c ds =>
    by_cases mark : c ∈ ['\x7b', '\x7d', '[', ']', ',', ':']
    · simp only [List.mem_cons, List.not_mem_nil, or_false] at mark
      obtain rfl | rfl | rfl | rfl | rfl | rfl := mark <;>
      · cases first
        exact ⟨List.suffix_cons _ _, by simp, nofun⟩
    by_cases quote : c = '"'
    · subst quote
      obtain ⟨⟨units, rest⟩, body, eq⟩ := Option.map_eq_some_iff.1 first
      cases eq
      exact ⟨(stringBody_suffix body).trans (List.suffix_cons _ _), nofun, nofun⟩
    · obtain ⟨number, kind, eq⟩ := first?_scalar mark quote
      rw [eq] at first
      obtain ⟨⟨value, rest⟩, found, eq⟩ := Option.map_eq_some_iff.1 first
      cases eq
      have scalar : rest <:+ c :: ds ∧ ∀ fields, value ≠ .object fields := by
        obtain word | ⟨-, numeral⟩ := Option.or_eq_some_iff.1 found
        · exact word?_spec word
        · obtain rfl | rfl := kind
          · exact (number?_spec numeral).imp_left fun behind => behind.trans (List.suffix_cons _ _)
          · exact number?_spec numeral
      exact ⟨scalar.1, nofun, fun fields eq => scalar.2 fields (Token.scalar.inj eq)⟩

end Suffix

/-! ## All tokens in front of more text -/

section Split

variable {cs : List Char} {ts : List Token}

/-- A closing brace among the tokens is one of the text, and there is no object that is not spelled
    out. -/
theorem split?_spec (read : Token.split? cs = some ts) :
    (Token.rbrace ∈ ts → '\x7d' ∈ cs) ∧ ∀ fields, Token.scalar (.object fields) ∉ ts := by
  fun_induction Token.split? cs generalizing ts with
  | case1 =>
    cases read
    exact ⟨nofun, nofun⟩
  | case2 c cs blank ih =>
    exact (ih read).imp_left fun mem brace => List.mem_cons_of_mem c (mem brace)
  | case3 c cs visible first => cases read
  | case4 c cs visible t rest first shorter ih =>
    obtain ⟨us, behind, eq⟩ := Option.map_eq_some_iff.1 read
    cases eq
    obtain ⟨inside, brace, object⟩ := first?_spec first
    obtain ⟨braces, objects⟩ := ih behind
    refine ⟨fun mem => ?_, fun fields mem => ?_⟩
    · cases mem with
      | head => exact brace rfl
      | tail _ mem => exact inside.subset (braces mem)
    · cases mem with
      | head => exact object fields rfl
      | tail _ mem => exact objects fields mem
  | case5 c cs visible t rest first longer => cases read

/-- Behind a closing brace more text leaves the tokens as they are. -/
theorem split?_append (read : Token.split? cs = some ts) (last : ∀ t ∈ ts.getLast?, t = .rbrace)
    (more : List Char) : Token.split? (cs ++ more) = (Token.split? more).map (ts ++ ·) := by
  fun_induction Token.split? cs generalizing ts with
  | case1 =>
    cases read
    simp
  | case2 c cs blank ih =>
    rw [List.cons_append, Token.split?, if_pos blank, ih read last]
  | case3 c cs visible first => cases read
  | case4 c cs visible t rest first shorter ih =>
    obtain ⟨us, behind, eq⟩ := Option.map_eq_some_iff.1 read
    cases eq
    obtain ⟨inside, brace, -⟩ := first?_spec first
    -- A closing brace is still to come, so the first token does not reach into what is added.
    have mem : '\x7d' ∈ c :: cs := by
      have closing := last _ (List.getLast?_eq_some_getLast (List.cons_ne_nil t us))
      have listed := List.getLast_mem (List.cons_ne_nil t us)
      rw [closing] at listed
      cases listed with
      | head => exact brace rfl
      | tail _ listed => exact inside.subset ((split?_spec behind).1 listed)
    have lastBehind : ∀ u ∈ us.getLast?, u = .rbrace := by
      cases us with
      | nil =>
        intro u none
        cases none
      | cons u us => rwa [List.getLast?_cons_cons] at last
    have notLonger : (rest ++ more).length ≤ (cs ++ more).length := by
      rw [List.length_append, List.length_append]
      exact Nat.add_le_add_right shorter _
    rw [List.cons_append, Token.split?, if_neg visible, ← List.cons_append,
      first?_append more mem first]
    simp only [notLonger, if_true, ih behind lastBehind, Option.map_map, Function.comp_def,
      List.cons_append]
  | case5 c cs visible t rest first longer => cases read

theorem blank_of_split? (read : Token.split? cs = some []) : ∀ c ∈ cs, isBlank c = true := by
  fun_induction Token.split? cs with
  | case1 => nofun
  | case2 c cs blank ih => exact List.forall_mem_cons.2 ⟨blank, ih read⟩
  | case3 => cases read
  | case4 c cs visible t rest first shorter ih =>
    obtain ⟨us, -, eq⟩ := Option.map_eq_some_iff.1 read
    cases eq
  | case5 => cases read

end Split

/-! ## The machine -/

section Machine

variable {m m' : Machine} {t : Token} {ts us : List Token}

theorem run?_append (m : Machine) (ts us : List Token) :
    m.run? (ts ++ us) = (m.run? ts).bind fun m' => m'.run? us := by
  induction ts generalizing m with
  | nil => rfl
  | cons t ts ih =>
    simp only [List.cons_append, Machine.run?, Option.bind_assoc]
    congr 1
    funext m'
    exact ih m'

/-- Once a value is complete and nothing is open, no token can follow. -/
theorem nil_of_done {value : Json} (run : (Machine.mk [] (.done value)).run? us = some m') :
    us = [] := by
  cases us with
  | nil => rfl
  | cons t us =>
    cases t <;> cases run

/-- No token that starts a value completes an object, but for one that is an object itself. -/
theorem scalar_of_startValue? {stack : List Frame} {fields : Fields}
    (step : Machine.startValue? stack t = some m') (object : m'.stage = .done (.object fields)) :
    t = .scalar (.object fields) := by
  cases t with
  | scalar v =>
    cases step
    cases object
    rfl
  | lbrace | lbracket | string =>
    cases step
    cases object
  | rbrace | rbracket | comma | colon => cases step

/-- An object is complete with its closing brace. -/
theorem rbrace_of_object {fields : Fields} (step : m.step? t = some m')
    (object : m'.stage = .done (.object fields)) : t = .rbrace ∨ t = .scalar (.object fields) := by
  unfold Machine.step? at step
  split at step
  · exact .inr (scalar_of_startValue? step object)
  · cases step
    cases object
  · exact .inr (scalar_of_startValue? step object)
  · exact .inl rfl
  · cases step
    cases object
  · cases step
    cases object
  · cases step
    cases object
  · split at step
    · cases step
      cases object
    · cases step
      cases object
    · cases step
      cases object
    · exact .inl rfl
    · cases step
  · cases step

/-- The last token of an object is its closing brace. -/
theorem last_of_object {fields : Fields}
    (run : Machine.start.run? ts = some ⟨[], .done (.object fields)⟩)
    (lexed : Token.scalar (.object fields) ∉ ts) : ∀ t ∈ ts.getLast?, t = .rbrace := by
  intro t last
  obtain ⟨front, rfl⟩ := List.getLast?_eq_some_iff.1 last
  rw [run?_append] at run
  obtain ⟨m, -, step⟩ := Option.bind_eq_some_iff.1 run
  obtain ⟨m', step, eq⟩ := Option.bind_eq_some_iff.1 step
  cases eq
  refine (rbrace_of_object step rfl).resolve_right ?_
  rintro rfl
  exact lexed (by simp)

end Machine

/-! ## Texts of objects -/

theorem read?_eq_some_iff {text : String} {value : Json} :
    read? text = some value ↔ ∃ ts, Token.split? text.toList = some ts ∧
      Machine.start.run? ts = some ⟨[], .done value⟩ := by
  simp only [read?, Option.bind_eq_some_iff]
  constructor
  · rintro ⟨ts, split, ⟨stack, stage⟩, run, result⟩
    cases stack with
    | nil =>
      cases stage with
      | done v =>
        cases result
        exact ⟨ts, split, run⟩
      | _ => cases result
    | cons => cases result
  · rintro ⟨ts, split, run⟩
    exact ⟨ts, split, _, run, rfl⟩

/-- Behind an object that was read there can only be blanks. -/
theorem blank_of_read? {cs more : List Char} {fields : Fields} {value : Json}
    (object : read? (String.ofList cs) = some (.object fields))
    (whole : read? (String.ofList (cs ++ more)) = some value) : ∀ c ∈ more, isBlank c = true := by
  obtain ⟨ts, split, run⟩ := read?_eq_some_iff.1 object
  obtain ⟨us, splitWhole, runWhole⟩ := read?_eq_some_iff.1 whole
  rw [String.toList_ofList] at split splitWhole
  have last := last_of_object run ((split?_spec split).2 fields)
  rw [split?_append split last] at splitWhole
  obtain ⟨vs, behind, rfl⟩ := Option.map_eq_some_iff.1 splitWhole
  rw [run?_append, run, Option.bind_some] at runWhole
  cases nil_of_done runWhole
  exact blank_of_split? behind

/-- A text that ends with a brace is not read as an object when it stops early. -/
theorem not_object_of_torn {cs front : List Char} {value : Json}
    (whole : read? (String.ofList (cs ++ ['\x7d'])) = some value) (isFront : front <+: cs ++ ['\x7d'])
    (torn : front ≠ cs ++ ['\x7d']) (fields : Fields) :
    read? (String.ofList front) ≠ some (.object fields) := by
  intro object
  obtain ⟨rest, eq⟩ := isFront
  rw [← eq] at whole torn
  have blank := blank_of_read? object whole
  obtain rfl | ⟨rest, c, rfl⟩ := List.eq_nil_or_concat rest
  · exact torn (List.append_nil front).symm
  · rw [List.concat_eq_append, ← List.append_assoc] at eq
    obtain ⟨-, eq⟩ := List.append_inj' eq rfl
    cases eq
    exact absurd (blank '\x7d' (by simp)) (by decide)

end IdlFront.Json
