import IdlFront.Json.Lexical
import IdlFront.Json.Printer

/-! # The tokens of printed values

* `Json.tokens` — the tokens that a value is printed as.
* `Json.Kept` — a value that its text determines: no doubles in it, and no key twice in an object.
* `Json.split?_print` — the text of such a value splits into its tokens.
-/

namespace IdlFront.Json

/-! ## Values and their tokens -/

mutual

/-- The tokens of a value. -/
def tokens : Json → List Token
  | .string s => [.string s]
  | .array items => .lbracket :: itemTokens items ++ [.rbracket]
  | .object fields => .lbrace :: fieldTokens fields ++ [.rbrace]
  | v => [.scalar v]

/-- The tokens of items with commas between them. -/
def itemTokens : List Json → List Token
  | [] => []
  | [x] => tokens x
  | x :: xs => tokens x ++ .comma :: itemTokens xs

/-- The tokens of fields with commas between them. -/
def fieldTokens : List (String × Json) → List Token
  | [] => []
  | [(k, v)] => .string k :: .colon :: tokens v
  | (k, v) :: fields => .string k :: .colon :: tokens v ++ .comma :: fieldTokens fields

end

mutual

/-- Does its text tell the value? Doubles are left out, and of a key that an object repeats only the
    last value counts. -/
def Kept : Json → Prop
  | .real _ => False
  | .array items => AllKept items
  | .object fields => FieldsKept fields ∧ (fields.map Prod.fst).Nodup
  | _ => True

/-- The same for several values. -/
def AllKept : List Json → Prop
  | [] => True
  | x :: xs => x.Kept ∧ AllKept xs

/-- The same for the values of several fields. -/
def FieldsKept : List (String × Json) → Prop
  | [] => True
  | (_, v) :: fields => v.Kept ∧ FieldsKept fields

end

section Kept

variable {s k : String} {n : Int} {b : Bool} {v : Json} {fields : List (String × Json)}

@[simp] theorem kept_null : Json.null.Kept := trivial

@[simp] theorem kept_string : (Json.string s).Kept := trivial

@[simp] theorem kept_integer : (Json.integer n).Kept := trivial

@[simp] theorem kept_bool : (Json.bool b).Kept := trivial

@[simp] theorem kept_object :
    (Json.object fields).Kept ↔ FieldsKept fields ∧ (fields.map Prod.fst).Nodup := .rfl

@[simp] theorem fieldsKept_nil : FieldsKept [] := trivial

@[simp] theorem fieldsKept_cons : FieldsKept ((k, v) :: fields) ↔ v.Kept ∧ FieldsKept fields := .rfl

theorem kept_array {items : List Json} : (Json.array items).Kept ↔ ∀ x ∈ items, x.Kept := by
  show AllKept items ↔ _
  induction items with
  | nil => simp [AllKept]
  | cons x items ih => simp [AllKept, ih]

end Kept

/-! ## Splitting -/

/-- In front of `rest`, the characters are just the tokens. -/
def Lexes (cs : List Char) (ts : List Token) (rest : List Char) : Prop :=
  Token.split? (cs ++ rest) = (Token.split? rest).map (ts ++ ·)

namespace Lexes

variable {cs ds rest : List Char} {ts us : List Token}

theorem nil : Lexes [] [] rest := by simp [Lexes]

theorem append (h : Lexes cs ts (ds ++ rest)) (h' : Lexes ds us rest) :
    Lexes (cs ++ ds) (ts ++ us) rest := by
  unfold Lexes at *
  rw [List.append_assoc, h, h', Option.map_map]
  congr 1
  funext vs
  exact (List.append_assoc ts us vs).symm

/-- One token, if it is found in front of the rest. -/
theorem token {c : Char} {t : Token} (visible : isBlank c = false)
    (first : Token.first? (c :: cs ++ rest) = some (t, rest)) : Lexes (c :: cs) [t] rest := by
  unfold Lexes
  rw [List.cons_append, Token.split?, visible, if_neg Bool.false_ne_true, ← List.cons_append, first]
  simp only [List.length_append, Nat.le_add_left, if_true, List.singleton_append]

theorem comma : Lexes [','] [.comma] rest := token rfl rfl

theorem colon : Lexes [':'] [.colon] rest := token rfl rfl

/-- What stands between two brackets. -/
theorem array (h : Lexes cs ts (']' :: rest)) :
    Lexes ('[' :: cs ++ [']']) (.lbracket :: ts ++ [.rbracket]) rest := by
  have opening : Lexes ['['] [.lbracket] (cs ++ [']'] ++ rest) := token rfl rfl
  have closing : Lexes [']'] [.rbracket] rest := token rfl rfl
  exact opening.append (h.append closing)

/-- What stands between two braces. -/
theorem object (h : Lexes cs ts ('\x7d' :: rest)) :
    Lexes ('\x7b' :: cs ++ ['\x7d']) (.lbrace :: ts ++ [.rbrace]) rest := by
  have opening : Lexes ['\x7b'] [.lbrace] (cs ++ ['\x7d'] ++ rest) := token rfl rfl
  have closing : Lexes ['\x7d'] [.rbrace] rest := token rfl rfl
  exact opening.append (h.append closing)

end Lexes

/-! ## Strings -/

theorem hex4?_hexDigits : ∀ n < 0x20, ∃ a b c d, Text.hexDigits 4 n = [a, b, c, d] ∧
    hex4? a b c d = some n := by
  intro n hn
  refine ⟨_, _, _, _, rfl, ?_⟩
  revert n
  decide

theorem stringBody_pair {c e : Char} (ne : e ≠ 'u') (known : escaped? e = some c) (cs : List Char) :
    stringBody ('\\' :: e :: cs) = (stringBody cs).map fun read => (c.toNat :: read.1, read.2) := by
  rw [stringBody.eq_4 _ _ fun _ _ _ _ _ eq => absurd eq ne, known]
  cases stringBody cs <;> rfl

/-- A character is read from the way it is written. -/
theorem stringBody_escape (c : Char) (cs : List Char) :
    stringBody (escape c ++ cs) = (stringBody cs).map fun read => (c.toNat :: read.1, read.2) := by
  unfold escape
  split
  · exact stringBody_pair (by decide) rfl cs
  · exact stringBody_pair (by decide) rfl cs
  · exact stringBody_pair (by decide) rfl cs
  · exact stringBody_pair (by decide) rfl cs
  · exact stringBody_pair (by decide) rfl cs
  · exact stringBody_pair (by decide) rfl cs
  · exact stringBody_pair (by decide) rfl cs
  · next quote slash _ _ _ _ _ =>
    split
    · next control =>
      obtain ⟨a, b, x, d, digits, value⟩ := hex4?_hexDigits c.toNat control
      rw [digits]
      show stringBody ('\\' :: 'u' :: a :: b :: x :: d :: cs) = _
      rw [stringBody, value]
      cases stringBody cs <;> rfl
    · next visible =>
      show stringBody (c :: cs) = _
      -- Neither a quote nor a backslash, so the character stands for itself.
      rw [stringBody.eq_5 _ _ quote (fun _ _ _ _ _ eq _ => slash eq) fun _ _ eq _ => slash eq,
        if_neg (not_or.2 ⟨visible, slash⟩)]
      cases stringBody cs <;> rfl

theorem stringBody_print (cs rest : List Char) :
    stringBody (cs.flatMap escape ++ '"' :: rest) = some (cs.map Char.toNat, rest) := by
  induction cs with
  | nil => rfl
  | cons c cs ih =>
    rw [List.flatMap_cons, List.append_assoc, stringBody_escape, ih]
    rfl

/-- No character is one half of a surrogate pair. -/
theorem joinUnits_map (cs : List Char) : joinUnits (cs.map Char.toNat) = cs := by
  have single : ∀ c : Char, ¬ (0xd800 ≤ c.toNat ∧ c.toNat < 0xe000) := by
    intro c half
    have valid : c.toNat < 0xd800 ∨ 0xdfff < c.toNat ∧ c.toNat < 0x110000 := c.valid
    omega
  have unit : ∀ c : Char, joinUnits.unitChar c.toNat = c := fun c => by
    rw [joinUnits.unitChar, if_neg (single c), Char.ofNat_toNat]
  induction cs with
  | nil => rfl
  | cons c cs ih =>
    cases cs with
    | nil => exact congrArg (fun c => [c]) (unit c)
    | cons d cs =>
      rw [List.map_cons, List.map_cons, joinUnits,
        if_neg fun pair => single c ⟨pair.1, Nat.lt_of_lt_of_le pair.2.1 (by decide)⟩, unit]
      exact congrArg (c :: ·) ih

theorem lexes_string (s : String) (rest : List Char) :
    Lexes (printString s) [.string s] rest := by
  refine Lexes.token rfl ?_
  show (stringBody (s.toList.flatMap escape ++ ['"'] ++ rest)).map _ = _
  rw [List.append_assoc, List.singleton_append, stringBody_print, Option.map_some]
  simp only [joinUnits_map, String.ofList_toList]

/-! ## Integers -/

/-- The text goes on with the end of a value. -/
def Delimited (rest : List Char) : Prop := ∀ c ∈ rest.head?, c ∈ [',', ']', '\x7d']

theorem Delimited.cons {c : Char} (h : c ∈ [',', ']', '\x7d']) (rest : List Char) :
    Delimited (c :: rest) := by
  rintro d ⟨⟩
  exact h

/-- A number does not go on behind its digits. -/
theorem Delimited.noMore {rest : List Char} (ends : Delimited rest) :
    fractionDigits rest = ([], rest) ∧ exponentValue rest = (none, rest) := by
  cases rest with
  | nil => exact ⟨rfl, rfl⟩
  | cons c rest =>
    have known := ends c rfl
    simp only [List.mem_cons, List.not_mem_nil, or_false] at known
    obtain rfl | rfl | rfl := known <;> exact ⟨rfl, rfl⟩

theorem isDigit_of_mem_toDigits {n : Nat} {c : Char} (h : c ∈ Nat.toDigits 10 n) :
    isDigit c = true :=
  Nat.isDigit_of_mem_toDigits (by decide) (by decide) h

theorem digitsValue_toDigits (n : Nat) : digitsValue (Nat.toDigits 10 n) = n := by
  have value := Nat.ofDigitChars_ten_toDigits (n := n)
  rw [Nat.ofDigitChars_eq_foldl] at value
  simpa only [digitsValue, Nat.mul_comm] using value

/-- Only zero is written with a zero in front. -/
theorem toDigits_head {n : Nat} (pos : 0 < n) :
    ∃ c cs, Nat.toDigits 10 n = c :: cs ∧ c ≠ '0' := by
  induction n using Nat.strongRecOn with
  | ind n ih =>
    by_cases small : n < 10
    · refine ⟨_, [], Nat.toDigits_of_lt_base small, ?_⟩
      rw [ne_eq, Nat.digitChar_eq_zero]
      omega
    · obtain ⟨c, cs, eq, ne⟩ := ih (n / 10) (by omega) (by omega)
      refine ⟨c, cs ++ [(n % 10).digitChar], ?_, ne⟩
      rw [Nat.toDigits_of_base_le (by decide) (by omega), eq, List.cons_append]

theorem takeWhile_digits {n : Nat} {rest : List Char} (ends : Delimited rest) :
    (Nat.toDigits 10 n ++ rest).takeWhile isDigit = Nat.toDigits 10 n := by
  rw [List.takeWhile_append_of_pos fun c => isDigit_of_mem_toDigits]
  cases rest with
  | nil => simp
  | cons c rest =>
    have other : ∀ c ∈ [',', ']', '\x7d'], ¬ isDigit c = true := by simp [isDigit]
    rw [List.takeWhile_cons_of_neg (other c (ends c rfl)), List.append_nil]

theorem wholeDigits_toDigits {n : Nat} {rest : List Char} (ends : Delimited rest) :
    wholeDigits (Nat.toDigits 10 n ++ rest) = Nat.toDigits 10 n := by
  obtain rfl | pos := Nat.eq_zero_or_pos n
  · rfl
  · obtain ⟨c, cs, eq, ne⟩ := toDigits_head pos
    have all := takeWhile_digits (n := n) ends
    rw [eq, List.cons_append] at all ⊢
    rw [wholeDigits.eq_2 _ fun _ same => ne (List.cons.inj same).1, all]

theorem number?_toDigits (negative : Bool) (n : Nat) {rest : List Char} (ends : Delimited rest) :
    number? negative (Nat.toDigits 10 n ++ rest) =
      some (.integer (if negative then -n else n), rest) := by
  obtain ⟨noFraction, noExponent⟩ := ends.noMore
  unfold number?
  simp only [wholeDigits_toDigits ends, List.drop_left, noFraction, noExponent,
    digitsValue_toDigits, List.isEmpty_nil, Option.isNone_none, Bool.and_self, if_true]
  rw [if_neg (by simp)]

theorem word?_eq_none {cs : List Char} (h : ∀ w ∈ words, ¬ w.1.toList <+: cs) : word? cs = none := by
  rw [word?, List.findSome?_eq_none_iff]
  intro w hw
  have other := h w hw
  rw [← List.isPrefixOf_iff_prefix] at other
  simp [afterWord?, other]

/-- No word starts like an integer. -/
theorem word?_digit {c : Char} (digit : isDigit c = true) (cs : List Char) :
    word? (c :: cs) = none ∧ word? ('-' :: c :: cs) = none := by
  have ne : ∀ x, isDigit x = false → x ≠ c := by
    rintro x other rfl
    rw [digit] at other
    cases other
  constructor
  · refine word?_eq_none ?_
    simp [words, List.cons_prefix_cons, ne 'n' rfl, ne 't' rfl, ne 'f' rfl, ne 'N' rfl, ne 'I' rfl,
      ne '-' rfl]
  · refine word?_eq_none ?_
    simp [words, List.cons_prefix_cons, ne 'I' rfl]

theorem first?_negative {c : Char} (digit : isDigit c = true) (cs : List Char) :
    Token.first? ('-' :: c :: cs) =
      (number? true (c :: cs)).map fun read => (.scalar read.1, read.2) := by
  rw [Token.first?.eq_8, (word?_digit digit cs).2]

theorem first?_digit {c : Char} (digit : isDigit c = true) (cs : List Char) :
    Token.first? (c :: cs) =
      (number? false (c :: cs)).map fun read => (.scalar read.1, read.2) := by
  have other : ∀ {x : Char} {ds : List Char}, isDigit x = false → c :: cs = x :: ds → False := by
    rintro x ds noDigit ⟨⟩
    rw [digit] at noDigit
    cases noDigit
  rw [Token.first?.eq_9 _ (fun _ => other rfl) (fun _ => other rfl) (fun _ => other rfl)
    (fun _ => other rfl) (fun _ => other rfl) (fun _ => other rfl) (fun _ => other rfl)
    (fun _ => other rfl), (word?_digit digit cs).1]

/-- No digit is a blank. -/
theorem isBlank_digit {c : Char} (digit : isDigit c = true) : isBlank c = false := by
  have blanks : ∀ x ∈ [' ', '\t', '\n', '\r'], isDigit x = false := by simp [isDigit]
  have ne : ∀ x ∈ [' ', '\t', '\n', '\r'], (c == x) = false := by
    intro x hx
    rw [beq_eq_false_iff_ne]
    rintro rfl
    rw [blanks c hx] at digit
    cases digit
  simp only [List.forall_mem_cons] at ne
  rw [isBlank, ne.1, ne.2.1, ne.2.2.1, ne.2.2.2.1]
  rfl

theorem lexes_integer (n : Int) {rest : List Char} (ends : Delimited rest) :
    Lexes (printInteger n) [.scalar (.integer n)] rest := by
  obtain ⟨c, cs, eq⟩ := List.exists_cons_of_ne_nil (Nat.toDigits_ne_nil (n := n.natAbs) (b := 10))
  have digit : isDigit c = true := isDigit_of_mem_toDigits (n := n.natAbs) (by simp [eq])
  unfold printInteger
  split
  · next negative =>
    refine Lexes.token rfl ?_
    -- The sign is part of the token; the digits behind it are read as for a positive number.
    have number := number?_toDigits true n.natAbs ends
    rw [eq] at number ⊢
    show Token.first? ('-' :: c :: (cs ++ rest)) = _
    have value : (if true = true then -(n.natAbs : Int) else n.natAbs) = n := by
      rw [if_pos rfl]
      omega
    rw [first?_negative digit, ← List.cons_append, number, value, Option.map_some]
  · next positive =>
    have number := number?_toDigits false n.natAbs ends
    rw [eq] at number ⊢
    refine Lexes.token ?_ ?_
    · exact isBlank_digit digit
    · have value : (if false = true then -(n.natAbs : Int) else n.natAbs) = n := by
        rw [if_neg nofun]
        omega
      rw [List.cons_append, first?_digit digit, ← List.cons_append, number, value, Option.map_some]

/-! ## Values -/

mutual

/-- The text of a value is just its tokens. -/
theorem lexes_print (rest : List Char) (ends : Delimited rest) :
    (j : Json) → j.Kept → Lexes (printChars j) j.tokens rest
  | .null, _ => Lexes.token rfl rfl
  | .bool true, _ => Lexes.token rfl rfl
  | .bool false, _ => Lexes.token rfl rfl
  | .integer n, _ => by
    rw [printChars, tokens]
    · exact lexes_integer n ends
    all_goals nofun
  | .string s, _ => by
    rw [printChars, tokens]
    exact lexes_string s rest
  | .array items, kept => by
    rw [printChars, tokens]
    exact (lexes_items _ (.cons (by decide) rest) items kept).array
  | .object fields, kept => by
    rw [printChars, tokens]
    exact (lexes_fields _ (.cons (by decide) rest) fields kept.1).object

theorem lexes_items (rest : List Char) (ends : Delimited rest) :
    (items : List Json) → AllKept items → Lexes (printItems items) (itemTokens items) rest
  | [], _ => Lexes.nil
  | [x], kept => by
    rw [printItems, itemTokens]
    exact lexes_print rest ends x kept.1
  | x :: y :: items, kept => by
    rw [printItems, itemTokens]
    · exact (lexes_print _ (.cons (by decide) _) x kept.1).append
        (Lexes.comma.append (lexes_items rest ends (y :: items) kept.2))
    all_goals nofun

theorem lexes_fields (rest : List Char) (ends : Delimited rest) :
    (fields : List (String × Json)) → FieldsKept fields →
      Lexes (printFields fields) (fieldTokens fields) rest
  | [], _ => Lexes.nil
  | [(k, v)], kept => by
    rw [printFields, fieldTokens]
    exact (lexes_string k _).append (Lexes.colon.append (lexes_print rest ends v kept.1))
  | (k, v) :: field :: fields, kept => by
    rw [printFields, fieldTokens]
    · have behind : Delimited (',' :: printFields (field :: fields) ++ rest) :=
        .cons (by decide) _
      have first := (lexes_string k _).append (Lexes.colon.append (lexes_print _ behind v kept.1))
      exact first.append (Lexes.comma.append (lexes_fields rest ends (field :: fields) kept.2))
    all_goals nofun

end

/-- The text of a value splits into its tokens. -/
theorem split?_print {j : Json} (kept : j.Kept) : Token.split? (printChars j) = some j.tokens := by
  have all : Lexes (printChars j) j.tokens [] := lexes_print [] (by rintro c ⟨⟩) j kept
  simpa [Lexes, Token.split?] using all

end IdlFront.Json
