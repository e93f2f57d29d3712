import IdlFront.Json.Reader
import IdlFront.Proofs.Json.Lexing

/-! # Reading what was printed

* `Json.run?_tokens` — the tokens of a value take the machine past that value, whatever is open.
* `Json.read?_print` — the text of a value is read as the value.
* `Json.return_not_mem_print` — no carriage return is written.
-/

namespace IdlFront.Json

/-! ## The machine -/

/-- A new key goes to the end. -/
theorem Fields.put_new {fields : Fields} {k : String} {v : Json} (new : k ∉ fields.map Prod.fst) :
    fields.put k v = fields ++ [(k, v)] := by
  induction fields with
  | nil => rfl
  | cons field fields ih =>
    obtain ⟨k', v'⟩ := field
    rw [List.map_cons, List.mem_cons, not_or] at new
    rw [Fields.put, if_neg (Ne.symm new.1), ih new.2, List.cons_append]

theorem new_of_nodup {done fields : Fields} {k : String} {v : Json}
    (distinct : ((done ++ (k, v) :: fields).map Prod.fst).Nodup) : k ∉ done.map Prod.fst := by
  rw [List.map_append, List.nodup_append] at distinct
  exact fun mem => distinct.2.2 k mem k List.mem_cons_self rfl

/-- The first token of an item does not close the array. -/
theorem itemTokens_head (x : Json) (items : List Json) :
    ∃ t ts, itemTokens (x :: items) = t :: ts ∧ t ≠ .rbracket := by
  have first : ∃ t ts, x.tokens = t :: ts ∧ t ≠ .rbracket := by
    cases x <;> exact ⟨_, _, rfl, nofun⟩
  obtain ⟨t, ts, eq, ne⟩ := first
  cases items with
  | nil => exact ⟨t, ts, eq, ne⟩
  | cons y items =>
    rw [itemTokens, eq]
    · exact ⟨t, _, rfl, ne⟩
    · exact List.cons_ne_nil y items

/-- What starts a value starts the first item of an array as well. -/
theorem run?_firstItem (stack : List Frame) (x : Json) (items : List Json) (ts : List Token) :
    (Machine.mk stack .firstItem).run? (itemTokens (x :: items) ++ ts) =
      (Machine.mk (.array [] :: stack) .value).run? (itemTokens (x :: items) ++ ts) := by
  obtain ⟨t, us, eq, ne⟩ := itemTokens_head x items
  have same : (Machine.mk stack .firstItem).step? t =
      (Machine.mk (.array [] :: stack) .value).step? t := by
    cases t <;> first | rfl | exact absurd rfl ne
  rw [eq, List.cons_append, Machine.run?, Machine.run?, same]

/-- A key and a colon lead to the value of the key. -/
theorem run?_key (stack : List Frame) (done : Fields) (k : String) (ts : List Token) :
    (Machine.mk stack (.key done)).run? (.string k :: .colon :: ts) =
      (Machine.mk (.object done k :: stack) .value).run? ts := rfl

mutual

/-- The tokens of a value take the machine past that value. -/
theorem run?_tokens (stack : List Frame) (ts : List Token) :
    (j : Json) → j.Kept →
      (Machine.mk stack .value).run? (j.tokens ++ ts) = (Machine.mk stack (.done j)).run? ts
  | .null, _ => rfl
  | .bool _, _ => rfl
  | .integer _, _ => rfl
  | .string _, _ => rfl
  | .array [], _ => rfl
  | .array (x :: items), kept => by
    rw [tokens, List.append_assoc]
    exact (run?_firstItem stack x items _).trans
      (run?_itemTokens stack ts [] (x :: items) (List.cons_ne_nil _ _) kept)
  | .object [], _ => rfl
  | .object (field :: fields), kept => by
    rw [tokens, List.append_assoc]
    -- The first key is read like a later one, with no fields before it.
    have first : (Machine.mk stack .firstKey).run? (fieldTokens (field :: fields) ++ .rbrace :: ts) =
        (Machine.mk stack (.key [])).run? (fieldTokens (field :: fields) ++ .rbrace :: ts) := by
      cases fields <;> rfl
    exact first.trans
      (run?_fieldTokens stack ts [] (field :: fields) (List.cons_ne_nil _ _) kept.1 kept.2)

/-- Behind some items the tokens of the others take the machine past the array. -/
theorem run?_itemTokens (stack : List Frame) (ts : List Token) (done : List Json) :
    (items : List Json) → items ≠ [] → AllKept items →
      (Machine.mk (.array done :: stack) .value).run? (itemTokens items ++ .rbracket :: ts) =
        (Machine.mk stack (.done (.array (done ++ items)))).run? ts
  | [], ne, _ => absurd rfl ne
  | [x], _, kept => by
    rw [itemTokens, run?_tokens _ _ x kept.1]
    rfl
  | x :: y :: items, _, kept => by
    rw [itemTokens, List.append_assoc, run?_tokens _ _ x kept.1]
    · have more := run?_itemTokens stack ts (done ++ [x]) (y :: items) (List.cons_ne_nil _ _) kept.2
      rw [List.append_assoc] at more
      exact more
    · nofun

/-- Behind some fields the tokens of the others take the machine past the object. -/
theorem run?_fieldTokens (stack : List Frame) (ts : List Token) (done : Fields) :
    (fields : Fields) → fields ≠ [] → FieldsKept fields → ((done ++ fields).map Prod.fst).Nodup →
      (Machine.mk stack (.key done)).run? (fieldTokens fields ++ .rbrace :: ts) =
        (Machine.mk stack (.done (.object (done ++ fields)))).run? ts
  | [], ne, _, _ => absurd rfl ne
  | [(k, v)], _, kept, distinct => by
    rw [fieldTokens, List.cons_append, List.cons_append, run?_key, run?_tokens _ _ v kept.1,
      ← Fields.put_new (new_of_nodup distinct)]
    rfl
  | (k, v) :: field :: fields, _, kept, distinct => by
    -- Keys are distinct, so a field that is put stands at the end.
    have assoc : done ++ (k, v) :: field :: fields = done.put k v ++ field :: fields := by
      rw [Fields.put_new (new_of_nodup distinct), List.append_assoc, List.singleton_append]
    have more := run?_fieldTokens stack ts (done.put k v) (field :: fields) (List.cons_ne_nil _ _)
      kept.2 (by rwa [← assoc])
    rw [fieldTokens, List.append_assoc, List.cons_append, List.cons_append, run?_key,
      run?_tokens _ _ v kept.1, assoc, ← more]
    · rfl
    · nofun

end

/-! ## Texts -/

/-- The text of a value is read as the value. -/
theorem read?_print {j : Json} (kept : j.Kept) : read? j.print = some j := by
  have all := run?_tokens [] [] j kept
  rw [List.append_nil] at all
  rw [read?, print, String.toList_ofList, split?_print kept, Option.bind_some, Machine.start, all]
  rfl

/-! ## Carriage returns -/

theorem return_not_mem_printString (s : String) : '\r' ∉ printString s := by
  have hex : ∀ n < 0x20, '\r' ∉ Text.hexDigits 4 n := by decide
  have each : ∀ c, '\r' ∉ escape c := by
    intro c
    unfold escape
    split
    iterate 7 decide
    · next ne _ _ _ =>
      split
      · next control => simpa using hex c.toNat control
      · simpa using Ne.symm ne
  simp [printString, each]

theorem return_not_mem_printInteger (n : Int) : '\r' ∉ printInteger n := by
  have digits : '\r' ∉ Nat.toDigits 10 n.natAbs := fun mem =>
    absurd (isDigit_of_mem_toDigits mem) (by decide)
  unfold printInteger
  split
  · simpa using digits
  · exact digits

mutual

/-- No carriage return is written. -/
theorem return_not_mem_print : (j : Json) → j.Kept → '\r' ∉ printChars j
  | .null, _ => by decide
  | .bool true, _ => by decide
  | .bool false, _ => by decide
  | .integer n, _ => return_not_mem_printInteger n
  | .string s, _ => return_not_mem_printString s
  | .array items, kept => by
    simpa [printChars] using return_not_mem_printItems items kept
  | .object fields, kept => by
    simpa [printChars] using return_not_mem_printFields fields kept.1

theorem return_not_mem_printItems : (items : List Json) → AllKept items → '\r' ∉ printItems items
  | [], _ => List.not_mem_nil
  | [x], kept => return_not_mem_print x kept.1
  | x :: y :: items, kept => by
    have first := return_not_mem_print x kept.1
    have more := return_not_mem_printItems (y :: items) kept.2
    simp [printItems, first, more]

theorem return_not_mem_printFields :
    (fields : Fields) → FieldsKept fields → '\r' ∉ printFields fields
  | [], _ => List.not_mem_nil
  | [(k, v)], kept => by
    have key := return_not_mem_printString k
    have value := return_not_mem_print v kept.1
    simp [printFields, key, value]
  | (k, v) :: field :: fields, kept => by
    have key := return_not_mem_printString k
    have value := return_not_mem_print v kept.1
    have more := return_not_mem_printFields (field :: fields) kept.2
    simp [printFields, key, value, more]

end

end IdlFront.Json
