import IdlFront.Text.Utf8

/-! # Texts through bytes

* `Utf8.decode_encode` — the characters that are written are read back.
* `Utf8.decode_eq_ok_iff` — bytes are read just if they are those of a text.
* `Utf8.prefix_of_encode` — bytes that break off inside a text are no text, or one that breaks off there.
* `withLineFeeds_eq` — a text without carriage returns is read as it is.
-/

namespace IdlFront.Text

namespace Utf8

/-! ## Bytes of one character -/

theorem toNat_tailByte (n : Nat) : (tailByte n).toNat = 0x80 + n % 0x40 := by
  simp only [tailByte, Nat.toUInt8_eq, UInt8.toNat_ofNat']
  omega

theorem toNat_leadByte {n : Nat} (h : n < 0x100) : n.toUInt8.toNat = n := by
  simp only [Nat.toUInt8_eq, UInt8.toNat_ofNat']
  omega

/-- What the bytes of a character give is the character if it is its number. -/
theorem ofNat_eq {c : Char} {n : Nat} (h : n = c.toNat) : Char.ofNat n = c := by
  rw [h, Char.ofNat_toNat]

section Reading

variable {position : Nat} {p : Pending} {b : UInt8} {bs : List UInt8} {owed : Nat}

theorem ofLead?_one (h : b.toNat < 0x80) :
    Pending.ofLead? position b = some ⟨position, b, b.toNat, 0, 0x80, 0xbf⟩ := by
  rw [Pending.ofLead?, if_pos (UInt8.lt_iff_toNat_lt.2 h)]

theorem ofLead?_two (low : 0xc2 ≤ b.toNat) (high : b.toNat < 0xe0) :
    Pending.ofLead? position b = some ⟨position, b, b.toNat - 0xc0, 1, 0x80, 0xbf⟩ := by
  have ends : ¬ b < 0x80 ∧ ¬ b < 0xc2 ∧ b < 0xe0 := by
    simp only [UInt8.lt_iff_toNat_lt, UInt8.reduceToNat]
    omega
  rw [Pending.ofLead?, if_neg ends.1, if_neg ends.2.1, if_pos ends.2.2]

theorem ofLead?_three (low : 0xe0 ≤ b.toNat) (high : b.toNat < 0xf0) :
    Pending.ofLead? position b = some ⟨position, b, b.toNat - 0xe0, 2,
      if b.toNat = 0xe0 then 0xa0 else 0x80, if b.toNat = 0xed then 0x9f else 0xbf⟩ := by
  have ends : ¬ b < 0x80 ∧ ¬ b < 0xc2 ∧ ¬ b < 0xe0 ∧ b < 0xf0 := by
    simp only [UInt8.lt_iff_toNat_lt, UInt8.reduceToNat]
    omega
  rw [Pending.ofLead?, if_neg ends.1, if_neg ends.2.1, if_neg ends.2.2.1, if_pos ends.2.2.2]
  simp only [← UInt8.toNat_inj, UInt8.reduceToNat]

theorem ofLead?_four (low : 0xf0 ≤ b.toNat) (high : b.toNat < 0xf5) :
    Pending.ofLead? position b = some ⟨position, b, b.toNat - 0xf0, 3,
      if b.toNat = 0xf0 then 0x90 else 0x80, if b.toNat = 0xf4 then 0x8f else 0xbf⟩ := by
  have ends : ¬ b < 0x80 ∧ ¬ b < 0xc2 ∧ ¬ b < 0xe0 ∧ ¬ b < 0xf0 ∧ b < 0xf5 := by
    simp only [UInt8.lt_iff_toNat_lt, UInt8.reduceToNat]
    omega
  rw [Pending.ofLead?, if_neg ends.1, if_neg ends.2.1, if_neg ends.2.2.1, if_neg ends.2.2.2.1,
    if_pos ends.2.2.2.2]
  simp only [← UInt8.toNat_inj, UInt8.reduceToNat]

theorem decodeFrom_lead (lead : Pending.ofLead? position b = some p) (owes : p.owed = owed + 1) :
    decodeFrom position none (b :: bs) = decodeFrom (position + 1) (some p) bs := by
  rw [decodeFrom, lead]
  simp only [owes, Nat.add_one_ne_zero, if_false]

theorem decodeFrom_more (owes : p.owed = owed + 2) (low : p.low.toNat ≤ b.toNat)
    (high : b.toNat ≤ p.high.toNat) :
    decodeFrom position (some p) (b :: bs) =
      decodeFrom (position + 1) (some (p.add b (owed + 1))) bs := by
  rw [decodeFrom, if_pos ⟨UInt8.le_iff_toNat_le.2 low, UInt8.le_iff_toNat_le.2 high⟩, owes]

theorem decodeFrom_last (owes : p.owed = 1) (low : p.low.toNat ≤ b.toNat)
    (high : b.toNat ≤ p.high.toNat) :
    decodeFrom position (some p) (b :: bs) =
      (Char.ofNat (p.value * 0x40 + (b.toNat - 0x80)) :: ·) <$> decodeFrom (position + 1) none bs := by
  rw [decodeFrom, if_pos ⟨UInt8.le_iff_toNat_le.2 low, UInt8.le_iff_toNat_le.2 high⟩, owes]
  rfl

end Reading

/-! ## Characters -/

theorem decodeFrom_encodeChar (position : Nat) (c : Char) (bs : List UInt8) :
    decodeFrom position none (encodeChar c ++ bs) =
      (c :: ·) <$> decodeFrom (position + (encodeChar c).length) none bs := by
  -- A character is no surrogate: the second byte behind `0xed` depends on it.
  have valid : c.toNat < 0xd800 ∨ 0xdfff < c.toNat ∧ c.toNat < 0x110000 := c.valid
  unfold encodeChar
  generalize hn : c.toNat = n at valid
  have tail := toNat_tailByte n
  have tail' := toNat_tailByte (n / 0x40)
  have tail'' := toNat_tailByte (n / 0x1000)
  -- One case for each number of bytes. A second byte is in the range that its lead leaves for it.
  simp only
  split
  · have lead := toNat_leadByte (n := n) (by omega)
    rw [List.singleton_append, decodeFrom, ofLead?_one (by omega)]
    simp only [if_true, lead, ofNat_eq hn.symm]
    rfl
  split
  · have lead := toNat_leadByte (n := 0xc0 + n / 0x40) (by omega)
    rw [List.cons_append, List.singleton_append,
      decodeFrom_lead (ofLead?_two (by omega) (by omega)) rfl,
      decodeFrom_last rfl (by simp; omega) (by simp; omega), ofNat_eq (c := c)]
    · rfl
    · simp only
      omega
  split
  · have lead := toNat_leadByte (n := 0xe0 + n / 0x1000) (by omega)
    rw [List.cons_append, List.cons_append, List.singleton_append,
      decodeFrom_lead (ofLead?_three (by omega) (by omega)) rfl, decodeFrom_more rfl,
      decodeFrom_last rfl (by simp [Pending.add]; omega) (by simp [Pending.add]; omega),
      ofNat_eq (c := c)]
    · rfl
    · simp only [Pending.add]
      omega
    · simp only
      split <;> simp only [UInt8.reduceToNat] <;> omega
    · simp only
      split <;> simp only [UInt8.reduceToNat] <;> omega
  · have lead := toNat_leadByte (n := 0xf0 + n / 0x40000) (by omega)
    rw [List.cons_append, List.cons_append, List.cons_append, List.singleton_append,
      decodeFrom_lead (ofLead?_four (by omega) (by omega)) rfl, decodeFrom_more rfl,
      decodeFrom_more rfl (by simp [Pending.add]; omega) (by simp [Pending.add]; omega),
      decodeFrom_last rfl (by simp [Pending.add]; omega) (by simp [Pending.add]; omega),
      ofNat_eq (c := c)]
    · rfl
    · simp only [Pending.add]
      omega
    · simp only
      split <;> simp only [UInt8.reduceToNat] <;> omega
    · simp only
      split <;> simp only [UInt8.reduceToNat] <;> omega

theorem decodeFrom_encode (position : Nat) (cs : List Char) (bs : List UInt8) :
    decodeFrom position none (encode cs ++ bs) =
      (cs ++ ·) <$> decodeFrom (position + (encode cs).length) none bs := by
  induction cs generalizing position with
  | nil => exact (id_map (decodeFrom position none bs)).symm
  | cons c cs ih =>
    rw [encode, List.flatMap_cons, ← encode, List.append_assoc, decodeFrom_encodeChar, ih,
      List.length_append, Nat.add_assoc]
    cases decodeFrom (position + ((encodeChar c).length + (encode cs).length)) none bs <;> rfl

/-- The characters that are written are read back. -/
theorem decode_encode (cs : List Char) : decode (encode cs) = .ok cs := by
  have all := decodeFrom_encode 0 cs []
  rw [List.append_nil, decodeFrom] at all
  exact all.trans (congrArg Except.ok (List.append_nil cs))

/-! ## Bytes that are read -/

section Reading

variable {position : Nat} {p : Pending} {b b₁ b₂ b₃ : UInt8} {bs bytes : List UInt8} {cs : List Char}

theorem toNat_ofNat {n : Nat} (valid : n < 0xd800 ∨ 0xdfff < n ∧ n < 0x110000) :
    (Char.ofNat n).toNat = n := by
  have : n.isValidChar := valid
  rw [Char.ofNat, dif_pos this]
  rfl

/-! The bytes of the number that one to four bytes make. -/

theorem encodeChar_one (high : b.toNat < 0x80) : encodeChar (Char.ofNat b.toNat) = [b] := by
  have number := toNat_ofNat (n := b.toNat) (by omega)
  unfold encodeChar
  simp only [number]
  rw [if_pos high]
  simp

theorem encodeChar_two (low : 0xc2 ≤ b.toNat) (high : b.toNat < 0xe0) (low₁ : 0x80 ≤ b₁.toNat)
    (high₁ : b₁.toNat ≤ 0xbf) :
    encodeChar (Char.ofNat ((b.toNat - 0xc0) * 0x40 + (b₁.toNat - 0x80))) = [b, b₁] := by
  generalize hn : (b.toNat - 0xc0) * 0x40 + (b₁.toNat - 0x80) = n
  have number := toNat_ofNat (n := n) (by omega)
  unfold encodeChar
  simp only [number]
  rw [if_neg (by omega), if_pos (by omega)]
  simp only [List.cons.injEq, and_true, ← UInt8.toNat_inj, toNat_tailByte]
  rw [toNat_leadByte (by omega)]
  omega

theorem encodeChar_three (low : 0xe0 ≤ b.toNat) (high : b.toNat < 0xf0)
    (low₁ : (if b.toNat = 0xe0 then 0xa0 else 0x80) ≤ b₁.toNat)
    (high₁ : b₁.toNat ≤ if b.toNat = 0xed then 0x9f else 0xbf) (low₂ : 0x80 ≤ b₂.toNat)
    (high₂ : b₂.toNat ≤ 0xbf) :
    encodeChar (Char.ofNat (((b.toNat - 0xe0) * 0x40 + (b₁.toNat - 0x80)) * 0x40 +
      (b₂.toNat - 0x80))) = [b, b₁, b₂] := by
  generalize hn : ((b.toNat - 0xe0) * 0x40 + (b₁.toNat - 0x80)) * 0x40 + (b₂.toNat - 0x80) = n
  have bounds : 0x80 ≤ b₁.toNat ∧ b₁.toNat ≤ 0xbf := by split at low₁ <;> split at high₁ <;> omega
  have least : 0x800 ≤ n := by split at low₁ <;> omega
  have number := toNat_ofNat (n := n) (by split at high₁ <;> omega)
  unfold encodeChar
  simp only [number]
  rw [if_neg (by omega), if_neg (by omega), if_pos (by omega)]
  simp only [List.cons.injEq, and_true, ← UInt8.toNat_inj, toNat_tailByte]
  rw [toNat_leadByte (by omega)]
  omega

theorem encodeChar_four (low : 0xf0 ≤ b.toNat) (high : b.toNat < 0xf5)
    (low₁ : (if b.toNat = 0xf0 then 0x90 else 0x80) ≤ b₁.toNat)
    (high₁ : b₁.toNat ≤ if b.toNat = 0xf4 then 0x8f else 0xbf) (low₂ : 0x80 ≤ b₂.toNat)
    (high₂ : b₂.toNat ≤ 0xbf) (low₃ : 0x80 ≤ b₃.toNat) (high₃ : b₃.toNat ≤ 0xbf) :
    encodeChar (Char.ofNat ((((b.toNat - 0xf0) * 0x40 + (b₁.toNat - 0x80)) * 0x40 +
      (b₂.toNat - 0x80)) * 0x40 + (b₃.toNat - 0x80))) = [b, b₁, b₂, b₃] := by
  generalize hn : (((b.toNat - 0xf0) * 0x40 + (b₁.toNat - 0x80)) * 0x40 + (b₂.toNat - 0x80)) * 0x40 +
    (b₃.toNat - 0x80) = n
  have bounds : 0x80 ≤ b₁.toNat ∧ b₁.toNat ≤ 0xbf := by split at low₁ <;> split at high₁ <;> omega
  have range : 0x10000 ≤ n ∧ n < 0x110000 := by
    split at low₁ <;> split at high₁ <;> omega
  have number := toNat_ofNat (n := n) (by omega)
  unfold encodeChar
  simp only [number]
  rw [if_neg (by omega), if_neg (by omega), if_neg (by omega)]
  simp only [List.cons.injEq, and_true, ← UInt8.toNat_inj, toNat_tailByte]
  rw [toNat_leadByte (by omega)]
  omega


theorem ok_of_map {α β ε : Type} {f : α → β} {x : Except ε α} {y : β} (h : f <$> x = .ok y) :
    ∃ a, x = .ok a ∧ f a = y := by
  cases x with
  | error e => cases h
  | ok a =>
    cases h
    exact ⟨a, rfl, rfl⟩

theorem ofLead?_none (h : 0x80 ≤ b.toNat ∧ b.toNat < 0xc2 ∨ 0xf5 ≤ b.toNat) :
    Pending.ofLead? position b = none := by
  have ends : ¬ b < 0x80 ∧ (b < 0xc2 ∨ ¬ b < 0xc2 ∧ ¬ b < 0xe0 ∧ ¬ b < 0xf0 ∧ ¬ b < 0xf5) := by
    simp only [UInt8.lt_iff_toNat_lt, UInt8.reduceToNat]
    omega
  rw [Pending.ofLead?, if_neg ends.1]
  obtain start | ⟨two, three, four, beyond⟩ := ends.2
  · rw [if_pos start]
  · rw [if_neg two, if_neg three, if_neg four, if_neg beyond]

/-- What a byte that is owed has to be, and what is read behind it. -/
theorem decodeFrom_some_ok (h : decodeFrom position (some p) bytes = .ok cs) :
    ∃ b bs, bytes = b :: bs ∧ p.low.toNat ≤ b.toNat ∧ b.toNat ≤ p.high.toNat ∧
      (∀ owed, p.owed = owed + 2 →
        decodeFrom (position + 1) (some (p.add b (owed + 1))) bs = .ok cs) ∧
      (p.owed = 1 → ∃ cs', cs = Char.ofNat (p.value * 0x40 + (b.toNat - 0x80)) :: cs' ∧
        decodeFrom (position + 1) none bs = .ok cs') := by
  cases bytes with
  | nil => cases h
  | cons b bs =>
    rw [decodeFrom] at h
    split at h
    · next range =>
      refine ⟨b, bs, rfl, UInt8.le_iff_toNat_le.1 range.1, UInt8.le_iff_toNat_le.1 range.2, ?_, ?_⟩
      · intro owed owes
        rwa [owes] at h
      · intro owes
        rw [owes] at h
        obtain ⟨cs', rest, rfl⟩ := ok_of_map h
        exact ⟨cs', rfl, rest⟩
    · cases h

/-- What is read first was written so. -/
theorem decodeFrom_cons_ok (h : decodeFrom position none (b :: bs) = .ok cs) :
    ∃ c rest cs', b :: bs = encodeChar c ++ rest ∧ cs = c :: cs' ∧
      ∃ position', decodeFrom position' none rest = .ok cs' := by
  have behind : ∀ {p owed}, Pending.ofLead? position b = some p → p.owed = owed + 1 →
      decodeFrom (position + 1) (some p) bs = .ok cs := fun lead owes => by
    rwa [decodeFrom_lead lead owes] at h
  have toNat_ite : ∀ {q : Prop} [Decidable q] (b b₁ : UInt8),
      (if q then b else b₁).toNat = if q then b.toNat else b₁.toNat := fun b b₁ =>
    apply_ite UInt8.toNat _ b b₁
  -- One case for each number of bytes.
  by_cases one : b.toNat < 0x80
  · rw [decodeFrom, ofLead?_one one] at h
    obtain ⟨cs', rest, rfl⟩ := ok_of_map h
    exact ⟨_, bs, cs', congrArg (· ++ bs) (encodeChar_one one).symm, rfl, _, rest⟩
  by_cases unknown : b.toNat < 0xc2 ∨ 0xf5 ≤ b.toNat
  · rw [decodeFrom, ofLead?_none (by omega)] at h
    cases h
  by_cases two : b.toNat < 0xe0
  · obtain ⟨b₁, bs, rfl, low₁, high₁, -, last⟩ :=
      decodeFrom_some_ok (behind (ofLead?_two (by omega) two) rfl)
    obtain ⟨cs', rfl, rest⟩ := last rfl
    have written := encodeChar_two (by omega) two low₁ high₁
    exact ⟨_, bs, cs', congrArg (· ++ bs) written.symm, rfl, _, rest⟩
  by_cases three : b.toNat < 0xf0
  · obtain ⟨b₁, bs, rfl, low₁, high₁, more, -⟩ :=
      decodeFrom_some_ok (behind (ofLead?_three (by omega) three) rfl)
    obtain ⟨b₂, bs, rfl, low₂, high₂, -, last⟩ := decodeFrom_some_ok (more 0 rfl)
    obtain ⟨cs', rfl, rest⟩ := last rfl
    rw [toNat_ite] at low₁ high₁
    have written := encodeChar_three (by omega) three low₁ high₁ low₂ high₂
    exact ⟨_, bs, cs', congrArg (· ++ bs) written.symm, rfl, _, rest⟩
  · obtain ⟨b₁, bs, rfl, low₁, high₁, more, -⟩ :=
      decodeFrom_some_ok (behind (ofLead?_four (by omega) (by omega)) rfl)
    obtain ⟨b₂, bs, rfl, low₂, high₂, more', -⟩ := decodeFrom_some_ok (more 1 rfl)
    obtain ⟨b₃, bs, rfl, low₃, high₃, -, last⟩ := decodeFrom_some_ok (more' 0 rfl)
    obtain ⟨cs', rfl, rest⟩ := last rfl
    rw [toNat_ite] at low₁ high₁
    have written := encodeChar_four (by omega) (by omega) low₁ high₁ low₂ high₂ low₃ high₃
    exact ⟨_, bs, cs', congrArg (· ++ bs) written.symm, rfl, _, rest⟩

theorem eq_encode_of_decodeFrom (h : decodeFrom position none bytes = .ok cs) : bytes = encode cs := by
  induction cs generalizing position bytes with
  | nil =>
    cases bytes with
    | nil => rfl
    | cons b bs =>
      obtain ⟨_, _, _, -, eq, -⟩ := decodeFrom_cons_ok h
      cases eq
  | cons c cs ih =>
    cases bytes with
    | nil => cases h
    | cons b bs =>
      obtain ⟨c', rest, cs', written, eq, position', more⟩ := decodeFrom_cons_ok h
      cases eq
      rw [written, encode, List.flatMap_cons, ← encode, ← ih more]

/-- Bytes are read as the characters that they are written for, and as no others. -/
theorem decode_eq_ok_iff : decode bytes = .ok cs ↔ bytes = encode cs :=
  ⟨eq_encode_of_decodeFrom, fun h => h ▸ decode_encode cs⟩

/-- A text whose bytes are in front of those of another one is in front of that one. -/
theorem prefix_of_encode {ds : List Char} (h : encode ds <+: encode cs) : ds <+: cs := by
  obtain ⟨more, eq⟩ := h
  have read := decode_encode cs
  rw [← eq, decode, decodeFrom_encode] at read
  obtain ⟨es, -, rfl⟩ := ok_of_map read
  exact List.prefix_append ds es

end Reading

end Utf8

/-! ## Lines -/

/-- A text without carriage returns is read as it is. -/
theorem withLineFeeds_eq {cs : List Char} (h : '\r' ∉ cs) : withLineFeeds cs = cs := by
  induction cs with
  | nil => rfl
  | cons c cs ih =>
    have ne : c ≠ '\r' := fun eq => h (eq ▸ List.mem_cons_self)
    have rest : '\r' ∉ cs := fun mem => h (List.mem_cons_of_mem _ mem)
    rw [withLineFeeds.eq_3 _ _ (fun _ eq _ => ne eq) ne, ih rest]

end IdlFront.Text
