import IdlFront.Proofs.Parser.Recovering

/-! # Braces

* `Balanced` — every prefix opens at least as many braces as it closes, and all are closed in the
  end.
* `Closes` — the same for tokens that start some braces deep, along the tokens.
* `Closes.split` — where the innermost of these braces is closed.
* `Closes.drop_syncLength` — skipping stays inside the braces it starts in.
-/

namespace IdlFront

/-! ## Balance -/

/-- The number of tokens of a kind. -/
def countKind (kind : TokenKind) (ts : List Token) : Nat := ts.countP fun t => t.kind == kind

/-- Braces are balanced. -/
structure Balanced (ts : List Token) : Prop where
  opened : ∀ front, front <+: ts →
    countKind (.punct .rbrace) front ≤ countKind (.punct .lbrace) front
  settled : countKind (.punct .rbrace) ts = countKind (.punct .lbrace) ts

/-- From a brace depth the tokens lead to depth zero, and never below. -/
def Closes : Nat → List Token → Prop
  | depth, [] => depth = 0
  | depth, t :: ts =>
    (t.kind = .punct .rbrace → 0 < depth) ∧ Closes (depthAfter depth t.kind) ts

theorem countKind_cons (kind : TokenKind) (t : Token) (ts : List Token) :
    countKind kind (t :: ts) = countKind kind ts + if t.kind = kind then 1 else 0 := by
  simp [countKind, List.countP_cons]

theorem depthAfter_eq {depth : Nat} {t : Token} (h : t.kind = .punct .rbrace → 0 < depth) :
    depthAfter depth t.kind + (if t.kind = .punct .rbrace then 1 else 0) =
      depth + if t.kind = .punct .lbrace then 1 else 0 := by
  unfold depthAfter
  split
  · next eq => simp [eq]
  · next eq =>
    have := h eq
    simp [eq]
    omega
  · next open_ close => rw [if_neg close, if_neg open_]

theorem closes_iff {depth : Nat} {ts : List Token} :
    Closes depth ts ↔
      (∀ front, front <+: ts →
        countKind (.punct .rbrace) front ≤ depth + countKind (.punct .lbrace) front) ∧
      countKind (.punct .rbrace) ts = depth + countKind (.punct .lbrace) ts := by
  induction ts generalizing depth with
  | nil =>
    constructor
    · rintro rfl
      refine ⟨fun front h => ?_, rfl⟩
      rw [List.prefix_nil.1 h]
      exact Nat.le_refl _
    · rintro ⟨-, h⟩
      simpa [Closes, countKind, eq_comm] using h
  | cons t ts ih =>
    rw [Closes, ih, countKind_cons, countKind_cons]
    constructor
    · rintro ⟨deep, inner, total⟩
      -- Counts over a front are those over its tail, moved by the first token.
      have step := depthAfter_eq deep
      refine ⟨fun front h => ?_, by omega⟩
      cases front with
      | nil => exact Nat.zero_le _
      | cons u us =>
        obtain ⟨rfl, shorter⟩ := List.cons_prefix_cons.1 h
        have := inner us shorter
        rw [countKind_cons, countKind_cons]
        omega
    · rintro ⟨inner, total⟩
      -- A first brace that closes is a front of its own, so there is something for it to close.
      have deep : t.kind = .punct .rbrace → 0 < depth := by
        intro eq
        have := inner [t] (by simp)
        simp [countKind, eq] at this
        omega
      have step := depthAfter_eq deep
      refine ⟨deep, fun front h => ?_, by omega⟩
      have := inner (t :: front) (List.cons_prefix_cons.2 ⟨rfl, h⟩)
      rw [countKind_cons, countKind_cons] at this
      omega

theorem balanced_iff_closes {ts : List Token} : Balanced ts ↔ Closes 0 ts := by
  rw [closes_iff]
  simp only [Nat.zero_add]
  exact ⟨fun h => ⟨h.opened, h.settled⟩, fun h => ⟨h.1, h.2⟩⟩

theorem balanced_nil : Balanced [] := balanced_iff_closes.2 rfl

/-! ## Blocks -/

theorem depthAfter_unbraced (depth : Nat) (kind : TokenKind) [h : Unbraced kind] :
    depthAfter depth kind = depth := by
  unfold depthAfter
  split
  · exact absurd rfl h.open_
  · exact absurd rfl h.close
  · rfl

namespace Closes

variable {depth : Nat} {t : Token} {ts us : List Token}

theorem tail (h : Closes depth (t :: ts)) [Unbraced t.kind] : Closes depth ts := by
  have := h.2
  rwa [depthAfter_unbraced] at this

theorem first_ne_rbrace (h : Closes 0 (t :: ts)) : t.kind ≠ .punct .rbrace := fun eq =>
  absurd (h.1 eq) (Nat.lt_irrefl 0)

/-- Tokens that close what they open, then a brace that closes one more. -/
theorem append_rbrace {k : Nat} (h : Closes k ts) (close : t.kind = .punct .rbrace)
    (rest : Closes depth us) : Closes (k + depth + 1) (ts ++ t :: us) := by
  induction ts generalizing k with
  | nil =>
    cases h
    rw [List.nil_append, Closes, close]
    exact ⟨fun _ => Nat.succ_pos _, by simpa [depthAfter] using rest⟩
  | cons u us ih =>
    obtain ⟨deep, inner⟩ := h
    refine ⟨fun _ => Nat.succ_pos _, ?_⟩
    have step := ih inner
    -- A token moves both depths alike: a closing brace finds one to close in either.
    have depths : depthAfter (k + depth + 1) u.kind = depthAfter k u.kind + depth + 1 := by
      unfold depthAfter
      split
      · omega
      · next eq =>
        have := deep eq
        omega
      · rfl
    rwa [depths]

/-- Inside a brace, the tokens up to the one that closes it are balanced. -/
theorem split (h : Closes (depth + 1) ts) :
    ∃ inner close rest, ts = inner ++ close :: rest ∧ Closes 0 inner ∧
      close.kind = .punct .rbrace ∧ Closes depth rest := by
  induction hn : ts.length using Nat.strongRecOn generalizing ts depth with
  | ind n ih =>
    cases ts with
    | nil => cases h
    | cons t ts =>
      obtain ⟨-, after⟩ := h
      rw [List.length_cons] at hn
      by_cases close : t.kind = .punct .rbrace
      · rw [close] at after
        exact ⟨[], t, ts, rfl, rfl, close, after⟩
      by_cases open_ : t.kind = .punct .lbrace
      · -- The brace that opens here is closed first, and then the one around it.
        rw [open_] at after
        obtain ⟨inner, c, rest, rfl, hinner, hc, hrest⟩ := ih ts.length (by omega) after rfl
        obtain ⟨outer, r, rest, rfl, houter, hr, hrest⟩ :=
          ih rest.length (by simp at hn ⊢; omega) hrest rfl
        refine ⟨t :: (inner ++ c :: outer), r, rest, by simp, ?_, hr, hrest⟩
        have block : Closes (0 + 0 + 1) (inner ++ c :: outer) := append_rbrace hinner hc houter
        exact ⟨fun eq => absurd eq close, by rw [open_]; exact block⟩
      · have : Unbraced t.kind := ⟨open_, close⟩
        rw [depthAfter_unbraced] at after
        obtain ⟨inner, c, rest, rfl, hinner, hc, hrest⟩ := ih ts.length (by omega) after rfl
        refine ⟨t :: inner, c, rest, rfl, ?_, hc, hrest⟩
        exact ⟨fun eq => absurd eq close, by rwa [depthAfter_unbraced]⟩

/-- Skipping goes no further than the brace that closes the block it starts in. -/
theorem drop_syncLength {resume : List TokenKind} {r : Token} {R : List Token}
    (stops : .punct .rbrace ∈ resume) (close : r.kind = .punct .rbrace) (h : Closes depth ts) :
    ∃ rest, Closes 0 rest ∧ (ts ++ r :: R).drop (syncLength resume depth (ts ++ r :: R)) =
      rest ++ r :: R := by
  induction ts generalizing depth with
  -- Where the block ends, the brace that closes it stops the skipping.
  | nil =>
    cases h
    refine ⟨[], rfl, ?_⟩
    rw [List.nil_append, syncLength, if_neg (by simp [close]), if_pos (by simp [close, stops])]
    rfl
  | cons t ts ih =>
    rw [List.cons_append, syncLength]
    split
    · next stop =>
      obtain ⟨rfl, semicolon⟩ := stop
      have : Unbraced t.kind := ⟨by simp [semicolon], by simp [semicolon]⟩
      exact ⟨ts, h.tail, rfl⟩
    split
    · next stop =>
      obtain ⟨rfl, -⟩ := stop
      exact ⟨t :: ts, h, rfl⟩
    · exact ih h.2

end Closes

end IdlFront
