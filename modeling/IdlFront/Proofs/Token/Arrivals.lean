import IdlFront.Token.Stream

/-! # Tokens of source texts

* `Lexeme.kind_ne_eof` — no stretch of text is the end of input.
* `arrivals_eq` — the end of input comes once, after all other tokens.
* `arrivals_ordered` — every token ends before the next one starts.
-/

namespace IdlFront

/-! ## The end of input -/

theorem wordKind_ne_eof (text : List Char) : wordKind text ≠ .eof := by
  unfold wordKind
  split <;> exact TokenKind.noConfusion

theorem decimalLexeme_kind_ne_eof (cs : List Char) : (decimalLexeme cs).kind ≠ .token .eof := by
  unfold decimalLexeme
  simp only
  split <;> simp [Lexeme.sound]

theorem numberLexeme_kind_ne_eof (cs : List Char) : (numberLexeme cs).kind ≠ .token .eof := by
  unfold numberLexeme
  split
  · split
    · split <;> simp [Lexeme.sound]
    · exact decimalLexeme_kind_ne_eof _
  · exact decimalLexeme_kind_ne_eof _

namespace Lexeme

theorem solid_kind_ne_eof (c : Char) (cs : List Char) : (solid c cs).kind ≠ .token .eof := by
  unfold solid
  split
  · simp [sound]
  split
  · simp
  split
  · simp [sound]
  split
  · exact numberLexeme_kind_ne_eof _
  split
  · simp [sound, wordKind_ne_eof]
  · simp

theorem first_kind_ne_eof (c : Char) (cs : List Char) : (first c cs).kind ≠ .token .eof := by
  unfold first
  split
  · simp [sound]
  split
  · simp [sound]
  · simp
  · exact solid_kind_ne_eof c cs

theorem kind_ne_eof {cs : List Char} {l : Lexeme} (h : l ∈ split cs) : l.kind ≠ .token .eof := by
  induction hn : cs.length using Nat.strongRecOn generalizing cs with
  | ind n ih =>
    cases cs with
    | nil => simp [split] at h
    | cons c cs =>
      rw [split] at h
      obtain rfl | h := List.mem_cons.1 h
      · exact first_kind_ne_eof c cs
      · refine ih _ ?_ h rfl
        rw [← hn, List.length_drop, List.length_cons]
        omega

end Lexeme

theorem arrivalsFrom_eq {ls : List Lexeme} (noEof : ∀ l ∈ ls, l.kind ≠ .token .eof) (p : Position)
    (pending : List Diagnostic) : ∃ as last, arrivalsFrom p pending ls = as ++ [last] ∧
      (∀ a ∈ as, a.token.kind ≠ .eof) ∧ last.token.kind = .eof := by
  induction ls generalizing p pending with
  | nil => exact ⟨[], _, rfl, by simp, rfl⟩
  | cons l ls ih =>
    have later := fun p pending =>
      ih (fun l' h => noEof l' (List.mem_cons_of_mem l h)) p pending
    rw [arrivalsFrom]
    split
    · next kind eq =>
      obtain ⟨as, last, h, before, ending⟩ := later (p.after l.text) []
      have kindNe : kind ≠ .eof := fun h => noEof l List.mem_cons_self (h ▸ eq)
      refine ⟨_ :: as, last, by rw [h]; rfl, ?_, ending⟩
      intro a ha
      obtain rfl | ha := List.mem_cons.1 ha
      · exact kindNe
      · exact before a ha
    · exact later (p.after l.text) _

/-- The end of input comes once, after all other tokens. -/
theorem arrivals_eq (source : String) : ∃ as last, arrivals source = as ++ [last] ∧
    (∀ a ∈ as, a.token.kind ≠ .eof) ∧ last.token.kind = .eof :=
  arrivalsFrom_eq (fun _ h => Lexeme.kind_ne_eof h) _ _

/-! ## The order of tokens -/

theorem Position.offset_after (p : Position) (text : List Char) :
    (p.after text).offset = p.offset + text.length := by
  unfold Position.after
  induction text generalizing p with
  | nil => rfl
  | cons c cs ih =>
    rw [List.foldl_cons, ih, List.length_cons]
    have : (p.next c).offset = p.offset + 1 := by
      unfold Position.next
      split <;> rfl
    omega

theorem Position.stop_token (p : Position) (kind : TokenKind) (text : List Char) :
    (p.token kind text).stop = (p.after text).offset := by
  rw [Position.offset_after]
  simp [Position.token, Token.stop]

/-- One token ends before another starts. -/
def Token.Before (t u : Token) : Prop := t.stop ≤ u.offset

theorem arrivalsFrom_ordered (p : Position) (pending : List Diagnostic) (ls : List Lexeme) :
    (∀ a ∈ arrivalsFrom p pending ls, (p.offset : Int) ≤ a.token.offset) ∧
      ((arrivalsFrom p pending ls).map Arrival.token).Pairwise Token.Before := by
  induction ls generalizing p pending with
  | nil => simp [arrivalsFrom, Position.token]
  | cons l ls ih =>
    -- A lexeme moves the position forward, whether it is a token or not.
    have further : (p.offset : Int) ≤ (p.after l.text).offset := by
      rw [Position.offset_after]
      omega
    rw [arrivalsFrom]
    split
    · next kind _ =>
      obtain ⟨after, ordered⟩ := ih (p.after l.text) []
      constructor
      · intro a ha
        obtain rfl | ha := List.mem_cons.1 ha
        · exact Int.le_refl _
        · exact Int.le_trans further (after a ha)
      · rw [List.map_cons, List.pairwise_cons]
        refine ⟨?_, ordered⟩
        intro t ht
        obtain ⟨a, ha, rfl⟩ := List.mem_map.1 ht
        rw [Token.Before, Position.stop_token]
        exact after a ha
    · obtain ⟨after, ordered⟩ := ih (p.after l.text) (pending ++ p.faults l)
      exact ⟨fun a ha => Int.le_trans further (after a ha), ordered⟩

/-- Every token ends before the next one starts. -/
theorem arrivals_ordered (source : String) :
    ((arrivals source).map Arrival.token).Pairwise Token.Before :=
  (arrivalsFrom_ordered _ _ _).2

end IdlFront
