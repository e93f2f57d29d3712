import IdlFront.Proofs.Parser.Braces
import IdlFront.Proofs.Parser.Invariant
import IdlFront.Proofs.Parser.Progress

/-! # Parsers stay inside their block

* `Within` — the next brace that is closed without being opened is a given one.
* `Confined` — a parser that never consumes this brace, whether it fails or not. Every phrase without
  braces is one.
* `confined_recovering` — skipping stays in the block too.
-/

namespace IdlFront

open IdlFront.Parser IdlFront.ParserState

namespace ParserState

/-- Before `r`, which closes a block, and the tokens `R` behind it stand tokens whose braces are
    balanced. -/
structure Within (r : Token) (R : List Token) (s : ParserState) : Prop where
  plain : s.Plain
  close : r.kind = .punct .rbrace
  body : ∃ B, Closes 0 B ∧ s.tokens = B ++ r :: R

variable {s : ParserState} {r : Token} {R : List Token}

theorem Within.looked (h : Within r R s) : Within r R s.looked :=
  ⟨h.plain.looked, h.close, by rw [tokens_looked]; exact h.body⟩

theorem Within.reported (h : Within r R s) (d : Diagnostic) : Within r R (s.reported d) :=
  ⟨(h.plain.moves_reported d).plainAfter, h.close, h.body⟩

/-- The next token is the closing brace, or some token that does not close anything. -/
theorem Within.current (h : Within r R s) :
    s.tokens = r :: R ∨ ∃ t B, s.tokens = t :: B ++ r :: R ∧ s.current = t ∧ Closes 0 (t :: B) := by
  obtain ⟨B, hB, tokens⟩ := h.body
  cases B with
  | nil => exact .inl tokens
  | cons t B => exact .inr ⟨t, B, tokens, by rw [s.current_eq, tokens]; rfl, hB⟩

theorem Within.advanced (h : Within r R s) (unbraced : Unbraced s.current.kind) :
    Within r R s.advanced := by
  refine ⟨h.plain.moves_advanced.plainAfter, h.close, ?_⟩
  rw [tokens_advanced]
  obtain tokens | ⟨t, B, tokens, rfl, hB⟩ := h.current
  · rw [s.current_eq, tokens] at unbraced
    exact absurd h.close unbraced.close
  · exact ⟨B, hB.tail, by rw [tokens]; rfl⟩

theorem Within.current_ne_eof (h : Within r R s) : s.current.kind ≠ .eof := by
  obtain tokens | ⟨t, B, tokens, eq, -⟩ := h.current
  · rw [s.current_eq, tokens]
    exact h.plain.noEof r (by simp [tokens])
  · rw [eq]
    exact h.plain.noEof t (by simp [tokens])

/-- Where no token but the closing brace can end a list, it has ended there. -/
theorem Within.tokens_of_ended (h : Within r R s) (ended : untilClosed s.current.kind = false) :
    s.tokens = r :: R := by
  obtain tokens | ⟨t, B, tokens, eq, hB⟩ := h.current
  · exact tokens
  · have notEof := h.current_ne_eof
    rw [eq] at ended notEof
    have notClose := hB.first_ne_rbrace
    simp [untilClosed, notEof, notClose] at ended

end ParserState

namespace Parser

variable {α β : Type} {p : Parser α} {s t : ParserState} {r : Token} {R : List Token}

/-! ## Confinement -/

/-- Staying in a block, for the brace that closes it and what stands behind that. -/
def insideBlock (closing : Token × List Token) : Invariant where
  state := Within closing.1 closing.2
  failure _ := Within closing.1 closing.2

/-- A parser that stays in the block it starts in. -/
abbrev Confined (p : Parser α) : Prop := Holds (keeps insideBlock) none p

theorem confined_of {ahead : Option Token}
    (h : ∀ {r R s}, Within r R s → Sees ahead s → Within r R (p.after s)) :
    Holds (keeps insideBlock) ahead p := by
  refine ⟨fun ⟨r, R⟩ s inside sees => ?_⟩
  have stays := h inside sees
  unfold after at stays
  cases run : p s <;> rwa [run] at stays

theorem Confined.confined (h : Confined p) (inside : Within r R s) : Within r R (p.after s) := by
  have stays := h.holds (r, R) s inside (sees_none s)
  unfold after
  cases run : p s <;> rwa [run] at stays

theorem Confined.ok {a : α} (h : Confined p) (inside : Within r R s) (run : p s = .ok a t) :
    Within r R t := after_ok run ▸ h.confined inside

theorem Confined.error {d : Diagnostic} (h : Confined p) (inside : Within r R s)
    (run : p s = .error d t) : Within r R t := after_error run ▸ h.confined inside

instance : Phrasal (keeps insideBlock) :=
  phrasal_keeps Within.looked Within.advanced fun inside _ _ => inside

instance : Reporting (keeps insideBlock) := reporting_keeps (fun inside _ _ => inside.reported _)
  fun inside _ unbraced => (inside.advanced unbraced).reported _

instance : Lenient (keeps insideBlock) := lenient_keeps fun inside _ => inside

theorem within_skipped {resume : List TokenKind} (stops : .punct .rbrace ∈ resume)
    (inside : Within r R s) : Within r R (s.skipped (syncLength resume 0 s.tokens)) := by
  obtain ⟨ts, ds, moves⟩ := inside.plain.moves_of_reaches (reaches_skipped _ s)
  obtain ⟨B, hB, tokens⟩ := inside.body
  obtain ⟨rest, hrest, drop⟩ := hB.drop_syncLength stops inside.close
  exact ⟨moves.plainAfter, inside.close, rest, hrest, by rw [tokens_skipped, tokens, drop]⟩

theorem confined_synchronize {resume : List TokenKind} (stops : .punct .rbrace ∈ resume) :
    Confined (synchronize resume) := confined_of fun inside _ => within_skipped stops inside

/-- An item of a list may skip, but not past the block: skipping stops at the closing brace, and what
    an eager list drops is a token that the list could go on at. -/
theorem confined_recovering {resume : List TokenKind} {eager : Bool} {item : Parser α}
    [Uniform item] [hi : Confined item] (stops : .punct .rbrace ∈ resume)
    (noBlock : .punct .lbrace ∉ resume) {t : Token} (goesOn : untilClosed t.kind = true) :
    Holds (keeps insideBlock) (some t) (recovering resume eager item) := by
  refine confined_of fun {r R s} inside sees => ?_
  obtain ⟨rfl, -⟩ := sees t rfl
  have result := recovering_apply resume eager item s
  cases run : item s with
  | ok a t =>
    rw [run] at result
    rw [after_ok result]
    exact hi.ok inside run
  | error d t =>
    rw [run] at result
    rw [after_ok result]
    -- Skipping stays in the block. What may leave it is the token that an eager list drops on top.
    have failed : s.Reaches (t.reported d) := (reaches_error run).tail (.report t d)
    have there := within_skipped stops ((hi.error inside run).reported d)
    generalize t.reported d = u at failed result there
    unfold resumed
    simp only
    split
    · next stands =>
      obtain ⟨first, rest, tokens⟩ : ∃ first rest, s.tokens = first :: rest := by
        obtain tokens | ⟨first, B, tokens, -⟩ := inside.current
        · exact ⟨r, R, tokens⟩
        · exact ⟨first, B ++ r :: R, tokens⟩
      -- It drops one only if nothing was consumed, so this is the token the item failed at. The
      -- list was going on there, so it is no closing brace.
      obtain ⟨kind, same⟩ := mem_resume_of_still failed tokens stands.2.1
      have current : s.current = first := by rw [s.current_eq, tokens]; rfl
      refine there.advanced ?_
      rw [current_eq, same, tokens, List.headD_cons]
      rw [current] at goesOn
      refine ⟨fun eq => noBlock (eq ▸ kind), fun eq => ?_⟩
      rw [eq] at goesOn
      exact absurd goesOn (by decide)
    · exact there

end Parser

end IdlFront
