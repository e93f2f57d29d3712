import Mathlib.Algebra.Order.BigOperators.Group.List
import Mathlib.Algebra.Order.Ring.Nat
import IdlFront.Proofs.Parser.Interleaving
import IdlFront.Proofs.Parser.Restraint

/-! # Errors do not avalanche

A phrase leaves at most one report at a token that it does not consume. At the end of input every
block that is still open adds one, and blocks are opened by braces of the source.

* `allowance`, `ParserState.Spares` — the reports that a phrase may leave behind.
* `Sparing` — a phrase that leaves no more.
* `Closing`, `Enclosed`, `Measured` — what closes a block, its loop, and the rounds of such a loop;
  `AtSeparator` — where a round of an enumeration is behind its member.
* `parse_spares` — how many diagnostics there are at each token of a source, and in all.
-/

namespace IdlFront

namespace ParserState

variable {all : List Token} {n : Nat} {s t u : ParserState}

/-! ## What a phrase may leave behind -/

/-- The number of reports that a phrase from one state to another may leave at the next token: one,
    and at the end of input one more for every brace that opens on the way. -/
def allowance (s t : ParserState) : Nat :=
  if t.tokens = [] then countKind (.punct .lbrace) s.tokens + 1 else 1

/-- The way of a phrase that leaves no more than that. -/
structure Spares (all : List Token) (s t : ParserState) : Prop where
  suffix : t.tokens <:+ s.tokens
  bears : t.Bears all (allowance s t)

theorem one_le_allowance (s t : ParserState) : 1 ≤ allowance s t := by
  unfold allowance
  split
  · exact Nat.le_add_left 1 _
  · exact Nat.le_refl 1

theorem allowance_le (suffix : t.tokens <:+ s.tokens) (u : ParserState) :
    allowance t u ≤ allowance s u := by
  unfold allowance
  split
  · exact Nat.succ_le_succ suffix.sublist.countP_le
  · exact Nat.le_refl 1

theorem Passes.spares (h : s.Passes all n t) (le : kept n s t ≤ 1) : s.Spares all t :=
  ⟨h.suffix, h.bears.mono (le_trans le (one_le_allowance s t))⟩

namespace Spares

theorem behind (suffix : t.tokens <:+ s.tokens) (h : t.Spares all u) : s.Spares all u :=
  ⟨h.suffix.trans suffix, h.bears.mono (allowance_le suffix u)⟩

theorem passes (h : s.Spares all t) (h' : t.Passes all (allowance s t) u) : s.Spares all u where
  suffix := h'.suffix.trans h.suffix
  bears := by
    refine h'.bears.mono ?_
    unfold kept
    split
    · next same => rw [allowance, allowance, same]
    · exact Nat.zero_le _

end Spares

end ParserState

namespace Parser

open ParserState

variable {α β γ : Type} {k : Nat} {p : Parser α} {all : List Token} {n : Nat} {s t : ParserState}

/-! ## Sparing phrases -/

/-- A result that leaves no more reports behind, or a failure without a report at its token. -/
def Sparingly (all : List Token) (n : Nat) (s : ParserState) :
    EStateM.Result Diagnostic ParserState α → Prop
  | .ok _ u => s.Spares all u
  | .error d u => s.Passes all n u ∧ d.place = u.current.place

/-- A phrase with such results where there are at most `k` reports at the next token, and none at the
    end of input. -/
class Sparing (k : Nat) (p : Parser α) : Prop where
  spares : ∀ {all n s}, s.Bears all n → n ≤ k → (s.tokens = [] → n = 0) → Sparingly all n s (p s)

theorem Sparing.mono {m : Nat} (h : Sparing k p) (le : m ≤ k) : Sparing m p :=
  ⟨fun bears few none => h.spares bears (le_trans few le) none⟩

theorem sparingly_after {r : EStateM.Result Diagnostic ParserState α} (h : s.Passes all n t)
    (h' : Sparingly all (kept n s t) t r) : Sparingly all n s r := by
  cases r with
  | ok a u => exact h'.behind h.suffix
  | error d u => exact ⟨h.trans h'.1, h'.2⟩

theorem sparing_discreet [hp : Discreet 1 p] : Sparing 1 p where
  spares {all n s} bears few none := by
    have passed := hp.passes bears fun _ => few
    cases run : p s with
    | ok a u =>
      rw [run] at passed
      exact passed.spares (le_trans (kept_le n s u) few)
    | error d u => rwa [run] at passed

/-- A discreet step, and behind it a phrase that can bear as much. -/
instance sparing_bind (p : Parser α) (f : α → Parser β) [hp : Discreet k p]
    [hf : ∀ a, Sparing k (f a)] : Sparing k (p >>= f) where
  spares {all n s} bears few none := by
    have passed := hp.passes bears fun _ => few
    rw [bind_apply]
    cases run : p s with
    | ok a u =>
      rw [run] at passed
      have still : u.tokens = [] → kept n s u = 0 := by
        intro ended
        unfold kept
        split
        · next same => exact none (same ▸ ended)
        · rfl
      exact sparingly_after passed
        ((hf a).spares passed.bears (le_trans (kept_le n s u) few) still)
    | error d u => rwa [run] at passed

/-- Behind a step that consumes something no report is left at the next token. -/
theorem sparing_consumes {f : α → Parser β} [hp : Discreet 1 p] (consumes : Consumes p)
    [hf : ∀ a, Sparing 0 (f a)] : Sparing 1 (p >>= f) where
  spares {all n s} bears few none := by
    have passed := hp.passes bears fun _ => few
    rw [bind_apply]
    cases run : p s with
    | ok a u =>
      rw [run] at passed
      have fresh : kept n s u = 0 := kept_of_lt (consumes.lowers bears.plain.endIsEof run)
      exact sparingly_after passed
        ((hf a).spares passed.bears (Nat.le_of_eq fresh) fun _ => fresh)
    | error d u => rwa [run] at passed

instance (p : Parser α) (f : α → Parser β) [Discreet 1 p] [hp : Consumes p]
    [∀ a, Sparing 0 (f a)] : Sparing 1 (p >>= f) := sparing_consumes hp

/-- A phrase, and behind it steps that report nothing and do not fail. -/
instance sparing_then (p : Parser α) (f : α → Parser β) [hp : Sparing k p] [total : ∀ a, Total (f a)]
    [hf : ∀ m a, Discreet m (f a)] : Sparing k (p >>= f) where
  spares {all n s} bears few none := by
    have spared := hp.spares bears few none
    rw [bind_apply]
    cases run : p s with
    | ok a u =>
      rw [run] at spared
      obtain ⟨b, v, next⟩ := (total a).succeeds u
      have passed := (hf (allowance s u) a).passes spared.bears fun _ => Nat.le_refl _
      rw [next] at passed
      simp only [next]
      exact spared.passes passed
    | error d u => rwa [run] at spared

instance (f : α → β) (p : Parser α) [hp : Sparing k p] : Sparing k (f <$> p) where
  spares {_ _ s} bears few none := by
    have spared := hp.spares bears few none
    rw [map_apply]
    cases run : p s <;> rwa [run] at spared

instance (c : Prop) [Decidable c] (p q : Parser α) [Sparing k p] [Sparing k q] :
    Sparing k (if c then p else q) := by
  split <;> infer_instance

instance (start : Token) : Total (spanFrom start) := ⟨fun _ => ⟨_, _, rfl⟩⟩

theorem expectOrReport_apply (kind : TokenKind) (s : ParserState) : expectOrReport kind s =
    if s.current.kind = kind then .ok () s.looked.advanced
    else .ok () (s.looked.reported (s.current.report (.expected [kind] s.current))) := by
  unfold expectOrReport
  rw [bind_apply]
  simp only [current]
  split <;> rfl

/-- What is missing is reported at the token in front of which it is. -/
instance (kind : TokenKind) : Sparing 0 (expectOrReport kind) where
  spares {all n s} bears few _ := by
    obtain rfl := Nat.le_zero.1 few
    rw [expectOrReport_apply]
    split
    · exact (bears.looked.trans bears.looked.bears.advanced).spares (le_trans (kept_le _ _ _) (by decide))
    · have looked := bears.looked
      have told := looked.bears.reported (d := s.current.report (.expected [kind] s.current))
        (by rw [s.current_looked, Token.place_report]) fun _ => le_trans (kept_le _ _ _) (by decide)
      exact ⟨looked.suffix, told.mono (le_trans (Nat.succ_le_succ (kept_le _ _ _)) (one_le_allowance _ _))⟩

/-! ## Blocks -/

/-- The rest of a block, from where its loop has ended. It consumes the closing brace, or reports at
    the end of input that it is missing. -/
class Closing (p : Parser α) : Prop where
  closes : ∀ {all n s}, s.Bears all n → untilClosed s.current.kind = false →
    (s.tokens ≠ [] → n ≤ 1) → ∃ a u, p s = .ok a u ∧ u.tokens <:+ s.tokens ∧
      u.Bears all (if s.tokens = [] then n + 1 else 0)

/-- The loop of a block, which comes to an end. -/
class Enclosed (loop : Parser β) : Prop where
  spares : ∀ {all s}, s.Bears all 0 →
    ∃ b u, loop s = .ok b u ∧ untilClosed u.current.kind = false ∧ s.Spares all u

/-- Rounds of a loop that leave at most one report behind, if there is at most one before. -/
def Measured (continues : TokenKind → Bool) (round : β → Parser β) : Prop :=
  ∀ ⦃all s u b b'⦄, s.Bears all 1 → continues s.current.kind = true → round b s = .ok b' u →
    s.Spares all u

section Loops

variable {continues : TokenKind → Bool} {round : β → Parser β} {b b' : β}

theorem tokens_of_goesOn (bears : s.Bears all n) (ends : continues .eof = false)
    (more : continues s.current.kind = true) : s.tokens ≠ [] := by
  intro none
  rw [s.current_eq, none, List.headD_nil, bears.plain.endIsEof, ends] at more
  cases more

/-- From round to round, with what has been left behind since the loop was entered. -/
theorem spares_iterate {u : ParserState} (measured : Measured continues round)
    (ends : continues .eof = false) (start : s.Spares all t)
    (run : iterate continues round b t = .ok b' u) : s.Spares all u := by
  refine iterate_ok (I := fun _ v => s.Spares all v) ?_ ?_ start run
  · exact fun spared => spared.passes spared.bears.looked
  · intro b b' v w more spared round
    have inside := tokens_of_goesOn spared.bears ends more
    have bears := spared.bears
    rw [allowance, if_neg inside] at bears
    have looked := bears.looked
    have next := measured (looked.bears.mono (kept_le 1 v v.looked)) (by rwa [v.current_looked]) round
    exact (next.behind looked.suffix).behind spared.suffix

theorem enclosed_iterate [∀ b, Uniform (round b)] [∀ b, Total (round b)]
    (measured : Measured untilClosed round)
    (lowers : ∀ {s t : ParserState} {b b' : β}, s.ending.kind = .eof →
      untilClosed s.current.kind = true → round b s = .ok b' t → t.remaining < s.remaining) :
    Enclosed (iterate untilClosed round b) where
  spares {all s} bears := by
    obtain ⟨b', u, run⟩ := (inferInstance : Total (iterate untilClosed round b)).succeeds s
    have start : s.Spares all s := bears.refl.spares (le_trans (kept_le 0 s s) (by decide))
    obtain ⟨v, -, closed, rfl⟩ := iterate_ends lowers bears.plain.endIsEof run
    exact ⟨b', v.looked, run, by rwa [v.current_looked], spares_iterate measured rfl start run⟩

end Loops

theorem countKind_of_expect {found : Token} (ended : s.ending.kind = .eof)
    (run : expect (.punct .lbrace) s = .ok found t) :
    countKind (.punct .lbrace) s.tokens = countKind (.punct .lbrace) t.tokens + 1 := by
  obtain ⟨_, _, look, run⟩ := bind_ok run
  cases look
  split at run
  · next brace =>
    cases run
    rw [tokens_advanced, tokens_looked,
      tokens_eq_cons (remaining_pos ended (by rw [brace]; decide)), List.tail_cons, countKind_cons,
      if_pos brace]
  · cases run

/-- A block may leave the report of a missing brace at the end of input, for the brace it opens with. -/
theorem sparing_block {loop : Parser β} {rest : β → Parser γ} [loops : Enclosed loop]
    [closing : ∀ b, Closing (rest b)] :
    Sparing 1 (do discard (expect (.punct .lbrace)); let b ← loop; rest b) where
  spares {all n s} bears few none := by
    have passed := (inferInstance : Discreet 1 (expect (.punct .lbrace))).passes bears fun _ => few
    rw [bind_apply, discard_apply]
    cases opened : expect (.punct .lbrace) s with
    | error d t => rwa [opened] at passed
    | ok found t =>
      rw [opened] at passed
      have fresh := passed.bears
      rw [kept_of_lt ((consumes_expect (by decide)).lowers bears.plain.endIsEof opened)] at fresh
      have braces := countKind_of_expect bears.plain.endIsEof opened
      obtain ⟨b, u, run, ends, spared⟩ := loops.spares fresh
      have left : u.tokens ≠ [] → allowance t u ≤ 1 := fun more => by rw [allowance, if_neg more]
      obtain ⟨c, v, rest, suffix, closed⟩ := (closing b).closes spared.bears ends left
      simp only [bind_apply, run, rest]
      refine ⟨suffix.trans (spared.suffix.trans passed.suffix), closed.mono ?_⟩
      by_cases ended : u.tokens = []
      · rw [ended] at suffix
        rw [if_pos ended, allowance, allowance, if_pos ended, if_pos (List.suffix_nil.1 suffix), braces]
      · rw [if_neg ended]
        exact Nat.zero_le _

/-- The closing brace, and behind it steps that report nothing and do not fail. -/
theorem closes_brace {q : Parser α} [total : Total q] [hq : ∀ m, Discreet m q] (bears : s.Bears all n)
    (ends : untilClosed s.current.kind = false) :
    ∃ a u, (do expectOrReport (.punct .rbrace); q) s = .ok a u ∧ u.tokens <:+ s.tokens ∧
      u.Bears all (if s.tokens = [] then n + 1 else 0) := by
  have looked := bears.looked
  have still : kept n s s.looked = n := if_pos s.tokens_looked
  have behind {m : Nat} {t : ParserState} (bears : t.Bears all m) :
      ∃ a u, q t = .ok a u ∧ u.tokens <:+ t.tokens ∧ u.Bears all m := by
    obtain ⟨a, u, run⟩ := total.succeeds t
    have passed := (hq m).passes bears fun _ => Nat.le_refl m
    rw [run] at passed
    exact ⟨a, u, run, passed.suffix, passed.bears.mono (kept_le m t u)⟩
  rw [bind_apply, expectOrReport_apply]
  by_cases close : s.current.kind = .punct .rbrace
  · have pos := remaining_pos bears.plain.endIsEof (by rw [close]; decide)
    have some : s.tokens ≠ [] := by
      rw [tokens_eq_cons pos]
      exact List.cons_ne_nil _ _
    have advanced := looked.trans looked.bears.advanced
    have fresh := advanced.bears
    rw [kept_of_lt (by rw [remaining_advanced, remaining_looked]; omega)] at fresh
    obtain ⟨a, u, run, suffix, bears⟩ := behind fresh
    rw [if_pos close, if_neg some]
    exact ⟨a, u, run, suffix.trans advanced.suffix, bears⟩
  · have none : s.tokens = [] := by
      by_contra some
      -- Only a brace and the end of input end the loop of a block.
      obtain ⟨t, ts, eq⟩ := List.exists_cons_of_ne_nil some
      have noEof := bears.plain.noEof t (by rw [eq]; exact List.mem_cons_self)
      rw [s.current_eq, eq, List.headD_cons] at ends close
      simp [untilClosed, close, noEof] at ends
    have told := looked.bears.reported (d := s.current.report (.expected [.punct .rbrace] s.current))
      (by rw [s.current_looked, Token.place_report]) fun more => absurd (s.tokens_looked.trans none) more
    rw [still] at told
    obtain ⟨a, u, run, suffix, bears⟩ := behind told
    rw [if_neg close, if_pos none]
    exact ⟨a, u, run, suffix.trans looked.suffix, bears⟩

instance {q : Parser α} [Total q] [∀ m, Discreet m q] :
    Closing (do expectOrReport (.punct .rbrace); q) := ⟨fun bears ends _ => closes_brace bears ends⟩

/-! ## Rounds -/

/-- A round with an item of an eager list. If the item fails at its first token, this token has then
    been reported twice at most, and it is skipped. -/
theorem measured_eager {continues : TokenKind → Bool} {resume : List TokenKind} {item : Parser α}
    {f : β → Option α → Parser β} [Uniform item] [hi : Sparing 1 item]
    [hf : ∀ m b o, Discreet m (f b o)] (ends : continues .eof = false)
    (takes : ∀ kind ∈ resume, continues kind = true → ConsumesAt kind item) :
    Measured continues fun b => recovering resume true item >>= f b := by
  intro all s u b b' bears more run
  have inside := tokens_of_goesOn bears ends more
  have pos : 0 < s.remaining := by
    rw [s.remaining_eq]
    exact List.length_pos_iff.2 inside
  obtain ⟨o, v, first, second⟩ := bind_ok run
  -- What is done with the item keeps the bound that the item leaves.
  suffices spared : s.Spares all v by
    have passed := (hf (allowance s v) b o).passes spared.bears fun _ => Nat.le_refl _
    rw [second] at passed
    exact spared.passes passed
  have spared := hi.spares bears (Nat.le_refl 1) fun none => absurd none inside
  cases run : item s with
  | ok a w =>
    rw [recovering_apply, run] at first
    cases first
    rwa [run] at spared
  | error d w =>
    rw [run] at spared
    obtain ⟨passed, at_⟩ := spared
    -- The item or the skipping consumes something, so only the last report can be about the next token.
    have less := remaining_resumed_lt takes bears.plain.endIsEof pos more run
    have moved := Reaches.consumed (((reaches_error run).tail (.report w d)).trans
      (reaches_skipped (syncLength resume 0 w.tokens) _))
    rw [recovering_resumed resume item run (by omega)] at first
    cases first
    have told := passed.bears.reported at_ fun _ => kept_le 1 s w
    have skipped := told.skipped (syncLength resume 0 w.tokens)
    exact ⟨skipped.suffix.trans passed.suffix,
      skipped.bears.mono (le_trans (kept_succ_le less) (one_le_allowance _ _))⟩

/-- Behind a member of an enumeration: where no comma comes next there is at most one report at the next
    token, and there is none unless the list ends. -/
structure AtSeparator (all : List Token) (n : Nat) (s : ParserState) : Prop where
  bears : s.Bears all n
  few : s.current.kind ≠ .punct .comma → n ≤ 1
  fresh : s.current.kind ≠ .punct .comma → untilClosed s.current.kind = true → n = 0

theorem AtSeparator.of_fresh (bears : s.Bears all 0) : AtSeparator all 0 s :=
  ⟨bears, fun _ => Nat.zero_le 1, fun _ _ => rfl⟩

/-- A member that fails is skipped up to a token at which the list resumes. If something has been consumed
    in between, that token is met for the first time; else it is a comma or ends the list. -/
theorem AtSeparator.recovered {w : ParserState} {d : Diagnostic} (passed : s.Passes all 1 w)
    (reached : s.Reaches w) (at_ : d.place = w.current.place) (pos : 0 < s.remaining)
    (more : untilClosed s.current.kind = true) :
    let v := (w.reported d).skipped (syncLength enumResume 0 w.tokens)
    v.tokens <:+ s.tokens ∧ ∃ n, AtSeparator all n v := by
  intro v
  have told := passed.bears.reported at_ fun _ => kept_le 1 s w
  have skipped := told.skipped (syncLength enumResume 0 w.tokens)
  have failed : s.Reaches (w.reported d) := reached.tail (.report w d)
  -- Where the list stops at once, it is at a token at which it resumes.
  have stops {t : ParserState} (reached : t.Reaches (w.reported d)) (some : 0 < t.remaining)
      (still : ¬ v.remaining < t.remaining) : t.current.kind ∈ enumResume ∧ v.current = t.current := by
    refine ⟨?_, Reaches.current (reached.trans (reaches_skipped _ _)) still⟩
    by_contra goesOn
    exact still (remaining_skipped_lt reached some goesOn)
  have closes {t : ParserState} (stop : t.current.kind ∈ enumResume) (same : v.current = t.current)
      (noComma : v.current.kind ≠ .punct .comma) (more : untilClosed t.current.kind = true) : False := by
    rw [same] at noComma
    rw [List.mem_singleton.1 ((List.mem_cons.1 stop).resolve_left noComma)] at more
    exact absurd more (by decide)
  refine ⟨skipped.suffix.trans passed.suffix, _, skipped.bears, fun noComma => ?_,
    fun noComma inside => ?_⟩
  · refine kept_succ_le (Classical.byContradiction fun still => ?_)
    obtain ⟨stop, same⟩ := stops failed pos still
    exact closes stop same noComma more
  · refine kept_of_lt (Classical.byContradiction fun still => ?_)
    have some := remaining_pos_of_goesOn skipped.bears.plain.endIsEof inside
    have some := lt_of_lt_of_le some (Reaches.remaining_le (reaches_skipped _ _))
    obtain ⟨stop, same⟩ := stops .refl some still
    exact closes stop same noComma (same ▸ inside)

theorem memberSeparator_bears {u : ParserState} (h : AtSeparator all n s)
    (run : memberSeparator s = .ok () u) : u.tokens <:+ s.tokens ∧ u.Bears all 1 := by
  have looked := h.bears.looked
  unfold memberSeparator at run
  rw [bind_apply, accept_apply] at run
  -- Behind a consumed comma the next token is met for the first time.
  by_cases comma : s.current.kind = .punct .comma
  · rw [if_pos comma] at run
    cases run
    have pos := remaining_pos h.bears.plain.endIsEof (by rw [comma]; decide)
    have advanced := looked.trans looked.bears.advanced
    have bears := advanced.bears
    rw [kept_of_lt (by rw [remaining_advanced, remaining_looked]; omega)] at bears
    exact ⟨advanced.suffix, bears.mono (Nat.zero_le 1)⟩
  rw [if_neg comma] at run
  simp only [Bool.false_eq_true, if_false, bind_apply, current, s.current_looked] at run
  have looked := looked.trans looked.bears.looked
  have still : kept n s s.looked.looked ≤ n := kept_le _ _ _
  by_cases closed : s.current.kind = .punct .rbrace ∨ s.current.kind = .eof
  · rw [if_pos closed] at run
    cases run
    exact ⟨looked.suffix, looked.bears.mono (le_trans still (h.few comma))⟩
  · rw [if_neg closed] at run
    -- The missing comma is the first report at this token, and skipping adds none.
    obtain rfl := h.fresh comma (by simpa [untilClosed] using closed)
    have told := looked.bears.reported (d := s.current.report
      (.expected [.punct .comma, .punct .rbrace] s.current))
      (by rw [current_looked, current_looked, Token.place_report]) fun _ => le_trans still (by decide)
    have told := told.mono (Nat.succ_le_succ still)
    have rest : Discreet 1 (if s.current.kind = .identifier ∨ s.current.kind = .punct .lbracket then
        pure () else do synchronize enumResume; discard (accept (.punct .comma))) := inferInstance
    have passed := rest.passes told fun _ => Nat.le_refl 1
    obtain ⟨_, v, report, run⟩ := bind_ok run
    cases report
    rw [run] at passed
    exact ⟨passed.suffix.trans looked.suffix, passed.bears.mono (kept_le 1 _ u)⟩

theorem measured_enumMemberRound : Measured untilClosed enumMemberRound := by
  intro all s u members members' bears more run
  obtain ⟨o, v, first, second⟩ := bind_ok run
  obtain ⟨_, w, separator, result⟩ := bind_ok second
  cases result
  -- The separator does the rest, once it is known where it starts.
  suffices before : v.tokens <:+ s.tokens ∧ ∃ n, AtSeparator all n v by
    obtain ⟨suffix, n, before⟩ := before
    obtain ⟨behind, bears⟩ := memberSeparator_bears before separator
    exact ⟨behind.trans suffix, bears.mono (one_le_allowance _ _)⟩
  have passed := (inferInstance : Discreet 1 enumMember).passes bears fun _ => Nat.le_refl 1
  rw [recovering_apply] at first
  cases item : enumMember s with
  | ok member w =>
    rw [item] at first passed
    cases first
    have fresh := passed.bears
    rw [kept_of_lt (Consumes.lowers bears.plain.endIsEof item)] at fresh
    exact ⟨passed.suffix, 0, .of_fresh fresh⟩
  | error d w =>
    rw [item] at first passed
    cases first
    obtain ⟨passed, at_⟩ := passed
    have resumes : (w.reported d).resumed enumResume false s.stream.consumed =
        (w.reported d).skipped (syncLength enumResume 0 w.tokens) := by
      simp only [resumed, Bool.false_eq_true, false_and, if_false]
      rfl
    rw [resumes]
    exact AtSeparator.recovered passed (reaches_error item) at_
      (remaining_pos_of_goesOn bears.plain.endIsEof more) more

/-- The semicolon behind an accessor. -/
theorem spares_semicolon {u : ParserState} {r r' : List Accessor} (bears : s.Bears all 0)
    (run : (do expectOrReport (.punct .semicolon); return r) s = .ok r' u) : s.Spares all u := by
  have phrase : Sparing 0 (do expectOrReport (.punct .semicolon); return r) := inferInstance
  have spared := phrase.spares bears (Nat.le_refl 0) fun _ => rfl
  rwa [run] at spared

theorem measured_accessor : Measured untilClosed accessor := by
  intro all s u before before' bears more run
  have pos := remaining_pos_of_goesOn bears.plain.endIsEof more
  obtain ⟨_, _, look, run⟩ := bind_ok run
  cases look
  have looked := bears.looked
  have here := looked.bears.mono (kept_le 1 s s.looked)
  have at_ (problem : Problem) : (s.current.report problem).place = s.looked.current.place := by
    rw [s.current_looked, Token.place_report]
  cases ha : accessorOf? s.current with
  | none =>
    simp only [ha] at run
    obtain ⟨_, _, told, run⟩ := bind_ok run
    cases told
    obtain ⟨_, _, skipped, run⟩ := bind_ok run
    cases skipped
    cases run
    have told := here.reported (at_ (.expectedAccessor s.current)) fun _ => Nat.le_refl 1
    -- The list goes on, so its end is not next, and skipping consumes the token.
    have at_resume : s.current.kind ∉ blockResume := fun stop => by
      rw [List.mem_singleton.1 stop] at more
      exact absurd more (by decide)
    have less := remaining_skipped_lt (.tail (.tail .refl (.look s))
      (.report _ (s.current.report (.expectedAccessor s.current)))) pos at_resume
    rw [← remaining_looked s] at less
    have skipped := told.skipped (syncLength blockResume 0 s.looked.tokens)
    exact ⟨skipped.suffix.trans looked.suffix,
      skipped.bears.mono (le_trans (Nat.le_of_eq (kept_of_lt less)) (Nat.zero_le _))⟩
  | some a =>
    simp only [ha] at run
    obtain ⟨_, _, taken, run⟩ := bind_ok run
    cases taken
    have suffix := looked.bears.advanced.suffix.trans looked.suffix
    split at run
    · -- The name of a repeated accessor has been consumed when it is reported.
      obtain ⟨_, _, told, run⟩ := bind_ok run
      cases told
      have told := here.advanced_reported (at_ (.duplicateAccessor s.current.value))
        (by rwa [remaining_looked])
      exact .behind (t := s.looked.advanced.reported _) suffix (spares_semicolon told run)
    · have fresh := here.advanced.bears
      rw [kept_of_lt (by rw [remaining_advanced, remaining_looked]; omega)] at fresh
      exact (spares_semicolon fresh run).behind suffix

/-! ## The phrases of the language -/

set_option synthInstance.maxSize 100000

instance : Enclosed enumMembers := enclosed_iterate measured_enumMemberRound enumMemberRound_lowers

instance (start : Token) (attributes : List Attribute) : Sparing 1 (enumDecl start attributes) := by
  have block : ∀ name : Token, Sparing 1 (do
      discard (expect (.punct .lbrace))
      let members ← enumMembers
      expectOrReport (.punct .rbrace)
      return ⟨name.value, members, attributes, ← spanFrom start⟩ : Parser EnumDecl) :=
    fun name => sparing_block
  unfold enumDecl
  infer_instance

instance : Sparing 1 structField := by unfold structField; infer_instance

instance : Enclosed structFields := by
  refine enclosed_iterate ?_ (eager_lowers (f := fun fields field => pure (fields ++ field.toList)))
  exact measured_eager (f := fun fields field => pure (fields ++ field.toList)) rfl consumesAt_structField

instance (start : Token) (attributes : List Attribute) :
    Sparing 1 (structDecl start attributes) := by
  have block : ∀ name : Token, Sparing 1 (do
      discard (expect (.punct .lbrace))
      let fields ← structFields
      expectOrReport (.punct .rbrace)
      return ⟨name.value, fields, attributes, ← spanFrom start⟩ : Parser StructDecl) :=
    fun name => sparing_block
  unfold structDecl
  infer_instance

instance (start : Token) (attributes : List Attribute) :
    Sparing 1 (delegateDecl start attributes) := by
  unfold delegateDecl; infer_instance

instance : Enclosed (iterate untilClosed accessor []) := enclosed_iterate measured_accessor accessor_lowers

/-- A block without accessors is reported at its closing brace, which is consumed then. -/
instance (found : List Accessor) : Closing (do
    let t ← current
    if found.isEmpty && t.kind == .punct .rbrace then report t .noAccessors
    expectOrReport (.punct .rbrace)
    return found) where
  closes {all n s} bears ends few := by
    have looked := bears.looked
    have still : kept n s s.looked = n := if_pos s.tokens_looked
    have ends : untilClosed s.looked.current.kind = false := by rwa [s.current_looked]
    rw [bind_apply]
    simp only [current]
    split
    · next empty =>
      have close : s.current.kind = .punct .rbrace := by simpa using (Bool.and_eq_true_iff.1 empty).2
      have pos := remaining_pos bears.plain.endIsEof (by rw [close]; decide)
      have some : s.tokens ≠ [] := by
        rw [tokens_eq_cons pos]
        exact List.cons_ne_nil _ _
      have told := looked.bears.reported (d := s.current.report .noAccessors)
        (by rw [s.current_looked, Token.place_report]) fun _ => still.trans_le (few some)
      obtain ⟨a, u, run, suffix, bears⟩ := closes_brace (q := pure found) told ends
      have left : (s.looked.reported (s.current.report .noAccessors)).tokens ≠ [] :=
        s.tokens_looked.trans_ne some
      rw [if_neg left] at bears
      rw [if_neg some]
      exact ⟨a, u, run, suffix.trans looked.suffix, bears⟩
    · obtain ⟨a, u, run, suffix, bears⟩ := closes_brace (q := pure found) looked.bears ends
      rw [still, s.tokens_looked] at bears
      exact ⟨a, u, run, suffix.trans looked.suffix, bears⟩

instance : Sparing 0 accessors :=
  Sparing.mono (k := 1) sparing_block (Nat.zero_le 1)

instance : Sparing 1 interfaceMember := by unfold interfaceMember; infer_instance

instance : Enclosed interfaceMembers := by
  refine enclosed_iterate ?_ (eager_lowers (f := fun members member => pure (members ++ member.toList)))
  exact measured_eager (f := fun members member => pure (members ++ member.toList)) rfl
    consumesAt_interfaceMember

instance (start : Token) (attributes : List Attribute) :
    Sparing 1 (interfaceDecl start attributes) := by
  have block : ∀ (name : Token) (bases : List TypeRef), Sparing 1 (do
      discard (expect (.punct .lbrace))
      let members ← interfaceMembers
      expectOrReport (.punct .rbrace)
      return ⟨name.value, bases, members, attributes, ← spanFrom start⟩ : Parser InterfaceDecl) :=
    fun name bases => sparing_block
  unfold interfaceDecl
  infer_instance

instance (kinds : List TokenKind) : Sparing 1 (unexpected kinds : Parser α) := sparing_discreet

section Namespace

variable (inner : Parser Declaration) [Uniform inner] [Consumes inner] [Sparing 1 inner]
  (takes : ∀ kind ∈ bodyResume, untilClosed kind = true → ConsumesAt kind inner)

include takes

theorem enclosed_declarations : Enclosed (declarations inner) := by
  have discreet (m : Nat) (ds : List Declaration) (o : Option Declaration) :
      Discreet m (addFound ds o) := by
    cases o <;> (unfold addFound; infer_instance)
  have rounds (ds : List Declaration) : Total (declarationRound inner ds) := total_bind _ (addFound ds)
  exact enclosed_iterate (measured_eager (f := addFound) rfl takes) (eager_lowers (f := addFound))

theorem sparing_namespacePhrase (start : Token) (attributes : List Attribute) :
    Sparing 1 (namespacePhrase inner start attributes) := by
  have loop := enclosed_declarations inner takes
  have block : ∀ name : List String, Sparing 1 (do
      discard (expect (.punct .lbrace))
      let ds ← declarations inner
      expectOrReport (.punct .rbrace)
      return ⟨name, ds, attributes, ← spanFrom start⟩ : Parser Namespace) :=
    fun name => sparing_block
  unfold namespacePhrase
  infer_instance

theorem sparing_declarationPhrase : Sparing 1 (declarationPhrase inner) := by
  have body (start : Token) (attributes : List Attribute) :
      Sparing 1 (declarationBody inner start attributes) := by
    have phrase := sparing_namespacePhrase inner takes start attributes
    unfold declarationBody
    refine @sparing_bind _ _ _ _ _ _ fun t => ?_
    split <;> infer_instance
  unfold declarationPhrase
  infer_instance

end Namespace

/-- A stand-in for what would happen where a declaration is nested in front of itself, which never is.
    Like a declaration it takes the token it starts at. -/
def astray : Parser Declaration := do
  discard advance
  unexpected declarationKeywords

instance : Uniform astray := by unfold astray; infer_instance

instance : Consumes astray := by unfold astray; infer_instance

theorem sparing_astray : Sparing 1 astray := by
  have discreet : Discreet 1 astray := by unfold astray; infer_instance
  exact sparing_discreet

theorem consumesAt_inner (n : Nat) : ∀ kind ∈ bodyResume, untilClosed kind = true →
    ConsumesAt kind (limited n astray (nested astray declarationPhrase)) := by
  intro kind mem goesOn s ended eq
  have noEof : kind ≠ .eof := fun eof => by simp [eof, untilClosed] at goesOn
  by_cases less : s.remaining < n
  · have same : limited n astray (nested astray declarationPhrase) s = declaration s := by
      rw [limited, if_pos less, proceeds.declaration astray s ended]
    rw [after_congr same]
    exact consumesAt_declaration kind mem goesOn s ended eq
  · have same : limited n astray (nested astray declarationPhrase) s = astray s := by
      rw [limited, if_neg less]
    rw [after_congr same]
    exact (consumesAt_advance noEof).map.bind s ended eq

instance : Sparing 1 declaration where
  spares {all n s} bears few none := by
    -- By induction on the tokens that are left; at every level the inner phrase has fewer.
    have consumes : Consumes (nested astray declarationPhrase) :=
      .nested (fun _ _ => inferInstance) fun _ _ => inferInstance
    have uniform := Uniform.limited_nested astray declarationPhrase fun _ _ => inferInstance
    have limit : ∀ n, Sparing 1 (limited n astray (nested astray declarationPhrase)) := by
      intro n
      induction n using Nat.strongRecOn with
      | ind n ih =>
        refine ⟨fun {_ _ s} bears few none => ?_⟩
        unfold limited
        split
        · have inner := ih s.remaining ‹_›
          have := uniform s.remaining
          rw [nested_apply]
          exact (sparing_declarationPhrase _ (consumesAt_inner s.remaining)).spares bears few none
        · exact sparing_astray.spares bears few none
    have whole := (limit (s.remaining + 1)).spares bears few none
    rw [limited, if_pos (Nat.lt_succ_self s.remaining)] at whole
    rwa [proceeds.declaration astray s bears.plain.endIsEof]

instance (start : Token) (attributes : List Attribute) :
    Sparing 1 (namespaceDecl start attributes) :=
  sparing_namespacePhrase declaration consumesAt_declaration start attributes

instance : Sparing 1 importDirective := sparing_consumes (consumes_expect (by decide))

instance : Sparing 1 topLevel := by unfold topLevel; infer_instance

theorem measured_topLevelRound : Measured (· != .eof) topLevelRound :=
  measured_eager (f := fun (tree : IdlFile) item => pure (tree.add item)) rfl fun kind stops _ =>
    consumesAt_topLevel kind stops

end Parser

open IdlFront.Parser IdlFront.ParserState

/-! ## Counting -/

/-- Diagnostics that are all at tokens are no more than those at each of the tokens. -/
theorem length_le_sum_reportsAt {ts : List Token} {ds : List Diagnostic}
    (placed : ∀ d ∈ ds, ∃ t ∈ ts, d.place = t.place) : ds.length ≤ (ts.map (reportsAt · ds)).sum := by
  induction ts generalizing ds with
  | nil =>
    have none : ds = [] := List.eq_nil_iff_forall_not_mem.2 fun d mem => by
      obtain ⟨t, among, -⟩ := placed d mem
      exact List.not_mem_nil among
    simp [none]
  | cons t ts ih =>
    have others := @ih (ds.filter fun d => ¬ d.place = t.place) fun d mem => by
      obtain ⟨mem, apart⟩ := List.mem_filter.1 mem
      obtain ⟨u, among, at_⟩ := placed d mem
      obtain rfl | among := List.mem_cons.1 among
      · simp [at_] at apart
      · exact ⟨u, among, at_⟩
    have fewer : (ts.map (reportsAt · (ds.filter fun d => ¬ d.place = t.place))).sum ≤
        (ts.map (reportsAt · ds)).sum :=
      List.sum_le_sum fun u _ => List.filter_sublist.countP_le
    have parts := List.length_eq_length_filter_add (l := ds) fun d => decide (d.place = t.place)
    have here : reportsAt t ds = (ds.filter fun d => decide (d.place = t.place)).length :=
      List.countP_eq_length_filter
    simp only [decide_not] at others fewer
    rw [List.map_cons, List.sum_cons]
    omega

/-- The tokens of a source come before the end of input. -/
theorem tokens_eq_front (source : String) : ∃ front e, (tokenize source).tokens = front ++ [e] ∧
    (∀ t ∈ front, t.kind ≠ .eof) ∧ e.kind = .eof := by
  obtain ⟨as, last, eq, noEof, ending⟩ := arrivals_eq source
  exact ⟨as.map Arrival.token, last.token, by rw [tokenize, eq, List.map_append, List.map_singleton],
    by simpa using noEof, ending⟩

/-- With a bound for the end of input and one for all other tokens. -/
theorem length_le_of_reportsAt {source : String} {ds : List Diagnostic} {n : Nat}
    (placed : ∀ d ∈ ds, ∃ t ∈ (tokenize source).tokens, d.place = t.place)
    (each : ∀ t ∈ (tokenize source).tokens, reportsAt t ds ≤ if t.kind = .eof then n else 2) :
    ds.length ≤ 2 * ((tokenize source).tokens.countP fun t => t.kind ≠ .eof) + n := by
  have all := length_le_sum_reportsAt placed
  obtain ⟨front, e, tokens, noEof, eof⟩ := tokens_eq_front source
  rw [tokens] at all each ⊢
  have last := each e (List.mem_append_right _ (List.mem_singleton_self e))
  have inside : (front.map (reportsAt · ds)).sum ≤ (front.map fun _ => 2).sum :=
    List.sum_le_sum fun t mem => by
      have few := each t (List.mem_append_left _ mem)
      rwa [if_neg (noEof t mem)] at few
  have words : ((front ++ [e]).countP fun t => t.kind ≠ .eof) = front.length := by
    rw [List.countP_append, List.countP_eq_length.2 (by simpa using noEof)]
    simp [eof]
  rw [if_pos eof] at last
  simp only [List.map_append, List.sum_append, List.map_singleton, List.sum_singleton,
    List.map_const', List.sum_replicate_nat] at all inside
  omega

/-! ## Whole sources -/

/-- At first nothing has been reported. -/
theorem bears_initial (source : String) : (initial (.ofTokens (tokenize source).tokens)).Bears
    (tokenize source).tokens 0 := by
  obtain ⟨as, last, eq, -, stream⟩ := streams_eq source
  have reads : (initial (.ofTokens (tokenize source).tokens)).tokens ++
      [(initial (.ofTokens (tokenize source).tokens)).ending] = (tokenize source).tokens := by
    rw [stream, tokenize, eq]
    simp [ParserState.tokens, ParserState.ending, initial, TokenStream.hushed, Function.comp_def]
  have log : (initial (.ofTokens (tokenize source).tokens)).log.toList = [] := rfl
  refine ⟨plain_ofTokens _, tokens_increasing source, ⟨[], reads⟩, ?_, ?_, ?_, ?_⟩
  · rw [log]
    exact fun d mem => absurd mem List.not_mem_nil
  · rw [log]
    exact fun t _ _ => Nat.zero_le 2
  · rw [log]
    exact Nat.le_refl 0
  · rw [log]
    exact fun t _ => rfl

/-- What a parser leaves behind at the end of a source. -/
theorem reportsAt_of_spares {source : String} {t : ParserState} (ended : t.tokens = [])
    (spared : (initial (.ofTokens (tokenize source).tokens)).Spares (tokenize source).tokens t) :
    ∀ u ∈ (tokenize source).tokens, reportsAt u t.log.toList ≤
      if u.kind = .eof then 1 + countKind (.punct .lbrace) (tokenize source).tokens else 2 := by
  obtain ⟨front, e, tokens, noEof, -⟩ := tokens_eq_front source
  have reads := spared.bears.reads
  have here := spared.bears.here
  have fewer : countKind (.punct .lbrace) (initial (.ofTokens (tokenize source).tokens)).tokens ≤
      countKind (.punct .lbrace) (tokenize source).tokens :=
    ((List.sublist_append_left _ _).trans (bears_initial source).reads.sublist).countP_le
  have ending : t.ending = e := by
    obtain ⟨us, eq⟩ := reads
    rw [ended, tokens, List.nil_append] at eq
    exact List.singleton_inj.1 (List.append_inj' eq rfl).2
  rw [t.current_eq, ended, List.headD_nil, ending, allowance, if_pos ended] at here
  intro u mem
  split
  · next eof =>
    rw [tokens, List.mem_append, List.mem_singleton] at mem
    obtain inside | rfl := mem
    · exact absurd eof (noEof u inside)
    · omega
  · next some => exact spared.bears.twice u mem some

/-- A source is parsed with the faults of its lexemes and with reports as on its tokens alone. -/
theorem spares_source (source : String) : ∃ s t : ParserState,
    (parse source).diagnostics = s.log.toList ∧
    s.log.toList.filter Diagnostic.isLexical = (tokenize source).faults ∧
    s.log.toList.filter (! ·.isLexical) = t.log.toList.filter (! ·.isLexical) ∧
    t.tokens = [] ∧
    (initial (.ofTokens (tokenize source).tokens)).Spares (tokenize source).tokens t := by
  obtain ⟨tree, s, lazily⟩ := Total.succeeds (p := file) (initial (.ofSource source))
  obtain ⟨t, eagerly, same⟩ : ∃ t, file (initial (.ofTokens (tokenize source).tokens)) = .ok tree t ∧
      SameReports s t := by
    have alike := (inferInstance : Uniform file).alike sameReports (sameReports_initial source)
    rw [lazily] at alike
    generalize file (initial (.ofTokens (tokenize source).tokens)) = result at alike
    cases alike with
    | ok _ h => exact ⟨_, rfl, h⟩
  have diagnostics : parse source = ⟨tree, s.log.toList⟩ := parseStream_ok lazily
  obtain ⟨u, -, none, rfl⟩ := file_ends (s := initial (.ofTokens (tokenize source).tokens))
    (last_ofArrivals _).1 (noEof_initial _) eagerly
  refine ⟨s, u.looked, by rw [diagnostics], ?_, same.reports, by rw [tokens_looked, none], ?_⟩
  · exact (file_log (orderly_ofSource source) (last_ofArrivals _).1 (noEof_initial _) lazily).2
  · exact spares_iterate measured_topLevelRound rfl
      ((bears_initial source).refl.spares (le_trans (kept_le _ _ _) (Nat.zero_le 1))) eagerly

/-- The reports of the parser itself, without the faults of the lexemes. -/
def ParseResult.reports (r : ParseResult) : List Diagnostic :=
  r.diagnostics.filter (! ·.isLexical)

/-- Whatever a source is, what is reported on it besides the faults of its lexemes is at the places of
    its tokens: at most two diagnostics at each token, and at the end of input at most one and one
    more for every opening brace. -/
theorem parse_spares (source : String) :
    (parse source).diagnostics.filter Diagnostic.isLexical = (tokenize source).faults ∧
      (∀ d ∈ (parse source).reports, ∃ t ∈ (tokenize source).tokens, d.place = t.place) ∧
      (∀ t ∈ (tokenize source).tokens, reportsAt t (parse source).reports ≤
        if t.kind = .eof then 1 + countKind (.punct .lbrace) (tokenize source).tokens else 2) ∧
      (parse source).diagnostics.length ≤ (tokenize source).faults.length +
        2 * ((tokenize source).tokens.countP fun t => t.kind ≠ .eof) + 1 +
        countKind (.punct .lbrace) (tokenize source).tokens := by
  obtain ⟨s, t, diagnostics, faults, same, ended, spared⟩ := spares_source source
  rw [← diagnostics] at faults same
  have placed : ∀ d ∈ (parse source).reports, ∃ t ∈ (tokenize source).tokens, d.place = t.place := by
    intro d mem
    rw [ParseResult.reports, same] at mem
    exact spared.bears.placed d (List.mem_filter.1 mem).1
  have each : ∀ u ∈ (tokenize source).tokens, reportsAt u (parse source).reports ≤
      if u.kind = .eof then 1 + countKind (.punct .lbrace) (tokenize source).tokens else 2 := by
    intro u mem
    rw [ParseResult.reports, same]
    exact le_trans List.filter_sublist.countP_le (reportsAt_of_spares ended spared u mem)
  -- Summing the bounds over all tokens bounds the number of reports.
  have others := length_le_of_reportsAt placed each
  have parts : (parse source).diagnostics.length =
      (tokenize source).faults.length + (parse source).reports.length := by
    rw [← faults]
    exact List.length_eq_length_filter_add Diagnostic.isLexical
  refine ⟨faults, placed, each, ?_⟩
  rw [parts]
  omega

/-- A missing semicolon and two missing braces, all at the end of input. -/
example : (parse "namespace a \x7b struct b \x7b int x").diagnostics.map (fun d => (d.line, d.column)) =
    [(1, 31), (1, 31), (1, 31)] := by
  decide +kernel

end IdlFront
