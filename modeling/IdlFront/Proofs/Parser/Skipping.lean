import IdlFront.Proofs.Parser.Braces
import IdlFront.Proofs.Parser.Progress

/-! # Giving up, and skipping

* `Parser.Fails` — a parser gives up behind some tokens, with a diagnostic.
* `Skipped` — tokens that a list skips whole.
* `reports_recovered` — an item that fails is reported, and the list skips to the end of such
  tokens.
-/

namespace IdlFront

open ParserState

namespace ParserState

/-- To skip is to consume in silence. -/
theorem Plain.moves_skipped {s : ParserState} (plain : s.Plain) (n : Nat) :
    s.Moves (s.tokens.take n) [] (s.skipped n) := by
  induction n generalizing s with
  | zero => exact .refl plain
  | succ n ih =>
    have first := plain.moves_advanced
    have both := first.trans (ih first.plainAfter)
    have split : s.tokens.take 1 ++ s.tokens.tail.take n = s.tokens.take (n + 1) := by
      cases s.tokens <;> simp
    rwa [tokens_advanced, split] at both

end ParserState

namespace Parser

variable {α β : Type} {p : Parser α} {stop : Int} {ts us rest : List Token} {a : α}
  {d : Diagnostic}

/-! ## Giving up -/

/-- With the last token ending at `stop`, the parser reads `ts` where `rest` comes next, and gives
    up with `d`, which it does not report itself. -/
def Fails (p : Parser α) (stop : Int) (ts : List Token) (d : Diagnostic) (rest : List Token) :
    Prop :=
  ∀ s : ParserState, s.Plain → s.prevStop = stop → s.tokens = ts ++ rest →
    ∃ t, p s = .error d t ∧ s.Moves ts [] t

theorem Fails.bind {f : α → Parser β} (h : Fails p stop ts d rest) :
    Fails (p >>= f) stop ts d rest := by
  intro s plain hstop tokens
  obtain ⟨t, run, moves⟩ := h s plain hstop tokens
  exact ⟨t, by rw [bind_apply, run], moves⟩

theorem Fails.map {f : α → β} (h : Fails p stop ts d rest) : Fails (f <$> p) stop ts d rest := by
  intro s plain hstop tokens
  obtain ⟨t, run, moves⟩ := h s plain hstop tokens
  exact ⟨t, by rw [map_apply, run], moves⟩

theorem Accepts.bind_fails {f : α → Parser β} (h : Accepts p stop ts a (us ++ rest))
    (h' : Fails (f a) (stopAfter stop ts) us d rest) : Fails (p >>= f) stop (ts ++ us) d rest := by
  intro s plain hstop tokens
  obtain ⟨t, first⟩ := h s plain hstop (by rw [tokens, List.append_assoc])
  have next : t.tokens = us ++ rest := first.moves.rest (by rw [tokens, List.append_assoc])
  obtain ⟨u, second, moves⟩ :=
    h' t first.moves.plainAfter (by rw [first.moves.prevStop, hstop]) next
  refine ⟨u, ?_, first.moves.trans moves⟩
  rw [bind_apply, first.result]
  exact second

/-- A silent step that consumes nothing, then one that gives up. -/
theorem Accepts.before_fails {f : α → Parser β} (h : Accepts p stop [] a (ts ++ rest))
    (h' : Fails (f a) stop ts d rest) : Fails (p >>= f) stop ts d rest := h.bind_fails h'

theorem fails_refuse {found : Token} {problem : Problem} :
    Fails (refuse found problem : Parser α) stop [] (found.report problem) rest :=
  fun s plain _ _ => ⟨s, rfl, .refl plain⟩

theorem fails_unexpected {kinds : List TokenKind} {first : Token} :
    Fails (unexpected kinds : Parser α) stop [] (first.report (.expected kinds first))
      (first :: rest) := accepts_current.before_fails fails_refuse

theorem fails_expect {kind : TokenKind} {first : Token} (ne : first.kind ≠ kind) :
    Fails (expect kind) stop [] (first.report (.expected [kind] first)) (first :: rest) := by
  unfold expect
  refine accepts_current.before_fails ?_
  rw [if_neg ne]
  exact fails_unexpected

theorem fails_discardExpectThen {kind : TokenKind} {t : Token} (eq : t.kind = kind)
    (h : Fails p t.stop ts d rest) :
    Fails (do discard (expect kind); p) stop (t :: ts) d rest :=
  (accepts_expect eq).discard.bind_fails h

theorem fails_limited {n : Nat} {stuck : Parser α} (short : (ts ++ rest).length < n)
    (h : Fails p stop ts d rest) : Fails (limited n stuck p) stop ts d rest := by
  intro s plain hstop tokens
  obtain ⟨t, run, moves⟩ := h s plain hstop tokens
  refine ⟨t, ?_, moves⟩
  rw [limited, if_pos (by rwa [s.remaining_eq, tokens]), run]

theorem fails_nested {stuck : Parser α} {phrase : Parser α → Parser α}
    (h : ∀ inner, Fails (phrase inner) stop ts d rest) :
    Fails (nested stuck phrase) stop ts d rest :=
  fun s => by
    rw [nested_apply]
    exact h _ s

end Parser

/-! ## Skipping -/

/-- Tokens that a list skips whole: their braces are balanced, and outside of these stands no
    semicolon and no token at which the list goes on. -/
structure Skipped (resume : List TokenKind) (ts : List Token) : Prop where
  balanced : Balanced ts
  noEof : ∀ t ∈ ts, t.kind ≠ .eof
  passed : ∀ front t back, ts = front ++ t :: back → Balanced front →
    t.kind ≠ .punct .semicolon ∧ t.kind ∉ resume

theorem syncLength_semicolon {resume : List TokenKind} {t : Token} (ts : List Token)
    (eq : t.kind = .punct .semicolon) : syncLength resume 0 (t :: ts) = 1 := by
  rw [syncLength, if_pos ⟨rfl, eq⟩]

theorem syncLength_resume {resume : List TokenKind} {t : Token} (ts : List Token)
    (stop : t.kind ∈ resume) (other : t.kind ≠ .punct .semicolon) :
    syncLength resume 0 (t :: ts) = 0 := by
  rw [syncLength, if_neg (by simp [other]), if_pos ⟨rfl, stop⟩]

theorem syncLength_append {resume : List TokenKind} {depth : Nat} {ts : List Token}
    (closes : Closes depth ts)
    (passed : ∀ front t back, ts = front ++ t :: back → Closes depth front →
      t.kind ≠ .punct .semicolon ∧ t.kind ∉ resume) (us : List Token) :
    syncLength resume depth (ts ++ us) = ts.length + syncLength resume 0 us := by
  -- Along the tokens: outside of braces none of them ends the skipping, and inside none can.
  induction ts generalizing depth with
  | nil =>
    cases closes
    simp
  | cons t ts ih =>
    have here : depth = 0 → t.kind ≠ .punct .semicolon ∧ t.kind ∉ resume := fun eq =>
      passed [] t ts rfl eq
    have further := ih closes.2 fun front u back eq inner =>
      passed (t :: front) u back (by rw [eq, List.cons_append]) ⟨closes.1, inner⟩
    rw [List.cons_append, syncLength, if_neg fun stop => (here stop.1).1 stop.2,
      if_neg fun stop => (here stop.1).2 stop.2, further, List.length_cons]
    omega

namespace Skipped

variable {resume : List TokenKind} {ts us : List Token}

theorem syncLength (h : Skipped resume ts) (us : List Token) :
    syncLength resume 0 (ts ++ us) = ts.length + IdlFront.syncLength resume 0 us :=
  syncLength_append (balanced_iff_closes.1 h.balanced)
    (fun front t back eq closes => h.passed front t back eq (balanced_iff_closes.2 closes)) us

/-- Where no token is a brace, all stand outside of braces. -/
theorem of_unbraced (unbraced : ∀ t ∈ ts, Unbraced t.kind) (noEof : ∀ t ∈ ts, t.kind ≠ .eof)
    (passed : ∀ t ∈ ts, t.kind ≠ .punct .semicolon ∧ t.kind ∉ resume) : Skipped resume ts where
  balanced := by
    rw [balanced_iff_closes]
    clear noEof passed
    induction ts with
    | nil => rfl
    | cons t ts ih =>
      have := unbraced t List.mem_cons_self
      refine ⟨fun eq => absurd eq this.close, ?_⟩
      rw [depthAfter_unbraced]
      exact ih fun u hu => unbraced u (List.mem_cons_of_mem _ hu)
  noEof := noEof
  passed _ t _ eq _ := passed t (by simp [eq])

end Skipped

namespace Parser

variable {α : Type} {item : Parser α} {resume : List TokenKind} {eager : Bool} {stop : Int}
  {us vs rest : List Token} {d : Diagnostic}

/-- An item that gives up leaves a report, and the list skips from there. -/
theorem reports_recovered [Uniform item] (failed : Fails item stop us d (vs ++ rest))
    (skip : syncLength resume 0 (vs ++ rest) = vs.length)
    (progress : eager = true → us ++ vs ≠ []) :
    Reports (recovering resume eager item) stop (us ++ vs) [d] none rest := by
  intro s plain hstop tokens
  rw [List.append_assoc] at tokens
  obtain ⟨t, run, moves⟩ := failed s plain hstop tokens
  have told := moves.trans (moves.plainAfter.moves_reported d)
  have left : (t.reported d).tokens = vs ++ rest := moves.rest tokens
  have skipped := told.plainAfter.moves_skipped (syncLength resume 0 (t.reported d).tokens)
  rw [left, skip, List.take_left] at skipped
  have all : s.Moves (us ++ vs) [d] ((t.reported d).skipped vs.length) := by
    simpa using told.trans skipped
  -- Something has been consumed since the item started, so no token is dropped besides.
  have reaches := ((reaches_error run).tail (.report t d)).trans (reaches_skipped vs.length _)
  have moved : eager = true →
      ((t.reported d).skipped vs.length).stream.consumed ≠ s.stream.consumed := by
    intro h same
    have counts := Reaches.consumed reaches
    have := all.remaining
    have := List.length_pos_iff.2 (progress h)
    omega
  refine ⟨_, ?_, all⟩
  rw [recovering_apply, run]
  simp only [resumed, left, skip]
  rw [if_neg fun h => moved h.1 h.2.1]

/-- The same for an item that gives up at its first token. -/
theorem reports_recovered_at [Uniform item] (failed : Fails item stop [] d (vs ++ rest))
    (skip : syncLength resume 0 (vs ++ rest) = vs.length) (nonempty : vs ≠ []) :
    Reports (recovering resume eager item) stop vs [d] none rest :=
  reports_recovered failed skip fun _ => nonempty

end Parser

end IdlFront
