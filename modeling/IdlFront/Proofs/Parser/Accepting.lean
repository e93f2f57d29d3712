import IdlFront.Proofs.Parser.Reading

/-! # Reading what stands in front

* `Parser.Reports` — a parser that meets some tokens in front of others gives a value from them and
  makes some reports, whatever else its state holds. The lemmas put such runs together along the
  parser.
* `Parser.Accepts` — the same without a report.
-/

namespace IdlFront.Parser

open ParserState

variable {α β : Type} {p : Parser α} {stop : Int} {ts us vs rest : List Token} {a : α} {b : β}
  {ds es : List Diagnostic}

/-- With the last token ending at `stop`, the parser reads `ts` as `a` where `rest` comes next, and
    reports `ds`. -/
def Reports (p : Parser α) (stop : Int) (ts : List Token) (ds : List Diagnostic) (a : α)
    (rest : List Token) : Prop :=
  ∀ s : ParserState, s.Plain → s.prevStop = stop → s.tokens = ts ++ rest →
    ∃ t, p s = .ok a t ∧ s.Moves ts ds t

/-- With the last token ending at `stop`, the parser reads `ts` as `a` where `rest` comes next. -/
def Accepts (p : Parser α) (stop : Int) (ts : List Token) (a : α) (rest : List Token) : Prop :=
  ∀ s : ParserState, s.Plain → s.prevStop = stop → s.tokens = ts ++ rest → ∃ t, Yields p s ts a t

/-- To accept is to report nothing. -/
theorem reports_nil_iff : Reports p stop ts [] a rest ↔ Accepts p stop ts a rest :=
  forall₄_congr fun _ _ _ _ =>
    ⟨fun ⟨t, run, moves⟩ => ⟨t, run, moves⟩, fun ⟨t, run⟩ => ⟨t, run.result, run.moves⟩⟩

theorem Accepts.reports (h : Accepts p stop ts a rest) : Reports p stop ts [] a rest :=
  reports_nil_iff.2 h

namespace Reports

theorem bind {f : α → Parser β} (h : Reports p stop ts ds a (us ++ rest))
    (h' : Reports (f a) (stopAfter stop ts) us es b rest) :
    Reports (p >>= f) stop (ts ++ us) (ds ++ es) b rest := by
  intro s plain hstop tokens
  obtain ⟨t, first, moves⟩ := h s plain hstop (by rw [tokens, List.append_assoc])
  have next : t.tokens = us ++ rest := moves.rest (by rw [tokens, List.append_assoc])
  obtain ⟨u, second, moves'⟩ := h' t moves.plainAfter (by rw [moves.prevStop, hstop]) next
  refine ⟨u, ?_, moves.trans moves'⟩
  rw [bind_apply, first]
  exact second

theorem map {f : α → β} (h : Reports p stop ts ds a rest) :
    Reports (f <$> p) stop ts ds (f a) rest := by
  intro s plain hstop tokens
  obtain ⟨t, run, moves⟩ := h s plain hstop tokens
  exact ⟨t, by rw [map_apply, run], moves⟩

theorem discard (h : Reports p stop ts ds a rest) : Reports (discard p) stop ts ds () rest := by
  intro s plain hstop tokens
  obtain ⟨t, run, moves⟩ := h s plain hstop tokens
  exact ⟨t, by rw [discard_apply, run], moves⟩

/-- A step, then one that reports nothing. -/
theorem bind_accepts {f : α → Parser β} (h : Reports p stop ts ds a (us ++ rest))
    (h' : Accepts (f a) (stopAfter stop ts) us b rest) :
    Reports (p >>= f) stop (ts ++ us) ds b rest := by
  have both := h.bind h'.reports
  rwa [List.append_nil] at both

/-- A step, then one that consumes and reports nothing. -/
theorem andThen {f : α → Parser β} (h : Reports p stop ts ds a rest)
    (h' : Accepts (f a) (stopAfter stop ts) [] b rest) : Reports (p >>= f) stop ts ds b rest := by
  have both : Reports (p >>= f) stop (ts ++ []) ds b rest := bind_accepts h h'
  rwa [List.append_nil] at both

end Reports

namespace Accepts

theorem bind {f : α → Parser β} (h : Accepts p stop ts a (us ++ rest))
    (h' : Accepts (f a) (stopAfter stop ts) us b rest) :
    Accepts (p >>= f) stop (ts ++ us) b rest :=
  reports_nil_iff.1 (h.reports.bind h'.reports)

/-- A step that reports nothing, then one that may. -/
theorem bind_reports {f : α → Parser β} (h : Accepts p stop ts a (us ++ rest))
    (h' : Reports (f a) (stopAfter stop ts) us ds b rest) :
    Reports (p >>= f) stop (ts ++ us) ds b rest := h.reports.bind h'

/-- A step that consumes and reports nothing, then one that may. -/
theorem before_reports {f : α → Parser β} (h : Accepts p stop [] a (ts ++ rest))
    (h' : Reports (f a) stop ts ds b rest) : Reports (p >>= f) stop ts ds b rest :=
  h.bind_reports h'

theorem pure : Accepts (pure a : Parser α) stop [] a rest := fun s plain _ _ =>
  ⟨s, rfl, .refl plain⟩

theorem map {f : α → β} (h : Accepts p stop ts a rest) : Accepts (f <$> p) stop ts (f a) rest :=
  reports_nil_iff.1 h.reports.map

theorem discard (h : Accepts p stop ts a rest) : Accepts (discard p) stop ts () rest :=
  reports_nil_iff.1 h.reports.discard

/-- A step that consumes nothing, then another. -/
theorem before {f : α → Parser β} (h : Accepts p stop [] a (ts ++ rest))
    (h' : Accepts (f a) stop ts b rest) : Accepts (p >>= f) stop ts b rest := h.bind h'

/-- A step, then one that consumes nothing. -/
theorem andThen {f : α → Parser β} (h : Accepts p stop ts a rest)
    (h' : Accepts (f a) (stopAfter stop ts) [] b rest) : Accepts (p >>= f) stop ts b rest :=
  reports_nil_iff.1 (h.reports.andThen h')

end Accepts

/-! ## Primitive steps -/

theorem accepts_current {t : Token} : Accepts current stop [] t (t :: rest) := by
  intro s plain _ tokens
  refine ⟨s.looked, ?_, plain.moves_looked⟩
  have : s.current = t := by rw [s.current_eq, tokens]; rfl
  rw [← this]
  rfl

/-- A step that starts with a look at the next token. -/
theorem accepts_currentThen {f : Token → Parser β} {first : Token} (head : ts.head? = some first)
    (h : Accepts (f first) stop ts b rest) : Accepts (current >>= f) stop ts b rest := by
  obtain ⟨us, rfl⟩ := List.head?_eq_some_iff.1 head
  exact accepts_current.before h

theorem reports_currentThen {f : Token → Parser β} {first : Token} (head : ts.head? = some first)
    (h : Reports (f first) stop ts ds b rest) : Reports (current >>= f) stop ts ds b rest := by
  obtain ⟨us, rfl⟩ := List.head?_eq_some_iff.1 head
  exact accepts_current.before_reports h

theorem reports_report {found : Token} {problem : Problem} :
    Reports (report found problem) stop [] [found.report problem] () rest := fun s plain _ _ =>
  ⟨s.reported (found.report problem), rfl, plain.moves_reported _⟩

theorem accepts_advance {t : Token} : Accepts advance stop [t] t rest := by
  intro s plain _ tokens
  refine ⟨s.advanced, ?_, by simpa [tokens] using plain.moves_advanced⟩
  have : s.current = t := by rw [s.current_eq, tokens]; rfl
  rw [← this]
  rfl

theorem accepts_expect {kind : TokenKind} {t : Token} (eq : t.kind = kind) :
    Accepts (expect kind) stop [t] t rest := by
  unfold expect
  refine accepts_currentThen rfl ?_
  rw [if_pos eq]
  exact accepts_advance

theorem accepts_expectOrReport {kind : TokenKind} {t : Token} (eq : t.kind = kind) :
    Accepts (expectOrReport kind) stop [t] () rest := by
  unfold expectOrReport
  refine accepts_currentThen rfl ?_
  rw [if_pos eq]
  exact accepts_advance.discard

theorem accepts_check {kinds : List TokenKind} :
    Accepts (check kinds) stop [] (kinds.contains (nextKind rest)) rest := by
  intro s plain _ tokens
  refine ⟨s.looked, ?_, plain.moves_looked⟩
  rw [List.nil_append] at tokens
  rw [← tokens, ← plain.current_kind]
  rfl

theorem accepts_accept {kind : TokenKind} {t : Token} (eq : t.kind = kind) :
    Accepts (accept kind) stop [t] true rest := by
  unfold accept
  refine accepts_check.before ?_
  rw [if_pos (by simp [eq])]
  exact accepts_advance.discard.andThen .pure

theorem accepts_accept_not {kind : TokenKind} (ne : nextKind rest ≠ kind) :
    Accepts (accept kind) stop [] false rest := by
  unfold accept
  refine accepts_check.before ?_
  rw [if_neg (by simpa using ne)]
  exact .pure

section Choice

variable {kind : TokenKind} {yes no : Parser α}

theorem accepts_acceptThen {t : Token} (eq : t.kind = kind)
    (h : Accepts yes t.stop ts a rest) :
    Accepts (do if ← accept kind then yes else no) stop (t :: ts) a rest :=
  (accepts_accept eq).bind h

theorem accepts_acceptElse (ne : nextKind (ts ++ rest) ≠ kind) (h : Accepts no stop ts a rest) :
    Accepts (do if ← accept kind then yes else no) stop ts a rest :=
  (accepts_accept_not ne).before h

theorem accepts_checkThen (eq : nextKind (ts ++ rest) = kind) (h : Accepts yes stop ts a rest) :
    Accepts (do if ← check [kind] then yes else no) stop ts a rest := by
  refine accepts_check.before ?_
  rwa [if_pos (by simp [eq])]

theorem accepts_checkElse (ne : nextKind (ts ++ rest) ≠ kind) (h : Accepts no stop ts a rest) :
    Accepts (do if ← check [kind] then yes else no) stop ts a rest := by
  refine accepts_check.before ?_
  rwa [if_neg (by simpa using ne)]

end Choice

/-! ## Steps before others -/

section Then

variable {kind : TokenKind} {q : Parser β} {t : Token}

theorem accepts_expectThen {f : Token → Parser β} (eq : t.kind = kind)
    (h : Accepts (f t) t.stop ts b rest) :
    Accepts (expect kind >>= f) stop (t :: ts) b rest := (accepts_expect eq).bind h

theorem accepts_discardExpectThen (eq : t.kind = kind) (h : Accepts q t.stop ts b rest) :
    Accepts (do discard (expect kind); q) stop (t :: ts) b rest :=
  (accepts_expect eq).discard.bind h

theorem reports_expectThen {f : Token → Parser β} (eq : t.kind = kind)
    (h : Reports (f t) t.stop ts ds b rest) :
    Reports (expect kind >>= f) stop (t :: ts) ds b rest := (accepts_expect eq).bind_reports h

theorem reports_discardExpectThen (eq : t.kind = kind) (h : Reports q t.stop ts ds b rest) :
    Reports (do discard (expect kind); q) stop (t :: ts) ds b rest :=
  (accepts_expect eq).discard.bind_reports h

theorem accepts_expectOrReportThen (eq : t.kind = kind) (h : Accepts q t.stop ts b rest) :
    Accepts (do expectOrReport kind; q) stop (t :: ts) b rest :=
  (accepts_expectOrReport eq).bind h

end Then

/-- The last step of a node: its span, and the node. -/
theorem accepts_spanFrom {start : Token} {node : Span → α} :
    Accepts (do return node (← spanFrom start)) stop [] (node (start.spanUntil stop)) rest := by
  intro s plain hstop _
  refine ⟨s, ?_, .refl plain⟩
  rw [← hstop]
  rfl

/-- The last step of a node that started with the first of some tokens, which are consumed now. -/
theorem accepts_spanOver {start : Token} {node : Span → α} (stop' : Int)
    (head : ts.head? = some start) (eq : stop = stopAfter stop' ts) :
    Accepts (do return node (← spanFrom start)) stop [] (node (spanOver ts)) rest := by
  rw [← spanUntil_stopAfter head stop', ← eq]
  exact accepts_spanFrom

/-! ## Nesting -/

/-- A parser for few tokens reads what the parser reads where few tokens are left. -/
theorem reports_limited {n : Nat} {stuck : Parser α} (short : (ts ++ rest).length < n)
    (h : Reports p stop ts ds a rest) : Reports (limited n stuck p) stop ts ds a rest := by
  intro s plain hstop tokens
  obtain ⟨t, run, moves⟩ := h s plain hstop tokens
  refine ⟨t, ?_, moves⟩
  rw [limited, if_pos (by rwa [s.remaining_eq, tokens]), run]

theorem accepts_limited {n : Nat} {stuck : Parser α} (short : (ts ++ rest).length < n)
    (h : Accepts p stop ts a rest) : Accepts (limited n stuck p) stop ts a rest :=
  reports_nil_iff.1 (reports_limited short h.reports)

theorem reports_nested {stuck : Parser α} {phrase : Parser α → Parser α}
    (h : Reports (phrase (limited (ts ++ rest).length stuck (nested stuck phrase))) stop ts ds a
      rest) :
    Reports (nested stuck phrase) stop ts ds a rest := by
  intro s plain hstop tokens
  obtain ⟨t, run, moves⟩ := h s plain hstop tokens
  refine ⟨t, ?_, moves⟩
  rw [nested_apply, s.remaining_eq, tokens]
  exact run

theorem accepts_nested {stuck : Parser α} {phrase : Parser α → Parser α}
    (h : Accepts (phrase (limited (ts ++ rest).length stuck (nested stuck phrase))) stop ts a rest) :
    Accepts (nested stuck phrase) stop ts a rest :=
  reports_nil_iff.1 (reports_nested h.reports)

/-! ## Loops -/

section Iterate

variable {continues : TokenKind → Bool} {round : β → Parser β} {b' : β}

theorem accepts_iterate_nil (ends : continues (nextKind rest) = false) :
    Accepts (iterate continues round b) stop [] b rest := by
  intro s plain _ tokens
  rw [List.nil_append] at tokens
  refine ⟨s.looked, iterate_end ?_, plain.moves_looked⟩
  rw [plain.current_kind, tokens, ends]
  exact Bool.false_ne_true

theorem reports_iterate_cons {b₁ : β} (more : continues (nextKind ts) = true) (nonempty : ts ≠ [])
    (h : Reports (round b) stop ts ds b₁ (us ++ rest))
    (h' : Reports (iterate continues round b₁) (stopAfter stop ts) us es b' rest) :
    Reports (iterate continues round b) stop (ts ++ us) (ds ++ es) b' rest := by
  intro s plain hstop tokens
  rw [List.append_assoc] at tokens
  obtain ⟨t, first, moves⟩ := h s.looked plain.looked hstop (by rw [tokens_looked, tokens])
  have next : t.tokens = us ++ rest := moves.rest (by rw [tokens_looked, tokens])
  obtain ⟨u, second, moves'⟩ := h' t moves.plainAfter (by rw [moves.prevStop, ← hstop]; rfl) next
  -- The loop goes on only behind a round that consumed something.
  have less : t.remaining < s.remaining := by
    have := moves.remaining
    rw [remaining_looked] at this
    have := List.length_pos_iff.2 nonempty
    omega
  have goesOn : continues s.current.kind = true := by
    rwa [plain.current_kind, tokens, nextKind_append nonempty]
  refine ⟨u, ?_, plain.moves_looked.trans (moves.trans moves')⟩
  rw [iterate_step goesOn first less]
  exact second

theorem accepts_iterate_cons {b₁ : β} (more : continues (nextKind ts) = true) (nonempty : ts ≠ [])
    (h : Accepts (round b) stop ts b₁ (us ++ rest))
    (h' : Accepts (iterate continues round b₁) (stopAfter stop ts) us b' rest) :
    Accepts (iterate continues round b) stop (ts ++ us) b' rest :=
  reports_nil_iff.1 (reports_iterate_cons more nonempty h.reports h'.reports)

end Iterate

end IdlFront.Parser
