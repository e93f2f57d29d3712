import IdlFront.Proofs.Grammar.Isolation
import IdlFront.Proofs.Grammar.Recognition
import IdlFront.Proofs.Parser.Punctual

/-! # Faults and reports in the order of the text

* `arrivals_inOrder` — what a source hands on is in order, token by token.
* `sameReports` — a bisimulation between a source that has faults and one that has none.
* `merge_of_inOrder` — diagnostics in order are those of the source merged with those of the grammar.
* `parse_interleaves` — parsing a text and parsing its tokens differ in these faults only.
-/

namespace IdlFront

open IdlFront.Parser IdlFront.ParserState IdlFront.Lexical

/-! ## What a source hands on -/

/-- Faults and marks of lexemes from a place on. -/
def trailFrom (p : Position) : List Lexeme → List Diagnostic
  | [] => [(p.token .eof []).mark]
  | l :: ls =>
    match l.kind with
    | .token kind => p.faults l ++ (p.token kind l.text).mark :: trailFrom (p.after l.text) ls
    | _ => p.faults l ++ trailFrom (p.after l.text) ls

theorem trail_arrivalsFrom (p : Position) (pending : List Diagnostic) (ls : List Lexeme) :
    (arrivalsFrom p pending ls).flatMap Arrival.trail = pending ++ trailFrom p ls := by
  induction ls generalizing p pending with
  | nil => simp [arrivalsFrom, trailFrom, Arrival.trail]
  | cons l ls ih =>
    rw [arrivalsFrom, trailFrom]
    cases l.kind <;> simp [ih, Arrival.trail]

/-- A lexeme that has text, and whose fault is one of the source. -/
def Lexeme.Proper (l : Lexeme) : Prop := l.text ≠ [] ∧ ∀ problem ∈ l.fault, problem.isLexical = true

theorem Lexical.Decimal.fault {l : Lexeme} {rest : List Char} (h : Decimal l rest) :
    ∀ problem ∈ l.fault, problem.isLexical = true := by
  intro problem faulty
  cases h with
  | brokenFloat _ _ _ _ =>
    cases faulty
    rfl
  | _ => cases faulty

theorem Lexical.Front.proper {l : Lexeme} {rest : List Char} (h : Front l rest) : l.Proper := by
  refine ⟨h.text_ne_nil, ?_⟩
  intro problem faulty
  cases h with
  | solid _ solid =>
    cases solid with
    | decimal _ _ decimal => exact decimal.fault problem faulty
    | openString _ _ _ | emptyHex _ _ | rejected _ _ _ _ =>
      cases faulty
      rfl
    | _ => cases faulty
  | openComment _ =>
    cases faulty
    rfl
  | _ => cases faulty

theorem proper_of_split (cs : List Char) : ∀ l ∈ Lexeme.split cs, l.Proper := by
  induction cs using Lexeme.split.induct with
  | case1 => simp [Lexeme.split]
  | case2 c cs lexeme ih =>
    rw [Lexeme.split, List.forall_mem_cons]
    refine ⟨?_, ih⟩
    by_cases visible : isBlank c = true
    · rw [first_blank visible]
      simp [Lexeme.Proper, Lexeme.sound]
    · obtain ⟨_, -, front⟩ : ∃ rest, c :: cs = (Lexeme.first c cs).text ++ rest ∧
        Lexical.Front (Lexeme.first c cs) rest := front_sound (Bool.eq_false_iff.2 visible)
      exact front.proper

theorem trailFrom_inOrder {ls : List Lexeme} (proper : ∀ l ∈ ls, l.Proper) (p : Position) :
    InOrder (trailFrom p ls) ∧ ∀ d ∈ trailFrom p ls, p.place ≤ d.place := by
  induction ls generalizing p with
  | nil => exact ⟨List.pairwise_singleton _ _, by simp [trailFrom]; rfl⟩
  | cons l ls ih =>
    obtain ⟨⟨some, lexical⟩, others⟩ := List.forall_mem_cons.1 proper
    obtain ⟨sorted, floor⟩ := ih others (p.after l.text)
    have further := p.place_after some
    -- What the lexeme itself brings stands at its start, before all that follows it.
    have here : ∀ d ∈ p.faults l, d.place = p.place ∧ d.isLexical = true := by
      intro d mem
      simp only [Position.faults, List.mem_map, Option.mem_toList] at mem
      obtain ⟨problem, mem, rfl⟩ := mem
      exact ⟨rfl, lexical problem mem⟩
    have faults : InOrder (p.faults l) := by
      unfold InOrder Position.faults
      cases l.fault <;> simp
    have before : ∀ d ∈ p.faults l, ∀ e ∈ trailFrom (p.after l.text) ls, d.rank ≤ e.rank := by
      intro d mem e mem'
      refine Diagnostic.rank_le_iff.2 (.inl ?_)
      rw [(here d mem).1]
      exact lt_of_lt_of_le further (floor e mem')
    have above : ∀ d ∈ p.faults l, p.place ≤ d.place := fun d mem => le_of_eq (here d mem).1.symm
    have later : ∀ d ∈ trailFrom (p.after l.text) ls, p.place ≤ d.place := fun d mem =>
      le_trans (le_of_lt further) (floor d mem)
    rw [trailFrom]
    split
    · next kind _ =>
      have mark : ∀ e ∈ trailFrom (p.after l.text) ls, (p.token kind l.text).mark.rank ≤ e.rank :=
        fun e mem => Diagnostic.rank_le_iff.2 (.inl (lt_of_lt_of_le further (floor e mem)))
      have own : ∀ d ∈ p.faults l, d.rank ≤ (p.token kind l.text).mark.rank := fun d mem =>
        Diagnostic.rank_le_iff.2 (.inr ⟨(here d mem).1, fun _ => (here d mem).2⟩)
      constructor
      · refine List.pairwise_append.2 ⟨faults, List.pairwise_cons.2 ⟨mark, sorted⟩, ?_⟩
        exact fun d mem => List.forall_mem_cons.2 ⟨own d mem, before d mem⟩
      · intro d mem
        obtain mem | mem := List.mem_append.1 mem
        · exact above d mem
        · obtain rfl | mem := List.mem_cons.1 mem
          · exact le_refl _
          · exact later d mem
    · exact ⟨List.pairwise_append.2 ⟨faults, sorted, before⟩,
        fun d mem => (List.mem_append.1 mem).elim (above d) (later d)⟩

theorem arrivals_inOrder (source : String) : InOrder ((arrivals source).flatMap Arrival.trail) := by
  rw [arrivals, trail_arrivalsFrom]
  exact (trailFrom_inOrder (proper_of_split _) _).1

theorem arrivalsFrom_lexical {ls : List Lexeme} (proper : ∀ l ∈ ls, l.Proper) (p : Position)
    {pending : List Diagnostic} (lexical : ∀ d ∈ pending, d.isLexical = true) :
    ∀ a ∈ arrivalsFrom p pending ls, ∀ d ∈ a.faults, d.isLexical = true := by
  induction ls generalizing p pending with
  | nil => simpa [arrivalsFrom] using lexical
  | cons l ls ih =>
    obtain ⟨⟨-, fault⟩, others⟩ := List.forall_mem_cons.1 proper
    have faults : ∀ d ∈ pending ++ p.faults l, d.isLexical = true := by
      intro d mem
      simp only [Position.faults, List.mem_append, List.mem_map, Option.mem_toList] at mem
      obtain mem | ⟨problem, mem, rfl⟩ := mem
      · exact lexical d mem
      · exact fault problem mem
    rw [arrivalsFrom]
    split
    · exact List.forall_mem_cons.2 ⟨faults, ih others _ (by simp)⟩
    · exact ih others _ faults

theorem arrivals_lexical (source : String) :
    ∀ a ∈ arrivals source, ∀ d ∈ a.faults, d.isLexical = true :=
  arrivalsFrom_lexical (proper_of_split _) _ (by simp)

/-! ## Streams at their start -/

theorem ofArrivals_eq {as : List Arrival} {last : Arrival} (before : ∀ a ∈ as, a.token.kind ≠ .eof)
    (ending : last.token.kind = .eof) :
    TokenStream.ofArrivals (as ++ [last]) = ⟨as, last, as.length + 1, 0, 0⟩ := by
  have upcoming : ((as ++ [last]).takeWhile fun a => !a.token.isEof) = as := by
    rw [List.takeWhile_append_of_pos (by simpa [Token.isEof] using before)]
    simp [Token.isEof, ending]
  simp [TokenStream.ofArrivals, upcoming]

/-- A source text and its tokens are streams that differ in their faults only. -/
theorem streams_eq (source : String) : ∃ as last, arrivals source = as ++ [last] ∧
    TokenStream.ofSource source = ⟨as, last, as.length + 1, 0, 0⟩ ∧
    TokenStream.ofTokens (tokenize source).tokens =
      ⟨as.map TokenStream.hushed, TokenStream.hushed last, as.length + 1, 0, 0⟩ := by
  obtain ⟨as, last, eq, before, ending⟩ := arrivals_eq source
  have quiet : (tokenize source).tokens.map (fun t => (⟨[], t⟩ : Arrival)) =
      as.map TokenStream.hushed ++ [TokenStream.hushed last] := by
    simp [tokenize, eq, TokenStream.hushed, Function.comp_def]
  have hushed : ∀ a ∈ as.map TokenStream.hushed, a.token.kind ≠ .eof := by
    simpa [TokenStream.hushed] using before
  have ended : (TokenStream.hushed last).token.kind = .eof := ending
  refine ⟨as, last, eq, ?_, ?_⟩
  · rw [TokenStream.ofSource, eq, ofArrivals_eq before ending]
  · rw [TokenStream.ofTokens, quiet, ofArrivals_eq hushed ended, List.length_map]

theorem filter_trail {a : Arrival} (lexical : ∀ d ∈ a.faults, d.isLexical = true) :
    a.trail.filter Diagnostic.isLexical = a.faults := by
  rw [Arrival.trail, List.filter_append, List.filter_eq_self.2 lexical, List.filter_cons_of_neg,
    List.filter_nil, List.append_nil]
  exact Bool.false_ne_true

theorem orderly_ofSource (source : String) :
    Orderly (tokenize source).faults (initial (.ofSource source)) := by
  obtain ⟨as, last, eq, stream, -⟩ := streams_eq source
  have trail : (initial (.ofSource source)).trail = (arrivals source).flatMap Arrival.trail := by
    rw [stream, eq]
    rfl
  constructor
  · rw [trail]
    exact arrivals_inOrder source
  · rw [trail, List.filter_flatMap, tokenize]
    exact congrArg List.flatten (List.map_congr_left fun a mem => filter_trail (arrivals_lexical source a mem))

theorem sublist_hushed (as : List Arrival) :
    ((as.map TokenStream.hushed).flatMap Arrival.trail).Sublist (as.flatMap Arrival.trail) := by
  induction as with
  | nil => exact List.Sublist.slnil
  | cons a as ih => exact (List.sublist_append_right a.faults [a.token.mark]).append ih

theorem orderly_ofTokens (source : String) :
    Orderly [] (initial (.ofTokens (tokenize source).tokens)) := by
  obtain ⟨as, last, eq, -, stream⟩ := streams_eq source
  have trail : (initial (.ofTokens (tokenize source).tokens)).trail =
      ((as ++ [last]).map TokenStream.hushed).flatMap Arrival.trail := by
    rw [stream, List.map_append]
    rfl
  constructor
  · rw [trail, ← eq]
    exact (arrivals_inOrder source).sublist (sublist_hushed _)
  · rw [trail, List.filter_flatMap, List.flatMap_eq_nil_iff]
    intro a mem
    obtain ⟨a, -, rfl⟩ := List.mem_map.1 mem
    rfl

/-! ## Two sources of the same tokens -/

/-- Two states that agree in their tokens and in the reports of the grammar, while each source has
    only faults of its own to hand on. -/
structure SameReports (s t : ParserState) : Prop where
  tokens : s.tokens = t.tokens
  ending : s.ending = t.ending
  prevStop : s.prevStop = t.prevStop
  consumed : s.stream.consumed = t.stream.consumed
  pending : ∀ d ∈ s.pending ++ t.pending, d.isLexical = true
  reports : s.log.toList.filter (! ·.isLexical) = t.log.toList.filter (! ·.isLexical)

theorem filter_log_looked {s : ParserState} (h : ∀ d ∈ s.pending, d.isLexical = true) :
    s.looked.log.toList.filter (! ·.isLexical) = s.log.toList.filter (! ·.isLexical) := by
  have faults : (s.stream.faultsUpTo 0).filter (! ·.isLexical) = [] := by
    rw [List.filter_eq_nil_iff]
    intro d mem
    simp [h d (by rw [← pending_looked]; exact List.mem_append_left _ mem)]
  simp [ParserState.looked, faults]

theorem SameReports.looked {s t : ParserState} (h : SameReports s t) :
    SameReports s.looked t.looked where
  tokens := by rw [tokens_looked, tokens_looked, h.tokens]
  ending := by rw [ending_looked, ending_looked, h.ending]
  prevStop := h.prevStop
  consumed := h.consumed
  pending := by
    have lexical := h.pending
    rw [← pending_looked s, ← pending_looked t] at lexical
    simp only [List.mem_append] at lexical ⊢
    exact fun d mem => lexical d (mem.elim (.inl ∘ .inr) (.inr ∘ .inr))
  reports := by
    have lexical := h.pending
    simp only [List.mem_append] at lexical
    rw [filter_log_looked fun d mem => lexical d (.inl mem),
      filter_log_looked fun d mem => lexical d (.inr mem), h.reports]

theorem sameReports : Bisimulation SameReports where
  tokens h := h.tokens
  ending h := h.ending
  prevStop h := h.prevStop
  consumed h h' := by rw [h.consumed, h'.consumed]
  looked h := h.looked
  advanced {s t} h :=
    { tokens := by rw [tokens_advanced, tokens_advanced, h.tokens]
      ending := by rw [ending_advanced, ending_advanced, h.ending]
      prevStop := by rw [prevStop_advanced, prevStop_advanced, h.tokens, h.prevStop]
      consumed := by
        have left := consumed_advanced s
        have right := consumed_advanced t
        simp only [remaining_eq, tokens_advanced, h.tokens, h.consumed] at left right
        omega
      pending := by
        rw [pending_advanced, pending_advanced]
        exact h.looked.pending
      reports := h.looked.reports }
  reported d h :=
    { h with
      reports := by
        simp only [ParserState.reported, DiagnosticLog.toList_record, List.filter_append, h.reports] }

/-! ## Merging -/

/-- Diagnostics in order are those of the source merged with those of the grammar. -/
theorem merge_of_inOrder {ds : List Diagnostic} (sorted : InOrder ds) :
    ds = (ds.filter Diagnostic.isLexical).merge (ds.filter (! ·.isLexical))
      (fun d e => decide (d.place ≤ e.place)) := by
  induction ds with
  | nil => simp
  | cons d ds ih =>
    obtain ⟨first, others⟩ := List.pairwise_cons.1 sorted
    have rest := ih others
    by_cases lexical : d.isLexical = true
    · rw [List.filter_cons_of_pos lexical, List.filter_cons_of_neg (by simp [lexical])]
      cases syntactic : ds.filter (! ·.isLexical) with
      | nil =>
        rw [syntactic, List.merge_right] at rest
        rw [List.merge_right, ← rest]
      | cons e es =>
        have mem : e ∈ ds := (List.mem_filter.1 (syntactic ▸ List.mem_cons_self)).1
        rw [syntactic] at rest
        rw [List.cons_merge_cons, if_pos, ← rest]
        exact decide_eq_true (Diagnostic.place_le_of_rank_le (first e mem))
    · rw [List.filter_cons_of_neg lexical, List.filter_cons_of_pos (by simpa using lexical)]
      cases faults : ds.filter Diagnostic.isLexical with
      | nil =>
        rw [faults, List.nil_merge] at rest
        rw [List.nil_merge, ← rest]
      | cons e es =>
        have mem : e ∈ ds.filter Diagnostic.isLexical := faults ▸ List.mem_cons_self
        rw [faults] at rest
        rw [List.cons_merge_cons, if_neg, ← rest]
        -- A fault at the same place would have come first.
        obtain before | ⟨-, no⟩ := Diagnostic.rank_le_iff.1 (first e (List.mem_filter.1 mem).1)
        · simpa using before
        · exact absurd (no (List.mem_filter.1 mem).2) lexical

/-! ## Parsing -/

theorem InOrder.places {ds : List Diagnostic} (sorted : InOrder ds) :
    ds.Pairwise fun d e => d.place ≤ e.place :=
  sorted.imp Diagnostic.place_le_of_rank_le

theorem sameReports_initial (source : String) : SameReports (initial (.ofSource source))
    (initial (.ofTokens (tokenize source).tokens)) := by
  obtain ⟨as, last, eq, stream, quiet⟩ := streams_eq source
  rw [stream, quiet]
  have lexical := arrivals_lexical source
  rw [eq] at lexical
  constructor
  · simp [ParserState.tokens, initial, TokenStream.hushed]
  · rfl
  · rfl
  · rfl
  · have eager : (initial ⟨as.map TokenStream.hushed, TokenStream.hushed last, as.length + 1, 0, 0⟩).pending =
        [] := by
      simp [ParserState.pending, initial, TokenStream.hushed]
    intro d mem
    rw [eager, List.append_nil] at mem
    obtain mem | mem := List.mem_append.1 mem
    · obtain ⟨a, among, mem⟩ := List.mem_flatMap.1 mem
      exact lexical a (List.mem_append_left _ among) d mem
    · exact lexical last (List.mem_append_right _ (List.mem_singleton_self _)) d mem
  · rfl

/-- At the end of input the log of an orderly state is all there is. -/
theorem Parser.Orderly.log {faults : List Diagnostic} {s : ParserState} (h : Orderly faults s)
    (ended : s.tokens = []) (handed : s.pending = []) :
    InOrder s.log.toList ∧ s.log.toList.filter Diagnostic.isLexical = faults := by
  have upcoming : s.stream.upcoming = [] := List.map_eq_nil_iff.1 ended
  have none : s.stream.last.faults = [] := (List.append_eq_nil_iff.1 handed).2
  have trail : s.trail = s.log.toList ++ [s.ending.mark] := by
    simp [ParserState.trail, upcoming, none, Arrival.trail, ParserState.ending]
  obtain ⟨sorted, lexical⟩ := h
  rw [trail] at sorted lexical
  rw [List.filter_append, List.filter_cons_of_neg (by exact Bool.false_ne_true), List.filter_nil,
    List.append_nil] at lexical
  exact ⟨sorted.sublist (List.sublist_append_left _ _), lexical⟩

/-- What is logged when a stream has been parsed to its end. -/
theorem file_log {stream : TokenStream} {faults : List Diagnostic} {tree : IdlFile} {t : ParserState}
    (orderly : Orderly faults (initial stream)) (ended : (initial stream).ending.kind = .eof)
    (noEof : ∀ t ∈ (initial stream).tokens, t.kind ≠ .eof) (run : file (initial stream) = .ok tree t) :
    InOrder t.log.toList ∧ t.log.toList.filter Diagnostic.isLexical = faults := by
  have settled := (inferInstance : Punctual file).orderly orderly
  rw [run] at settled
  obtain ⟨u, -, none, rfl⟩ := file_ends ended noEof run
  have none' : u.looked.tokens = [] := by rw [tokens_looked, none]
  exact settled.log none' (pending_of_ended none)

theorem parseStream_ok {stream : TokenStream} {tree : IdlFile} {t : ParserState}
    (run : file (initial stream) = .ok tree t) :
    (parseStream stream).result = ⟨tree, t.log.toList⟩ := by
  simp only [parseStream, run, ParserState.run]

/-- Parsing a text as its tokens come gives the tree that parsing them afterwards gives, and the
    diagnostics are those of both merged by their places. -/
theorem parse_interleaves (source : String) :
    (parse source).tree = (parseTokens (tokenize source).tokens).result.tree ∧
      (parse source).diagnostics = (tokenize source).faults.merge
        (parseTokens (tokenize source).tokens).result.diagnostics
        (fun d e => decide (d.place ≤ e.place)) ∧
      ∀ ds ∈ [(parse source).diagnostics, (tokenize source).faults,
          (parseTokens (tokenize source).tokens).result.diagnostics],
        ds.Pairwise fun d e => d.place ≤ e.place := by
  have total : Total file := by
    unfold file
    infer_instance
  obtain ⟨tree, t, lazily⟩ := total.succeeds (initial (.ofSource source))
  obtain ⟨t', eagerly, same⟩ : ∃ t', file (initial (.ofTokens (tokenize source).tokens)) = .ok tree t' ∧
      SameReports t t' := by
    have alike := (inferInstance : Uniform file).alike sameReports (sameReports_initial source)
    rw [lazily] at alike
    generalize file (initial (.ofTokens (tokenize source).tokens)) = result at alike
    cases alike with
    | ok _ h => exact ⟨_, rfl, h⟩
  obtain ⟨sorted, faults⟩ := file_log (orderly_ofSource source) (last_ofArrivals _).1
    (noEof_initial _) lazily
  obtain ⟨sorted', none⟩ := file_log (orderly_ofTokens source) (last_ofArrivals _).1
    (noEof_initial _) eagerly
  -- Without faults of the source, all that is logged comes from the grammar.
  have reports : t.log.toList.filter (! ·.isLexical) = t'.log.toList := by
    rw [same.reports, List.filter_eq_self]
    simpa using List.filter_eq_nil_iff.1 none
  have first : parse source = ⟨tree, t.log.toList⟩ := parseStream_ok lazily
  have second : (parseTokens (tokenize source).tokens).result = ⟨tree, t'.log.toList⟩ :=
    parseStream_ok eagerly
  rw [first, second]
  have merged := merge_of_inOrder sorted
  rw [faults, reports] at merged
  refine ⟨rfl, merged, ?_⟩
  have lexical : InOrder (tokenize source).faults := faults ▸ sorted.sublist List.filter_sublist
  simp only [List.forall_mem_cons, List.not_mem_nil, false_imp_iff, implies_true, and_true]
  exact ⟨sorted.places, lexical.places, sorted'.places⟩

end IdlFront
