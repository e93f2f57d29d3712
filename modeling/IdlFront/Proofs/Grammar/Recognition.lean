import Mathlib.Data.List.TakeWhile
import IdlFront.Proofs.Grammar.DeclarationSoundness
import IdlFront.Proofs.Grammar.DeclarationCompleteness
import IdlFront.Proofs.Parser.Progress
import IdlFront.Proofs.Token.Arrivals

/-! # Recognition

* `parseStream_iff` — a plain stream is parsed without complaint if and only if its tokens are a file
  of the grammar, and the tree is what the file stands for.
* `pending_le_log` — every fault of a source ends up in the diagnostics.
* `parse_silent_iff` — both together, for token lists and for source texts.
-/

namespace IdlFront

open IdlFront.Parser IdlFront.ParserState IdlFront.Grammar

/-! ## Initial states -/

/-- The tokens before the first end of input. -/
def beforeEof (ts : List Token) : List Token := ts.takeWhile fun t => !t.isEof

theorem upcoming_ofArrivals (as : List Arrival) :
    (TokenStream.ofArrivals as).upcoming = as.takeWhile fun a => !a.token.isEof := by
  unfold TokenStream.ofArrivals
  simp only
  split <;> rfl

theorem tokens_initial (as : List Arrival) :
    (initial (.ofArrivals as)).tokens = beforeEof (as.map Arrival.token) := by
  show (TokenStream.ofArrivals as).upcoming.map Arrival.token = _
  rw [upcoming_ofArrivals, beforeEof, List.takeWhile_map]
  rfl

theorem noEof_initial (as : List Arrival) :
    ∀ t ∈ (initial (.ofArrivals as)).tokens, t.kind ≠ .eof := by
  intro t ht
  rw [tokens_initial] at ht
  simpa [Token.isEof] using List.mem_takeWhile_imp ht

/-- The end of input of a stream is the one of its source, or one that was added. -/
theorem last_ofArrivals (as : List Arrival) :
    (TokenStream.ofArrivals as).last.token.kind = .eof ∧
      ((TokenStream.ofArrivals as).last ∈ as ∨ (TokenStream.ofArrivals as).last.faults = []) := by
  unfold TokenStream.ofArrivals
  simp only
  split
  · next last rest eq =>
    have mem : last ∈ as := List.mem_of_mem_drop (eq ▸ List.mem_cons_self)
    refine ⟨?_, .inl mem⟩
    have split : as.drop (as.takeWhile fun a => !a.token.isEof).length =
        as.dropWhile fun a => !a.token.isEof := by
      conv => lhs; arg 2; rw [← List.takeWhile_append_dropWhile (p := fun a => !a.token.isEof) (l := as)]
      rw [List.drop_left]
    have first := List.head?_dropWhile_not (fun a : Arrival => !a.token.isEof) as
    rw [← split, eq] at first
    simpa [Token.isEof] using first
  · refine ⟨?_, .inr rfl⟩
    unfold TokenStream.missingEnd
    split <;> rfl

theorem plain_initial {as : List Arrival} (quiet : ∀ a ∈ as, a.faults = []) :
    (initial (.ofArrivals as)).Plain where
  quiet a ha := by
    have : a ∈ (TokenStream.ofArrivals as).upcoming := ha
    rw [upcoming_ofArrivals] at this
    exact quiet a (List.takeWhile_subset _ this)
  endQuiet := (last_ofArrivals as).2.elim (quiet _) id
  endIsEof := (last_ofArrivals as).1
  noEof := noEof_initial as

theorem consumed_initial (as : List Arrival) : (initial (.ofArrivals as)).stream.consumed = 0 := by
  show (TokenStream.ofArrivals as).consumed = 0
  unfold TokenStream.ofArrivals
  simp only
  split <;> rfl

theorem tokens_ofTokens (ts : List Token) : (initial (.ofTokens ts)).tokens = beforeEof ts := by
  rw [TokenStream.ofTokens, tokens_initial, List.map_map]
  exact congrArg beforeEof (List.map_id ts)

theorem plain_ofTokens (ts : List Token) : (initial (.ofTokens ts)).Plain :=
  plain_initial (by simp)

/-! ## Streams -/

/-- A run that ends without diagnostics is one that the parser of files went through in silence. -/
theorem parseStream_silent {stream : TokenStream} {tree : IdlFile}
    (h : (parseStream stream).result = ⟨tree, []⟩) :
    ∃ t, file (initial stream) = .ok tree t ∧ t.log.toList = [] := by
  unfold parseStream at h
  cases run : file (initial stream) with
  | ok tree' t =>
    simp only [run, ParserState.run, ParseResult.mk.injEq] at h
    obtain ⟨rfl, silent⟩ := h
    exact ⟨t, rfl, silent⟩
  | error d t =>
    simp [run, ParserState.run, reported] at h

/-- Parsing goes on to the end of input. -/
theorem file_ends {s t : ParserState} {tree : IdlFile} (ended : s.ending.kind = .eof)
    (noEof : ∀ t ∈ s.tokens, t.kind ≠ .eof) (h : file s = .ok tree t) :
    ∃ u, s.Reaches u ∧ u.tokens = [] ∧ t = u.looked := by
  obtain ⟨u, reaches, ends, eq⟩ := iterate_ends (fun ended more run => by
    obtain ⟨o, u, item, rest⟩ := bind_ok run
    cases rest
    exact recovering_lowers ended (remaining_pos ended (by simpa using more)) item) ended h
  refine ⟨u, reaches, ?_, eq⟩
  rw [u.current_eq] at ends
  cases hu : u.tokens with
  | nil => rfl
  | cons t ts =>
    have : t ∈ s.tokens := reaches.tokens.subset (by simp [hu])
    simp [hu, noEof t this] at ends

theorem parseStream_iff {stream : TokenStream} {tree : IdlFile}
    (plain : (initial stream).Plain) :
    (parseStream stream).result = ⟨tree, []⟩ ↔ IsFile (initial stream).tokens tree := by
  constructor
  · intro h
    obtain ⟨t, run, silent⟩ := parseStream_silent h
    obtain ⟨ts, ds, moves⟩ := file.moves plain
    rw [after_ok run] at moves
    have log := moves.log
    rw [silent] at log
    obtain ⟨-, rfl⟩ := List.append_eq_nil_iff.1 log.symm
    -- The run ends at the end of input, so it has consumed all tokens there are.
    obtain ⟨u, -, ended, rfl⟩ := file_ends plain.endIsEof plain.noEof run
    rw [moves.tokens, tokens_looked, ended, List.append_nil]
    exact file_sound ⟨run, moves⟩
  · intro h
    obtain ⟨t, run⟩ := file_complete h _ plain rfl (List.append_nil _).symm
    have log : t.log.toList = [] := by
      rw [run.moves.log]
      rfl
    unfold parseStream
    rw [run.result]
    simp only [ParserState.run, log]

/-! ## Faults of the source -/

/-- The faults that the source has not handed on yet. -/
def ParserState.pending (s : ParserState) : List Diagnostic :=
  s.stream.upcoming.flatMap Arrival.faults ++ s.stream.last.faults

theorem pending_looked (s : ParserState) :
    s.stream.faultsUpTo 0 ++ s.looked.pending = s.pending := by
  unfold pending looked TokenStream.faultsUpTo TokenStream.takeUpTo TokenStream.reachesEnd
  cases s.stream.upcoming <;> simp [TokenStream.hushed]

theorem pending_advanced (s : ParserState) : s.advanced.pending = s.looked.pending := by
  unfold pending advanced TokenStream.tail looked TokenStream.takeUpTo
  cases s.stream.upcoming <;> simp [TokenStream.hushed]

/-- No fault is lost on the way: what is no longer pending has been logged. -/
theorem pending_le_log {s t : ParserState} (h : s.Reaches t) :
    s.log.toList.length + s.pending.length ≤ t.log.toList.length + t.pending.length := by
  -- A look moves faults from the source into the log; other moves only add to the log.
  have look : ∀ u : ParserState, u.log.toList.length + u.pending.length =
      u.looked.log.toList.length + u.looked.pending.length := by
    intro u
    rw [← pending_looked u]
    simp [ParserState.looked]
    omega
  induction h with
  | refl => exact Nat.le_refl _
  | tail _ step ih =>
    refine Nat.le_trans ih ?_
    cases step with
    | look => exact Nat.le_of_eq (look _)
    | advance =>
      rw [pending_advanced]
      exact Nat.le_of_eq (look _)
    | report =>
      simp [reported, pending]

theorem pending_of_ended {s : ParserState} (ended : s.tokens = []) : s.looked.pending = [] := by
  have none : s.stream.upcoming = [] := List.map_eq_nil_iff.1 ended
  simp [pending, looked, TokenStream.takeUpTo, TokenStream.reachesEnd, TokenStream.hushed, none]

/-- A source is parsed without diagnostics only if it has no faults. -/
theorem pending_of_silent {s t : ParserState} {tree : IdlFile} (ended : s.ending.kind = .eof)
    (noEof : ∀ t ∈ s.tokens, t.kind ≠ .eof) (h : file s = .ok tree t)
    (silent : t.log.toList = []) : s.pending = [] := by
  obtain ⟨u, -, none, rfl⟩ := file_ends ended noEof h
  have bound := pending_le_log (reaches_ok h)
  rw [silent, pending_of_ended none] at bound
  simp only [List.length_nil] at bound
  exact List.length_eq_zero_iff.1 (by omega)

/-! ## Spans of the tokens of a source -/

theorem offset_le_stop (t : Token) : t.offset ≤ t.stop := by
  unfold Token.stop
  omega

/-- Over tokens in their order, a span ends where its last token does. -/
theorem spanOver_ordered {ts : List Token} {first last : Token} (ordered : ts.Pairwise Token.Before)
    (head : ts.head? = some first) (tail : ts.getLast? = some last) :
    spanOver ts = ⟨first.line, first.column, first.offset, last.stop⟩ := by
  obtain ⟨rest, rfl⟩ := List.head?_eq_some_iff.1 head
  have le : first.offset ≤ last.stop := by
    obtain rfl | mem := List.mem_cons.1 (List.mem_of_getLast? tail)
    · exact offset_le_stop last
    · have before : first.stop ≤ last.offset := (List.pairwise_cons.1 ordered).1 last mem
      have := offset_le_stop first
      have := offset_le_stop last
      omega
  rw [List.getLast?_eq_some_getLast (List.cons_ne_nil _ _)] at tail
  rw [spanOver, Option.some.inj tail, Token.spanUntil, Int.max_eq_right le]

/-! ## Sources -/

/-- The stream of a source holds all its arrivals, the end of input apart. -/
theorem upcoming_ofSource (source : String) :
    (TokenStream.ofSource source).upcoming ++ [(TokenStream.ofSource source).last] =
      arrivals source := by
  obtain ⟨as, last, eq, before, ending⟩ := arrivals_eq source
  have upcoming : (TokenStream.ofSource source).upcoming = as := by
    rw [TokenStream.ofSource, upcoming_ofArrivals, eq,
      List.takeWhile_append_of_pos (by simpa [Token.isEof] using before)]
    simp [Token.isEof, ending]
  have dropped : (arrivals source).drop as.length = [last] := by rw [eq, List.drop_left]
  have lastEq : (TokenStream.ofSource source).last = last := by
    rw [← upcoming, TokenStream.ofSource, upcoming_ofArrivals] at dropped
    simp only [TokenStream.ofSource, TokenStream.ofArrivals, dropped]
  rw [upcoming, lastEq, eq]

/-- At first all faults of a source are pending. -/
theorem pending_ofSource (source : String) :
    (initial (.ofSource source)).pending = (tokenize source).faults := by
  show (TokenStream.ofSource source).upcoming.flatMap Arrival.faults ++
    (TokenStream.ofSource source).last.faults = (arrivals source).flatMap Arrival.faults
  rw [← upcoming_ofSource]
  simp

theorem tokens_ofSource (source : String) :
    (initial (.ofSource source)).tokens ++ [(initial (.ofSource source)).ending] =
      (tokenize source).tokens := by
  show (TokenStream.ofSource source).upcoming.map Arrival.token ++
    [(TokenStream.ofSource source).last.token] = (arrivals source).map Arrival.token
  rw [← upcoming_ofSource, List.map_append, List.map_singleton]

theorem parse_source_iff {source : String} {tree : IdlFile} :
    parse source = ⟨tree, []⟩ ↔
      (tokenize source).faults = [] ∧ IsFile (beforeEof (tokenize source).tokens) tree := by
  have tokens : (initial (.ofSource source)).tokens = beforeEof (tokenize source).tokens :=
    tokens_initial (arrivals source)
  have plain : (tokenize source).faults = [] → (initial (.ofSource source)).Plain := fun h =>
    plain_initial (List.flatMap_eq_nil_iff.1 h)
  constructor
  · intro h
    obtain ⟨t, run, silent⟩ := parseStream_silent h
    have quiet : (tokenize source).faults = [] := by
      rw [← pending_ofSource]
      exact pending_of_silent (last_ofArrivals _).1 (noEof_initial _) run silent
    exact ⟨quiet, tokens ▸ (parseStream_iff (plain quiet)).1 h⟩
  · rintro ⟨quiet, file⟩
    exact (parseStream_iff (plain quiet)).2 (tokens ▸ file)

theorem parse_nothing : parse "" = ⟨.empty, []⟩ := by
  refine parse_source_iff.2 ⟨?_, ?_⟩
  · simp [tokenize, arrivals, Lexeme.split, arrivalsFrom]
  · have tokens : beforeEof (tokenize "").tokens = [] := by
      simp [tokenize, arrivals, Lexeme.split, arrivalsFrom, Position.token, beforeEof]
      rfl
    rw [tokens]
    exact .mk .nil

/-- Token lists and source texts are parsed without diagnostics if and only if they are files of the
    grammar, and then give the tree that the file stands for. A source text has to be free of faults
    of its own besides. For the tokens of a source text the spans of the tree run from the start of
    the first to the end of the last token. -/
theorem parse_silent_iff :
    (∀ (ts : List Token) (tree : IdlFile),
      (parseTokens ts).result = ⟨tree, []⟩ ↔ IsFile (beforeEof ts) tree) ∧
    (∀ (source : String) (tree : IdlFile), parse source = ⟨tree, []⟩ ↔
      (tokenize source).faults = [] ∧ IsFile (beforeEof (tokenize source).tokens) tree) ∧
    (∀ (source : String) (ts : List Token) (first last : Token),
      ts <:+: (tokenize source).tokens → ts.head? = some first → ts.getLast? = some last →
      spanOver ts = ⟨first.line, first.column, first.offset, last.stop⟩) := by
  refine ⟨?_, fun _ _ => parse_source_iff, ?_⟩
  · intro ts tree
    rw [← tokens_ofTokens]
    exact parseStream_iff (plain_ofTokens ts)
  · intro source ts first last infix_ head tail
    exact spanOver_ordered ((arrivals_ordered source).sublist infix_.sublist) head tail

/-- The tokens of a file that imports another one. -/
def importTokens : List Token :=
  [⟨.keyword .import_, "import", 1, 1, 0⟩, ⟨.string, "\"a\"", 1, 8, 7⟩,
    ⟨.punct .semicolon, ";", 1, 11, 10⟩, ⟨.eof, "", 1, 12, 11⟩]

theorem parse_silent_import :
    (parseTokens importTokens).result = ⟨⟨[⟨"a", ⟨1, 1, 0, 11⟩⟩], []⟩, []⟩ ∧
      parse "import \"a\";" = ⟨⟨[⟨"a", ⟨1, 1, 0, 11⟩⟩], []⟩, []⟩ ∧
      spanOver (beforeEof importTokens) = ⟨1, 1, 0, 11⟩ := by
  have tokens : (tokenize "import \"a\";").tokens = importTokens := by decide +kernel
  have directive : IsTopLevel (beforeEof importTokens) (.import_ ⟨"a", ⟨1, 1, 0, 11⟩⟩) :=
    .import_ (.mk rfl rfl rfl)
  have file : IsFile (beforeEof importTokens) ⟨[⟨"a", ⟨1, 1, 0, 11⟩⟩], []⟩ :=
    .mk (.cons directive .nil)
  refine ⟨(parse_silent_iff.1 importTokens _).2 file, ?_, ?_⟩
  · exact (parse_silent_iff.2.1 _ _).2 ⟨by decide +kernel, tokens ▸ file⟩
  · have within : beforeEof importTokens <:+: (tokenize "import \"a\";").tokens := by
      rw [tokens]
      exact List.takeWhile_prefix _ |>.isInfix
    exact parse_silent_iff.2.2 "import \"a\";" _ ⟨.keyword .import_, "import", 1, 1, 0⟩
      ⟨.punct .semicolon, ";", 1, 11, 10⟩ within rfl rfl

end IdlFront
