import IdlFront.Proofs.Parser.Interleaving
import IdlFront.Proofs.Parser.Spelling

/-! # What reports say of the tokens they are made at

A report of what is expected names the next token, and this token is of none of the expected kinds.
There is one exception: behind attributes at the top level an import is not expected, and still the
report names it among what is.

* `Diagnostic.FairIn` — a diagnostic that is such a report, or is no report of what is expected.
* `ParserState.Fair` — a state over a source with such diagnostics only, reported or to come.
* `Candid` — a parser that leaves fair states fair. Every parser of the language is one.
* `parse_fair` — the diagnostics of any source text are fair.
-/

namespace IdlFront

variable {source : String}

/-! ## Fair diagnostics -/

/-- The token is the word of an import that stands right behind a list of attributes. -/
def Token.IsAttributedImport (source : String) (t : Token) : Prop :=
  t.kind = .keyword .import_ ∧
    ∃ bracket, bracket.kind = .punct .rbracket ∧ [bracket, t] <:+: (tokenize source).tokens

/-- A report that one of some kinds is expected is made at the token it has found, a token of the
    source, which is of none of these kinds. If it is, it is an import behind attributes, and the
    kinds are those of the top level. -/
def Diagnostic.FairIn (source : String) (d : Diagnostic) : Prop :=
  ∀ kinds found, d.problem = .expected kinds found →
    found ∈ (tokenize source).tokens ∧ d = found.report (.expected kinds found) ∧
      (found.kind ∈ kinds →
        kinds = [.keyword .namespace_, .keyword .import_] ∧ found.IsAttributedImport source)

theorem Token.fairIn_report {t : Token} {problem : Problem} (fits : problem.Fits t)
    (mem : t ∈ (tokenize source).tokens) : (t.report problem).FairIn source := by
  intro kinds found eq
  cases fits with
  | expected other =>
    cases eq
    exact ⟨mem, rfl, fun among => absurd among other⟩
  | _ => cases eq

theorem Diagnostic.fairIn_of_isLexical {d : Diagnostic} (lexical : d.isLexical = true) :
    d.FairIn source := by
  intro kinds found eq
  rw [Diagnostic.isLexical, eq] at lexical
  cases lexical

namespace ParserState

/-! ## Fair states -/

/-- The tokens to come are those of the source, and whatever has been reported or is still to be
    handed on is fair. -/
structure Fair (source : String) (s : ParserState) : Prop where
  reads : s.Reads source
  trail : ∀ d ∈ s.trail, d.FairIn source

variable {s : ParserState}

theorem Reads.current_mem (reads : s.Reads source) : s.current ∈ (tokenize source).tokens := by
  refine reads.subset ?_
  rw [s.current_eq]
  cases s.tokens <;> simp

namespace Fair

theorem looked (h : s.Fair source) : s.looked.Fair source where
  reads := h.reads.reaches (.single (.look s))
  trail := by
    rw [trail_looked]
    exact h.trail

theorem advanced (h : s.Fair source) : s.advanced.Fair source where
  reads := h.reads.reaches (.single (.advance s))
  trail := by
    obtain ⟨rest, all, less | same⟩ := trail_current s
    · rw [less]
      intro d mem
      refine h.trail d ?_
      rw [all]
      exact ((List.sublist_cons_self _ _).append_left _).subset mem
    · rw [same]
      exact h.trail

theorem reported {d : Diagnostic} (h : s.Fair source) (fair : d.FairIn source) :
    (s.reported d).Fair source where
  reads := h.reads.reaches (.single (.report s d))
  trail := by
    have before := h.trail
    rw [ParserState.trail, List.forall_mem_append] at before
    rw [trail_reported, List.forall_mem_append, List.forall_mem_cons]
    exact ⟨before.1, fair, before.2⟩

theorem reported_current {problem : Problem} (h : s.Fair source) (fits : problem.Fits s.current) :
    (s.reported (s.current.report problem)).Fair source :=
  h.reported (Token.fairIn_report fits h.reads.current_mem)

end Fair

/-- At first there is nothing but the faults of the source. -/
theorem fair_initial (source : String) : (initial (.ofSource source)).Fair source where
  reads := reads_initial source
  trail := by
    obtain ⟨as, last, eq, noEof, ending⟩ := arrivals_eq source
    have lexical := arrivals_lexical source
    rw [eq] at lexical
    rw [TokenStream.ofSource, eq, ofArrivals_eq noEof ending]
    show ∀ d ∈ [] ++ (as ++ [last]).flatMap Arrival.trail, d.FairIn source
    intro d mem
    rw [List.nil_append, List.mem_flatMap] at mem
    obtain ⟨a, inside, mem⟩ := mem
    obtain fault | mark := List.mem_append.1 mem
    · exact Diagnostic.fairIn_of_isLexical (lexical a inside d fault)
    · rw [List.mem_singleton.1 mark]
      rintro _ _ ⟨⟩

end ParserState

namespace Parser

open ParserState

variable {α β : Type} {s : ParserState}

/-! ## Candid parsers -/

/-- Fairness, whatever the source is. -/
def candour (source : String) : Invariant := settling (ParserState.Fair source)

/-- A parser that leaves fair states fair, also if its failure is reported at once. -/
abbrev Candid (p : Parser α) : Prop := Holds (keeps candour) none p

theorem Candid.fair {p : Parser α} (hp : Candid p) (h : s.Fair source) : (settled (p s)).Fair source :=
  behind_settling.1 (hp.holds source s h (sees_none s))

instance : Phrasal (keeps candour) :=
  phrasal_keeps Fair.looked (fun h _ => h.advanced) fun h _ fits => h.reported_current fits

instance : Reporting (keeps candour) :=
  reporting_keeps (fun h _ fits => h.reported_current fits) fun {_ _ name} h _ _ =>
    h.advanced.reported (Token.fairIn_report (.duplicateAccessor name) h.reads.current_mem)

instance : Resuming (keeps candour) := resuming_keeps Fair.advanced id

/-- A parser is candid if it does the same as a candid one over every source. -/
theorem Candid.congr {p q : Parser α} (hq : Candid q)
    (same : ∀ s : ParserState, s.ending.kind = .eof → p s = q s) : Candid p :=
  ⟨fun source s h sees => same s h.reads.lexed.1 ▸ hq.holds source s h sees⟩

/-- A stand-in for what would happen where a phrase is nested in front of itself, which never is. -/
def unnested : Parser α := do
  let t ← current
  refuse t .noAccessors

instance {J : Judgement} [Phrasal J] : Holds J none (unnested : Parser α) :=
  @holds_current _ _ _ _ fun _ => ⟨Phrasal.refuse .noAccessors⟩

instance : Candid typeRef :=
  .congr (holds_nested unnested _ fun _ _ => inferInstance) (proceeds.typeRef unnested)

instance : Candid declaration :=
  .congr (holds_nested unnested _ fun _ _ => inferInstance) (proceeds.declaration unnested)

/-! ## The top level -/

/-- Behind lists of attributes the next token is the one that was so in front of them, or it stands
    behind a closing bracket. -/
theorem attributeLists_ok {u : ParserState} {attributes : List Attribute} (reads : s.Reads source)
    (run : attributeLists s = .ok attributes u) : u.current = s.current ∨
      ∃ bracket, bracket.kind = .punct .rbracket ∧
        [bracket, u.current] <:+: (tokenize source).tokens := by
  refine (iterate_ok (I := fun _ u => u.Reads source ∧ (u.current = s.current ∨
    ∃ bracket, bracket.kind = .punct .rbracket ∧
      [bracket, u.current] <:+: (tokenize source).tokens)) ?_ ?_ ⟨reads, .inl rfl⟩ run).2
  · rintro _ u ⟨reads, before⟩
    rw [u.current_looked]
    exact ⟨reads.reaches (.single (.look u)), before⟩
  · rintro as as' u v - ⟨reads, -⟩ round
    have looked : u.looked.Reads source := reads.reaches (.single (.look u))
    have behind : v.Reads source := looked.reaches (reaches_ok round)
    obtain ⟨_, w, first, round⟩ := bind_ok round
    obtain ⟨more, x, uses, round⟩ := bind_ok round
    obtain ⟨_, y, closing, rest⟩ := bind_ok round
    cases rest
    rw [discard_apply] at closing
    cases found : expect (.punct .rbracket) x with
    | error d y => rw [found] at closing; cases closing
    | ok bracket y =>
      rw [found] at closing
      cases closing
      have inside := (looked.reaches (reaches_ok first)).reaches (reaches_ok uses)
      obtain ⟨kind, consumed⟩ := expect_ok inside (by decide) found
      refine ⟨behind, .inr ⟨bracket, kind, ?_⟩⟩
      -- What is consumed last stands in front of what comes next.
      obtain ⟨us, eq⟩ := inside
      have ending : v.ending = x.ending := (reaches_ok found).ending
      rw [← eq, consumed.tokens, ← ending, v.current_eq, List.append_assoc]
      refine ⟨us, (v.tokens ++ [v.ending]).tail, ?_⟩
      cases v.tokens <;> simp

theorem check_bind (kinds : List TokenKind) (f : Bool → Parser β) (s : ParserState) :
    (check kinds >>= f) s = f (kinds.contains s.current.kind) s.looked := rfl

/-- An import that does not come first is behind attributes. -/
instance : Candid topLevel := by
  refine @holds_current _ _ _ _ fun start => .ite (fun _ => inferInstance) fun noImport => ?_
  refine ⟨fun source s before sees => ?_⟩
  have behind := (inferInstance : Candid attributeLists).holds source s before (sees_none s)
  rw [bind_apply]
  cases run : attributeLists s with
  | error d u => rwa [run] at behind
  | ok attributes u =>
    rw [run] at behind
    have h : u.Fair source := behind
    simp only [check_bind]
    by_cases isNamespace : u.current.kind = .keyword .namespace_
    · rw [if_pos (by simp [isNamespace])]
      have rest : Candid (do return .namespace_ (← namespaceDecl start attributes) : Parser TopLevel) :=
        inferInstance
      exact rest.holds source u.looked h.looked (sees_none _)
    · rw [if_neg (by simp [isNamespace])]
      refine h.looked.looked.reported ?_
      rw [u.current_looked]
      rintro _ _ ⟨⟩
      refine ⟨h.reads.current_mem, rfl, fun mem => ⟨rfl, ?_⟩⟩
      have isImport : u.current.kind = .keyword .import_ := by simpa [isNamespace] using mem
      obtain same | behind := attributeLists_ok before.reads run
      · rw [same, (sees start rfl).1] at isImport
        exact absurd isImport noImport
      · exact ⟨isImport, behind⟩

end Parser

open IdlFront.Parser IdlFront.ParserState

/-- Every diagnostic of any source text that says what kinds of tokens are expected is made at the
    token it has found, and this token is of none of these kinds. The one exception is an import
    right behind a list of attributes, where the kinds are those of the top level. -/
theorem parse_fair (source : String) : ∀ d ∈ (parse source).diagnostics, d.FairIn source := by
  obtain ⟨t, run, result⟩ := file_source source
  have settled := (inferInstance : Candid file).fair (fair_initial source)
  rw [run] at settled
  intro d mem
  exact settled.trail d (List.mem_append_left _ (result ▸ mem))

/-- A struct at the top level, where a namespace or an import is expected. -/
theorem parse_fair_struct :
    (⟨1, 1, .expected [.keyword .namespace_, .keyword .import_] ⟨.keyword .struct, "struct", 1, 1, 0⟩⟩ :
      Diagnostic) ∈ (parse "struct").diagnostics ∧
    Diagnostic.FairIn "struct" ⟨1, 1, .expected [.keyword .namespace_, .keyword .import_]
      ⟨.keyword .struct, "struct", 1, 1, 0⟩⟩ := by
  have mem : (⟨1, 1, .expected [.keyword .namespace_, .keyword .import_]
      ⟨.keyword .struct, "struct", 1, 1, 0⟩⟩ : Diagnostic) ∈ (parse "struct").diagnostics := by
    decide +kernel
  exact ⟨mem, parse_fair _ _ mem⟩

/-- An import behind attributes is reported as what is found where it is expected. -/
theorem attributed_import :
    (parse "[a] import \"x\";").diagnostics = [⟨1, 5, .expected [.keyword .namespace_,
      .keyword .import_] ⟨.keyword .import_, "import", 1, 5, 4⟩⟩] ∧
    (parse "[a] import \"x\";").diagnostics.map Diagnostic.message =
      ["Expected 'namespace' or 'import', found keyword 'import'"] := by
  decide +kernel

end IdlFront
