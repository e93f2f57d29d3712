import IdlFront.Proofs.Lexical.Places
import IdlFront.Proofs.Parser.Accepting
import IdlFront.Proofs.Parser.Invariant

/-! # When parsers report

A parser looks no further than the token it decides on, so whatever it reports lies behind all that is
in its log and before all that the source has yet to hand on.

* `Diagnostic.rank` — the order of diagnostics: by place, and by origin at one place.
* `ParserState.trail` — the log, followed by the faults to come and a mark for every token to come.
* `Orderly` — a state whose trail is in order, with all faults of the source in it.
* `Punctual` — a parser that leaves orderly states orderly. Every parser of the language is one.
-/

namespace IdlFront

/-! ## The order of diagnostics -/

/-- Is it met while a text is split into tokens? -/
def Problem.isLexical : Problem → Bool
  | .unexpectedCharacter _ | .unterminatedComment | .unterminatedString
  | .missingHexDigits _ | .missingExponentDigits _ => true
  | _ => false

namespace Diagnostic

def isLexical (d : Diagnostic) : Bool := d.problem.isLexical

/-- The place, and there the faults of the source before those of the grammar. -/
def rank (d : Diagnostic) : (Int ×ₗ Int) ×ₗ Bool := toLex (d.place, !d.isLexical)

theorem rank_le_iff {d e : Diagnostic} : d.rank ≤ e.rank ↔
    d.place < e.place ∨ d.place = e.place ∧ (e.isLexical = true → d.isLexical = true) := by
  rw [rank, rank, Prod.Lex.toLex_le_toLex]
  cases d.isLexical <;> cases e.isLexical <;> simp

theorem place_le_of_rank_le {d e : Diagnostic} (h : d.rank ≤ e.rank) : d.place ≤ e.place := by
  obtain before | ⟨same, -⟩ := rank_le_iff.1 h
  · exact le_of_lt before
  · exact le_of_eq same

end Diagnostic

def InOrder (ds : List Diagnostic) : Prop := ds.Pairwise fun d e => d.rank ≤ e.rank

/-- A stand-in for whatever the parser may report at a token. -/
def Token.mark (t : Token) : Diagnostic := t.report (.remark "")

theorem Problem.Fits.not_lexical {t : Token} {problem : Problem} (h : problem.Fits t) :
    problem.isLexical = false := by
  cases h <;> rfl

theorem Token.rank_report (t : Token) {problem : Problem} (h : problem.isLexical = false) :
    (t.report problem).rank = t.mark.rank := by
  have syntactic : (t.report problem).isLexical = t.mark.isLexical := h
  rw [Diagnostic.rank, Diagnostic.rank, syntactic]
  rfl

/-! ## Trails -/

def Arrival.trail (a : Arrival) : List Diagnostic := a.faults ++ [a.token.mark]

namespace ParserState

/-- What has been reported, and what the source has yet to hand on, with the marks of the tokens it
    stands between. -/
def trail (s : ParserState) : List Diagnostic :=
  s.log.toList ++ (s.stream.upcoming ++ [s.stream.last]).flatMap Arrival.trail

theorem trail_looked (s : ParserState) : s.looked.trail = s.trail := by
  unfold trail looked TokenStream.takeUpTo TokenStream.faultsUpTo TokenStream.reachesEnd
  cases s.stream.upcoming <;> simp [TokenStream.hushed, Arrival.trail]

/-- Behind the log of a state that looks at its next token stands the mark of this token. -/
theorem trail_current (s : ParserState) :
    ∃ rest, s.trail = s.looked.log.toList ++ s.current.mark :: rest ∧
      (s.advanced.trail = s.looked.log.toList ++ rest ∨ s.advanced.trail = s.trail) := by
  rw [← trail_looked]
  unfold trail advanced current TokenStream.current TokenStream.tail looked TokenStream.takeUpTo
    TokenStream.reachesEnd
  cases s.stream.upcoming <;> simp [TokenStream.hushed, Arrival.trail]

theorem trail_reported (s : ParserState) (d : Diagnostic) : (s.reported d).trail =
    s.log.toList ++ d :: (s.stream.upcoming ++ [s.stream.last]).flatMap Arrival.trail := by
  simp [trail, reported]

end ParserState

namespace Parser

open ParserState

variable {faults : List Diagnostic} {s : ParserState} {t : Token}

/-! ## Orderly states -/

/-- The trail is in order, and the faults of the source in it are these. -/
structure Orderly (faults : List Diagnostic) (s : ParserState) : Prop where
  sorted : InOrder s.trail
  lexical : s.trail.filter Diagnostic.isLexical = faults

theorem Orderly.looked (h : Orderly faults s) : Orderly faults s.looked where
  sorted := by rw [trail_looked]; exact h.sorted
  lexical := by rw [trail_looked]; exact h.lexical

/-- A mark may be left out. -/
theorem Orderly.advanced (h : Orderly faults s) : Orderly faults s.advanced := by
  obtain ⟨rest, all, less | same⟩ := trail_current s
  · constructor
    · have sorted := h.sorted
      rw [all] at sorted
      rw [less]
      exact sorted.sublist ((List.sublist_cons_self _ _).append_left _)
    · rw [less, ← h.lexical, all, List.filter_append, List.filter_append, List.filter_cons_of_neg]
      exact Bool.false_ne_true
  · exact ⟨same ▸ h.sorted, same ▸ h.lexical⟩

/-- A report next to the mark of its token keeps the order. -/
theorem inOrder_insert {d e : Diagnostic} {ds es : List Diagnostic} (same : d.rank = e.rank)
    (h : InOrder (ds ++ e :: es)) : InOrder (ds ++ d :: e :: es) := by
  simp only [InOrder, List.pairwise_append, List.pairwise_cons, List.forall_mem_cons, same] at h ⊢
  obtain ⟨before, ⟨behind, after⟩, between⟩ := h
  exact ⟨before, ⟨⟨le_refl _, behind⟩, behind, after⟩,
    fun a mem => ⟨(between a mem).1, between a mem⟩⟩

/-- A token that is being looked at can be reported, and still after it has been consumed. -/
theorem Orderly.reported {problem : Problem} (h : Orderly faults s) (syntactic : problem.isLexical = false) :
    Orderly faults (s.looked.reported (s.current.report problem)) ∧
      Orderly faults (s.advanced.reported (s.current.report problem)) := by
  obtain ⟨rest, all, behind⟩ := trail_current s
  have sorted := h.sorted
  have lexical := h.lexical
  rw [all] at sorted lexical
  -- The report stands behind the log in both states, right before the mark of its token.
  replace sorted := inOrder_insert (s.current.rank_report syntactic) sorted
  replace lexical : (s.looked.log.toList ++ s.current.report problem :: s.current.mark :: rest).filter
      Diagnostic.isLexical = faults := by
    rw [← lexical, List.filter_append, List.filter_cons_of_neg, List.filter_append]
    exact Bool.eq_false_iff.1 syntactic
  constructor
  · have split := (trail_looked s).trans all
    rw [trail, List.append_cancel_left_eq] at split
    constructor <;> rwa [trail_reported, split]
  · have log : s.advanced.log = s.looked.log := rfl
    obtain less | same := behind
    · rw [trail, log, List.append_cancel_left_eq] at less
      constructor
      · rw [trail_reported, less, log]
        exact sorted.sublist (((List.sublist_cons_self _ _).cons_cons _).append_left _)
      · rw [trail_reported, less, log, ← lexical, List.filter_append, List.filter_append]
        congr 1
    · rw [all, trail, log, List.append_cancel_left_eq] at same
      constructor <;> rwa [trail_reported, same, log]

/-! ## Punctual parsers -/

variable {α : Type}

/-- Order, whatever the faults of the source are. -/
def punctuality (faults : List Diagnostic) : Invariant := settling (Orderly faults)

/-- A parser that leaves orderly states orderly, also if its failure is reported at once. -/
abbrev Punctual (p : Parser α) : Prop := Holds (keeps punctuality) none p

theorem Punctual.orderly {p : Parser α} (hp : Punctual p) (h : Orderly faults s) :
    Orderly faults (settled (p s)) := behind_settling.1 (hp.holds faults s h (sees_none s))

theorem Orderly.reported_still {problem : Problem} (h : Orderly faults s) (still : s.looked = s)
    (syntactic : problem.isLexical = false) : Orderly faults (s.reported (s.current.report problem)) := by
  have reported := (h.reported syntactic).1
  rwa [still] at reported

instance : Phrasal (keeps punctuality) :=
  phrasal_keeps Orderly.looked (fun h _ => h.advanced) fun h still fits =>
    h.reported_still still fits.not_lexical

instance : Reporting (keeps punctuality) :=
  reporting_keeps (fun h still fits => h.reported_still still fits.not_lexical) fun {_ _ name} h _ _ =>
    have syntactic : (Problem.duplicateAccessor name).isLexical = false := rfl
    (h.reported syntactic).2

instance : Resuming (keeps punctuality) := resuming_keeps Orderly.advanced id

instance : Lenient (keeps punctuality) := lenient_keeps fun {_ s kinds} h still =>
  have syntactic : (Problem.expected kinds s.current).isLexical = false := rfl
  h.reported_still still syntactic

end Parser

end IdlFront
