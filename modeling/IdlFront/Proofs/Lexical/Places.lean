import Mathlib.Data.Prod.Lex
import Mathlib.Order.Lex
import IdlFront.Proofs.Lexical.Trivia
import IdlFront.Proofs.Token.Arrivals

/-! # Where tokens and faults are

Tokens and faults are where the lexemes of the text start, so their places can be read off the text in
front of them.

* `textBetween` — the text of a source from one offset to another.
* `Token.LexedIn` — the token is a lexeme of the source, in front of what follows it.
* `Token.ExactIn` — what a token says of itself is what the source has there.
* `Diagnostic.place`, `Token.place`, `Position.place` — lines and columns in the order of the text.
* `faultsFrom_isAt`, `faultsFrom_increasing` — faults are at offsets of the source, each behind the one
  before it.
* `tokensFrom_increasing` — each token starts behind the place where the one before it starts.
* `tokens_exact` — every token is exact, and the end of input comes once, at the end.
-/

namespace IdlFront

open Lexical

/-- The text of a source from one offset to another. -/
def textBetween (source : String) (start stop : Int) : String :=
  String.ofList ((source.toList.take stop.toNat).drop start.toNat)

theorem textBetween_append {source : String} {before text rest : List Char}
    (eq : source.toList = before ++ (text ++ rest)) :
    textBetween source before.length (before.length + text.length) = String.ofList text := by
  have stop : ((before.length : Int) + text.length).toNat = (before ++ text).length := by
    rw [List.length_append]
    omega
  rw [textBetween, stop, Int.toNat_natCast, eq, ← List.append_assoc, List.take_left, List.drop_left]

/-! ## The order of places -/

/-- The line, and the column within it. -/
def Diagnostic.place (d : Diagnostic) : Int ×ₗ Int := toLex (d.line, d.column)

def Token.place (t : Token) : Int ×ₗ Int := toLex (t.line, t.column)

theorem Token.place_report (t : Token) (problem : Problem) : (t.report problem).place = t.place := rfl

def Position.place (p : Position) : Int ×ₗ Int := toLex ((p.line : Int), (p.column : Int))

theorem Position.place_next (p : Position) (c : Char) : p.place < (p.next c).place := by
  unfold Position.next Position.place
  split
  · exact Prod.Lex.toLex_lt_toLex.2 (.inl (Int.ofNat_lt.2 (Nat.lt_succ_self _)))
  · exact Prod.Lex.toLex_lt_toLex.2 (.inr ⟨rfl, Int.ofNat_lt.2 (Nat.lt_succ_self _)⟩)

theorem Position.place_after (p : Position) {text : List Char} (some : text ≠ []) :
    p.place < (p.after text).place := by
  have le : ∀ (p : Position) (text : List Char), p.place ≤ (p.after text).place := by
    intro p text
    induction text generalizing p with
    | nil => exact le_refl _
    | cons c text ih => exact le_trans (le_of_lt (p.place_next c)) (ih _)
  obtain ⟨c, text, rfl⟩ := List.exists_cons_of_ne_nil some
  exact lt_of_lt_of_le (p.place_next c) (le _ text)

/-- The line and column of an offset of the source. -/
def Diagnostic.IsAt (source : String) (offset : Nat) (d : Diagnostic) : Prop :=
  d.line = (placeOf (source.toList.take offset)).line ∧
    d.column = (placeOf (source.toList.take offset)).column

namespace Lexical

variable {source : String} {before rest : List Char} {l : Lexeme} {ls : List Lexeme}

/-- The faults of a sequence of lexemes are at offsets of the source. -/
theorem faultsFrom_isAt (splits : Splits rest ls) (eq : source.toList = before ++ rest) :
    ∀ d ∈ faultsFrom before ls, ∃ offset < source.length, d.IsAt source offset := by
  induction splits generalizing before with
  | nil => simp [faultsFrom]
  | @cons l rest ls front _ ih =>
    rw [faultsFrom, List.forall_mem_append]
    refine ⟨?_, ih (by rw [eq, List.append_assoc])⟩
    intro d mem
    simp only [Position.faults, List.mem_map, Option.mem_toList] at mem
    obtain ⟨problem, -, rfl⟩ := mem
    have more := List.length_pos_iff.2 front.text_ne_nil
    refine ⟨before.length, ?_, ?_⟩
    · rw [← String.length_toList, eq, List.length_append, List.length_append]
      omega
    · rw [Diagnostic.IsAt, eq, List.take_left]
      exact ⟨rfl, rfl⟩

/-- Each fault is behind the one before it, and none is before the first lexeme. -/
theorem faultsFrom_increasing (before : List Char) (splits : Splits rest ls) :
    (faultsFrom before ls).Pairwise (fun d e => d.place < e.place) ∧
      ∀ d ∈ faultsFrom before ls, (placeOf before).place ≤ d.place := by
  induction splits generalizing before with
  | nil => simp [faultsFrom]
  | @cons l rest ls front _ ih =>
    obtain ⟨increasing, floor⟩ := ih (before ++ l.text)
    have further : (placeOf before).place < (placeOf (before ++ l.text)).place := by
      rw [← after_placeOf]
      exact Position.place_after _ front.text_ne_nil
    -- The fault of a lexeme is at its start, and those behind are at its end or later.
    have here : ∀ d ∈ (placeOf before).faults l, d.place = (placeOf before).place := by
      intro d mem
      simp only [Position.faults, List.mem_map, Option.mem_toList] at mem
      obtain ⟨problem, -, rfl⟩ := mem
      rfl
    have later : ∀ d ∈ faultsFrom (before ++ l.text) ls, (placeOf before).place < d.place :=
      fun d mem => lt_of_lt_of_le further (floor d mem)
    rw [faultsFrom]
    constructor
    · refine List.pairwise_append.2 ⟨?_, increasing, ?_⟩
      · unfold Position.faults
        cases l.fault <;> simp
      · intro d mem e mem'
        rw [here d mem]
        exact later e mem'
    · intro d mem
      obtain mem | mem := List.mem_append.1 mem
      · exact le_of_eq (here d mem).symm
      · exact le_of_lt (later d mem)

/-- Each token is behind the one before it, and none is before the first lexeme. -/
theorem tokensFrom_increasing (before : List Char) (splits : Splits rest ls) :
    (tokensFrom before ls).Pairwise (fun t u => t.place < u.place) ∧
      ∀ t ∈ tokensFrom before ls, (placeOf before).place ≤ t.place := by
  induction splits generalizing before with
  | nil => exact ⟨List.pairwise_singleton _ _, by simp [tokensFrom]; rfl⟩
  | @cons l rest ls front _ ih =>
    obtain ⟨increasing, floor⟩ := ih (before ++ l.text)
    have further : (placeOf before).place < (placeOf (before ++ l.text)).place := by
      rw [← after_placeOf]
      exact Position.place_after _ front.text_ne_nil
    have later : ∀ t ∈ tokensFrom (before ++ l.text) ls, (placeOf before).place < t.place :=
      fun t mem => lt_of_lt_of_le further (floor t mem)
    rw [tokensFrom]
    split
    · exact ⟨List.pairwise_cons.2 ⟨later, increasing⟩,
        List.forall_mem_cons.2 ⟨le_refl _, fun t mem => le_of_lt (later t mem)⟩⟩
    · exact ⟨increasing, fun t mem => le_of_lt (later t mem)⟩

/-! ## Tokens on one line -/

theorem Unbroken.oneLine {text : List Char} (h : Unbroken text) : '\n' ∉ text := fun mem =>
  h _ mem (by simp [separators, whitespace])

theorem StringBody.oneLine {text : List Char} (h : StringBody text) : '\n' ∉ text := by
  induction h with
  | nil => exact List.not_mem_nil
  | plain _ _ noLineFeed _ ih => exact List.not_mem_cons_of_ne_of_not_mem noLineFeed.symm ih
  | escape noLineFeed _ ih =>
    exact List.not_mem_cons_of_ne_of_not_mem (by decide)
      (List.not_mem_cons_of_ne_of_not_mem noLineFeed.symm ih)

theorem Decimal.unbroken (h : Decimal l rest) : Unbroken l.text := by
  cases h with
  | float longest => exact longest.mem.inner.unbroken
  | integer _ longest => exact (inner_of_digits longest.mem.2).unbroken
  | brokenFloat longest _ marker sign =>
    exact (longest.mem.inner.append
      (sign.mem.inner.cons (exponentMarker_inner marker))).unbroken

theorem Solid.oneLine (h : Solid l rest) {kind : TokenKind} (token : l.kind = .token kind) :
    '\n' ∉ l.text := by
  cases h with
  | punctuation p => cases p <;> simp [Lexeme.sound, Punctuation.char]
  | string isString =>
    obtain ⟨body, isBody, rfl⟩ := isString
    simp [Lexeme.sound, isBody.oneLine]
  | openString noLineFeed => simp [noLineFeed]
  | uuid isUuid => exact isUuid.inner.unbroken.oneLine
  | hex marker _ longest =>
    have digits := inner_of_hexDigits longest.mem
    have zero : isInner '0' = true := marker_inner (by simp [markers])
    exact ((digits.cons (hexMarker_inner marker)).cons zero).unbroken.oneLine
  | emptyHex marker =>
    have markers : ∀ x ∈ ['x', 'X'], '\n' ∉ ['0', x] := by simp
    exact markers _ marker
  | decimal _ _ decimal => exact decimal.unbroken.oneLine
  | word _ _ start longest =>
    have others := (inner_of_continue longest.mem).unbroken
    exact Unbroken.oneLine (List.forall_mem_cons.2 ⟨not_separator_of_start start, others⟩)
  | rejected => cases token

/-- Only blanks, comments and rejected characters hold line feeds. -/
theorem Front.oneLine (h : Front l rest) {kind : TokenKind} (token : l.kind = .token kind) :
    '\n' ∉ l.text := by
  cases h with
  | solid _ solid => exact solid.oneLine token
  | _ => cases token

end Lexical

/-! ## Tokens in a source -/

/-- The token is a lexeme of the source, in front of what follows it. -/
def Token.LexedIn (source : String) (t : Token) : Prop :=
  ∃ before l rest, source.toList = before ++ (l.text ++ rest) ∧ Front l rest ∧
    l.kind = .token t.kind ∧ t = (placeOf before).token t.kind l.text

/-- The token stands in the source at its place, and is not empty. -/
def Token.StandsIn (source : String) (t : Token) : Prop :=
  ∃ before after, source.toList = before ++ t.value.toList ++ after ∧ t.value.toList ≠ [] ∧
    t = (placeOf before).token t.kind t.value.toList

/-- The value is what the source has from the offset to the stop, without a line feed, the line and
    column are those of the offset, and the end of input alone is empty. -/
structure Token.ExactIn (source : String) (t : Token) : Prop where
  nonneg : 0 ≤ t.offset
  within : t.stop ≤ source.length
  value : t.value = textBetween source t.offset t.stop
  line : t.line = (placeOf (source.toList.take t.offset.toNat)).line
  column : t.column = (placeOf (source.toList.take t.offset.toNat)).column
  oneLine : '\n' ∉ t.value.toList
  empty : t.value = "" ↔ t.kind = .eof

namespace Token

variable {source : String} {t : Token}

theorem LexedIn.standsIn (h : t.LexedIn source) : t.StandsIn source := by
  obtain ⟨before, l, rest, eq, front, -, place⟩ := h
  have value : t.value.toList = l.text := by
    rw [place]
    exact String.toList_ofList
  exact ⟨before, rest, by rw [value, eq, List.append_assoc], value ▸ front.text_ne_nil, value ▸ place⟩

/-- A text without line feeds in the source, taken as a token. -/
theorem exactIn_token {before text rest : List Char} {kind : TokenKind}
    (eq : source.toList = before ++ (text ++ rest)) (oneLine : '\n' ∉ text)
    (empty : text = [] ↔ kind = .eof) : ((placeOf before).token kind text).ExactIn source := by
  have offset : ((placeOf before).token kind text).offset = before.length := rfl
  have stop : ((placeOf before).token kind text).stop = before.length + text.length := by
    simp [Token.stop, Position.token, placeOf]
  have front : source.toList.take before.length = before := by rw [eq, List.take_left]
  refine ⟨?_, ?_, ?_, ?_, ?_, ?_, ?_⟩
  · exact Int.natCast_nonneg _
  · rw [stop, ← String.length_toList, eq, List.length_append, List.length_append]
    omega
  · rw [offset, stop, textBetween_append eq]
    rfl
  · rw [offset, Int.toNat_natCast, front]
    rfl
  · rw [offset, Int.toNat_natCast, front]
    rfl
  · simpa [Position.token] using oneLine
  · simpa [Position.token] using empty

theorem LexedIn.exactIn (h : t.LexedIn source) (noEof : t.kind ≠ .eof) : t.ExactIn source := by
  obtain ⟨before, l, rest, eq, front, kind, place⟩ := h
  rw [place]
  exact exactIn_token eq (front.oneLine kind) (iff_of_false front.text_ne_nil noEof)

end Token

/-- The tokens of a sequence of lexemes are those that are lexed in the source, up to the end of input,
    which is where the source ends. -/
theorem lexedIn_tokensFrom {source : String} {ls : List Lexeme} {rest : List Char}
    (before : List Char) (splits : Splits rest ls) (eq : source.toList = before ++ rest) :
    ∃ ts, tokensFrom before ls = ts ++ [(placeOf source.toList).token .eof []] ∧
      ∀ t ∈ ts, t.LexedIn source := by
  induction splits generalizing before with
  | nil =>
    rw [List.append_nil] at eq
    exact ⟨[], by rw [tokensFrom, eq, List.nil_append], by simp⟩
  | @cons l rest ls front _ ih =>
    obtain ⟨ts, tail, lexed⟩ := ih (before ++ l.text) (by rw [eq, List.append_assoc])
    rw [tokensFrom, tail]
    split
    · next kind token =>
      exact ⟨_ :: ts, rfl, List.forall_mem_cons.2 ⟨⟨before, l, rest, eq, front, token, rfl⟩, lexed⟩⟩
    · exact ⟨ts, rfl, lexed⟩

/-- The tokens of a source are lexed in it, up to the end of input. -/
theorem tokens_lexed (source : String) :
    ∃ ts, (tokenize source).tokens = ts ++ [(placeOf source.toList).token .eof []] ∧
      ∀ t ∈ ts, t.LexedIn source ∧ t.kind ≠ .eof := by
  have splits := splits_singly source.toList
  obtain ⟨ts, tokens, lexed⟩ := lexedIn_tokensFrom [] splits rfl
  obtain ⟨as, last, eq, noEof, -⟩ := arrivals_eq source
  have tokens : (tokenize source).tokens = ts ++ [(placeOf source.toList).token .eof []] := by
    rw [tokenize_of_splits splits, tokens]
  have same : as.map Arrival.token ++ [last.token] = ts ++ [(placeOf source.toList).token .eof []] := by
    rw [← tokens, tokenize, eq, List.map_append, List.map_singleton]
  obtain ⟨rfl, -⟩ := List.append_inj' same rfl
  have words : ∀ t ∈ as.map Arrival.token, t.kind ≠ .eof := by simpa using noEof
  exact ⟨_, tokens, fun t mem => ⟨lexed t mem, words t mem⟩⟩

/-- The tokens of any source text say exactly where they are and what is there: each has the text of
    the source from its offset to its stop as its value, none overlaps the next one, and the end of
    input comes once, last, where the source ends. Every fault is at an offset of the source. -/
theorem tokens_exact (source : String) :
    (∀ t ∈ (tokenize source).tokens, t.ExactIn source) ∧
      (tokenize source).tokens.Pairwise Token.Before ∧
      (∃ ts last, (tokenize source).tokens = ts ++ [last] ∧ (∀ t ∈ ts, t.kind ≠ .eof) ∧
        last.kind = .eof ∧ last.offset = (source.length : Int)) ∧
      ∀ d ∈ (tokenize source).faults, ∃ offset < source.length, d.IsAt source offset := by
  obtain ⟨ts, tokens, lexed⟩ := tokens_lexed source
  refine ⟨?_, arrivals_ordered source,
    ⟨ts, _, tokens, fun t mem => (lexed t mem).2, rfl, ?_⟩, ?_⟩
  · rw [tokens, List.forall_mem_append, List.forall_mem_singleton]
    have whole : source.toList = source.toList ++ ([] ++ []) := by simp
    exact ⟨fun t mem => (lexed t mem).1.exactIn (lexed t mem).2,
      Token.exactIn_token whole List.not_mem_nil (iff_of_true rfl rfl)⟩
  · rw [← String.length_toList]
    rfl
  · have splits := splits_singly source.toList
    rw [tokenize_of_splits splits]
    exact faultsFrom_isAt splits rfl

/-- No two tokens of a source are at one place. -/
theorem tokens_increasing (source : String) :
    (tokenize source).tokens.Pairwise fun t u => t.place < u.place := by
  have splits := splits_singly source.toList
  rw [tokenize_of_splits splits]
  exact (tokensFrom_increasing [] splits).1

end IdlFront
