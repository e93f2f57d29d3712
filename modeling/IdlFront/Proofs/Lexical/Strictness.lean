import IdlFront.Proofs.Lexical.Places

/-! # Giving up at the first fault

Splitting a text into tokens until something is wrong is splitting it as a whole and reading the result
from the front, wherever in a token or in trivia the fault is found.

* `Diagnostic.lexerError` — the error that says what a diagnostic says.
* `Tokenized.strict` — the tokens where nothing is wrong, and the error of the first fault otherwise.
* `strictTokens_eq` — what is given up at is the first fault of the lexemes still to come.
* `tokenizeStrict_agrees` — both ways of splitting agree, and the first fault is the foremost one.
-/

namespace IdlFront

open Lexical

/-- The error about the place of a diagnostic, with the diagnostic as one line for its text. -/
def Diagnostic.lexerError (d : Diagnostic) : LexerError := ⟨d.render, d.line, d.column⟩

/-- The tokens where nothing is wrong, and the error of the first fault otherwise. -/
def Tokenized.strict (t : Tokenized) : Except LexerError (List Token) :=
  match t.faults with
  | [] => .ok t.tokens
  | first :: _ => .error first.lexerError

/-- The lexemes of a text as a whole, behind another text. -/
def tokenizedFrom (before : List Char) (ls : List Lexeme) : Tokenized :=
  ⟨tokensFrom before ls, faultsFrom before ls⟩

/-- An error says what the diagnostic of the same problem at the same place does. -/
theorem lexerError_at (p : Position) (problem : Problem) :
    LexerError.at problem.message p = Diagnostic.lexerError ⟨p.line, p.column, problem⟩ := by
  have line : toString (p.line : Int) = toString p.line := rfl
  have column : toString (p.column : Int) = toString p.column := rfl
  have message : toString problem.message = problem.message := rfl
  simp only [LexerError.at, Diagnostic.lexerError, Diagnostic.render, Diagnostic.message, line, column,
    message]

/-- A lexeme with a fault is where a text is given up. -/
theorem strict_faulty {before : List Char} {l : Lexeme} {ls : List Lexeme} {problem : Problem}
    (fault : l.fault = some problem) : (tokenizedFrom before (l :: ls)).strict =
      .error (.at problem.message (placeOf before)) := by
  rw [lexerError_at]
  simp [tokenizedFrom, Tokenized.strict, faultsFrom, Position.faults, fault]

/-- Behind a lexeme without a fault the text goes on. -/
theorem strict_sound {before : List Char} {l : Lexeme} {ls : List Lexeme} (sound : l.fault = none) :
    (tokenizedFrom before (l :: ls)).strict =
      match (tokenizedFrom (before ++ l.text) ls).strict with
      | .error e => .error e
      | .ok tokens =>
        match l.kind with
        | .token kind => .ok ((placeOf before).token kind l.text :: tokens)
        | _ => .ok tokens := by
  have faults : (placeOf before).faults l = [] := by simp [Position.faults, sound]
  simp only [tokenizedFrom, Tokenized.strict, faultsFrom, tokensFrom, faults, List.nil_append]
  cases faultsFrom (before ++ l.text) ls with
  | nil => cases l.kind <;> rfl
  | cons fault faults => rfl

theorem strictTokens_eq (before cs : List Char) :
    strictTokens (placeOf before) cs = (tokenizedFrom before (Lexeme.split cs)).strict := by
  induction cs using Lexeme.split.induct generalizing before with
  | case1 =>
    rw [strictTokens, Lexeme.split]
    rfl
  | case2 c cs lexeme ih =>
    rw [strictTokens, Lexeme.split]
    cases fault : lexeme.fault with
    | some problem => rw [strict_faulty fault]
    | none =>
      have rest : (tokenizedFrom before
          (lexeme :: Lexeme.split (cs.drop (lexeme.text.length - 1)))).strict = _ :=
        strict_sound fault
      rw [← ih, ← after_placeOf] at rest
      exact rest.symm

theorem tokenize_eq (source : String) :
    tokenize source = tokenizedFrom [] (Lexeme.split source.toList) := by
  obtain ⟨tokens, faults⟩ := arrivalsFrom_tokens [] [] (Lexeme.split source.toList)
  exact congrArg₂ Tokenized.mk tokens faults

theorem tokenizeStrict_eq (source : String) : tokenizeStrict source = (tokenize source).strict :=
  calc tokenizeStrict source
    _ = strictTokens (placeOf []) source.toList := rfl
    _ = (tokenizedFrom [] (Lexeme.split source.toList)).strict := strictTokens_eq [] source.toList
    _ = (tokenize source).strict := by rw [tokenize_eq]

/-- Splitting a text strictly gives the tokens that are found if no fault is recorded. Otherwise it fails
    with an error about the place of the first fault that is, whose text is that fault as one line: the
    place, then the wording. The recorded faults are each behind the one before it. -/
theorem tokenizeStrict_agrees (source : String) :
    ((tokenize source).faults = [] → tokenizeStrict source = .ok (tokenize source).tokens) ∧
    (∀ first rest, (tokenize source).faults = first :: rest →
      ∃ e, tokenizeStrict source = .error e ∧ e.line = first.line ∧ e.column = first.column ∧
        e.text = first.render ∧ first.render =
          "Line " ++ toString first.line ++ ", column " ++ toString first.column ++ ": " ++ first.message) ∧
    (tokenize source).faults.Pairwise fun d e => d.place < e.place := by
  rw [tokenizeStrict_eq]
  refine ⟨fun none => ?_, fun first rest faulty => ?_, ?_⟩
  · rw [Tokenized.strict, none]
  · refine ⟨first.lexerError, ?_, rfl, rfl, rfl, ?_⟩
    · rw [Tokenized.strict, faulty]
    · rfl
  · have splits := splits_singly source.toList
    rw [tokenize_of_splits splits]
    exact (faultsFrom_increasing [] splits).1

theorem tokenizeStrict_agrees_rejected :
    ∃ e, tokenizeStrict "?" = .error e ∧ e.line = 1 ∧ e.column = 1 ∧
      e.text = "Line 1, column 1: Unexpected character '?'" := by
  have first : Lexeme.first '?' [] = ⟨.rejected, ['?'], some (.unexpectedCharacter '?')⟩ := rfl
  have split : Lexeme.split ['?'] = [⟨.rejected, ['?'], some (.unexpectedCharacter '?')⟩] := by
    simp [Lexeme.split, first]
  have faulty : (tokenize "?").faults = [⟨1, 1, .unexpectedCharacter '?'⟩] := by
    rw [tokenize_eq, show "?".toList = ['?'] from rfl, split]
    rfl
  obtain ⟨e, failed, line, column, text, -⟩ := (tokenizeStrict_agrees "?").2.1 _ _ faulty
  exact ⟨e, failed, line, column, text.trans (by decide)⟩

end IdlFront
