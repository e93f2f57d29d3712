import IdlFront.Token

/-! # Diagnostics

What is reported about a source text, and where:

* `Problem` — the ways in which a text can be wrong, with `Problem.message` for the wording.
* `Diagnostic` — a problem at a line and column.
* `DiagnosticLog` — an append-only record, seen as a list through `DiagnosticLog.toList`.
-/

namespace IdlFront

/-! ## Problems -/

/-- What can be wrong with a source text. The first five are met while splitting it into tokens,
    the others while parsing; `remark` carries the words of another reporter. -/
inductive Problem where
  | unexpectedCharacter (c : Char)
  | unterminatedComment
  | unterminatedString
  | missingHexDigits (text : String)
  | missingExponentDigits (text : String)
  | expected (kinds : List TokenKind) (found : Token)
  | expectedArgument (found : Token)
  | expectedAccessor (found : Token)
  | noAccessors
  | duplicateAccessor (name : String)
  | remark (text : String)
  deriving DecidableEq, Repr

def Problem.message : Problem → String
  | .unexpectedCharacter c => "Unexpected character " ++ Text.quoted (String.singleton c)
  | .unterminatedComment => "Unterminated block comment"
  | .unterminatedString => "Unterminated string literal"
  | .missingHexDigits text =>
    "Malformed hexadecimal literal " ++ Text.quoted text ++ ": expected hex digits"
  | .missingExponentDigits text =>
    "Malformed floating-point literal " ++ Text.quoted text ++ ": expected exponent digits"
  | .expected kinds found =>
    "Expected " ++ TokenKind.describeAny kinds ++ ", found " ++ found.describe
  | .expectedArgument found => "Expected attribute argument, found " ++ found.describe
  | .expectedAccessor found => "Expected 'get' or 'set', found " ++ found.describe
  | .noAccessors => "Expected 'get' or 'set', found '\x7d'"
  | .duplicateAccessor name => "Duplicate accessor " ++ Text.quoted name
  | .remark text => text

/-! ## Diagnostics -/

/-- How grave a diagnostic is. Every problem of this library is an error. -/
inductive Severity where
  | error
  deriving DecidableEq, Repr

def Severity.label : Severity → String
  | .error => "error"

/-- A problem and the place it is reported at, line and column counted from one. -/
structure Diagnostic where
  line : Int
  column : Int
  problem : Problem
  deriving DecidableEq, Repr

namespace Diagnostic

def message (d : Diagnostic) : String := d.problem.message

def severity (_ : Diagnostic) : Severity := .error

/-- The diagnostic on one line: the place, then the wording. -/
def render (d : Diagnostic) : String :=
  s!"Line {d.line}, column {d.column}: " ++ d.message

end Diagnostic

/-- The diagnostic that reports a problem at a token. -/
def Token.report (t : Token) (problem : Problem) : Diagnostic :=
  ⟨t.line, t.column, problem⟩

/-! ## Logs -/

/-- The diagnostics reported so far. -/
structure DiagnosticLog where
  entries : Array Diagnostic
  deriving DecidableEq

namespace DiagnosticLog

/-- The log before any report. -/
def empty : DiagnosticLog := ⟨#[]⟩

/-- The log after one more report. -/
def record (log : DiagnosticLog) (d : Diagnostic) : DiagnosticLog :=
  ⟨log.entries.push d⟩

/-- The log after several reports. -/
def recordAll (log : DiagnosticLog) (ds : List Diagnostic) : DiagnosticLog :=
  ds.foldl record log

def toList (log : DiagnosticLog) : List Diagnostic := log.entries.toList

def count (log : DiagnosticLog) : Nat := log.entries.size

/-- Has anything been reported? -/
def hasErrors (log : DiagnosticLog) : Bool := !log.entries.isEmpty

@[simp] theorem toList_empty : empty.toList = [] := rfl

@[simp] theorem toList_record (log : DiagnosticLog) (d : Diagnostic) :
    (log.record d).toList = log.toList ++ [d] := by
  simp [record, toList]

@[simp] theorem toList_recordAll (log : DiagnosticLog) (ds : List Diagnostic) :
    (log.recordAll ds).toList = log.toList ++ ds := by
  unfold recordAll
  induction ds generalizing log with
  | nil => simp
  | cons d ds ih => simp [ih]

@[simp] theorem count_eq_length (log : DiagnosticLog) : log.count = log.toList.length := rfl

end DiagnosticLog

end IdlFront
