import IdlFront.Token.Stream
import IdlFront.Tree

/-! # Parsers

A parser reads tokens off a stream, keeps a log of what it reports, and may give up with a
diagnostic that its caller has to deal with.

* `ParserState` — the stream, where the last consumed token ended, and the log.
* `Parser` — a computation on such states that gives a value or a diagnostic.
* `Parser.current`, `check`, `advance`, `expect`, `expectOrReport` — the primitive questions.
* `Parser.spanFrom` — the span of what has been read since a token.

Every look at the next token first enters into the log what the source met on the way to it, so that
faults of the source and of the grammar are logged in the order of the text.
-/

namespace IdlFront

/-! ## States -/

/-- What a parser knows: the tokens to come, the offset after the last consumed token, and the
    diagnostics so far. -/
structure ParserState where
  stream : TokenStream
  prevStop : Int
  log : DiagnosticLog
  deriving DecidableEq

namespace ParserState

def initial (stream : TokenStream) : ParserState := ⟨stream, 0, .empty⟩

def remaining (s : ParserState) : Nat := s.stream.remaining

def current (s : ParserState) : Token := s.stream.current

/-- The state after a look at the next token. -/
def looked (s : ParserState) : ParserState :=
  { s with
    stream := s.stream.takeUpTo 0
    log := s.log.recordAll (s.stream.faultsUpTo 0) }

def advanced (s : ParserState) : ParserState :=
  { s.looked with
    stream := s.looked.stream.tail
    prevStop := if s.stream.atEnd then s.prevStop else s.current.stop }

/-- The state after that many tokens. -/
def skipped : Nat → ParserState → ParserState
  | 0, s => s
  | n + 1, s => skipped n s.advanced

def reported (s : ParserState) (d : Diagnostic) : ParserState :=
  { s with log := s.log.record d }

end ParserState

/-! ## Parsers -/

abbrev Parser (α : Type) := EStateM Diagnostic ParserState α

namespace Parser

def current : Parser Token := fun s => .ok s.current s.looked

def check (kinds : List TokenKind) : Parser Bool := do
  return kinds.contains (← current).kind

/-- Consume the next token. The end of input stays where it is. -/
def advance : Parser Token := fun s => .ok s.current s.advanced

def report (t : Token) (problem : Problem) : Parser Unit := fun s =>
  .ok () (s.reported (t.report problem))

/-- Give up because of a problem at a token. -/
def refuse {α : Type} (t : Token) (problem : Problem) : Parser α := throw (t.report problem)

/-- Give up because the next token is of none of these kinds. -/
def unexpected {α : Type} (kinds : List TokenKind) : Parser α := do
  let t ← current
  refuse t (.expected kinds t)

/-- Consume the next token, which has to be of this kind. -/
def expect (kind : TokenKind) : Parser Token := do
  let t ← current
  if t.kind = kind then advance else unexpected [kind]

/-- Consume the next token if it is of this kind; else report that it is missing and go on as if it
    were there. -/
def expectOrReport (kind : TokenKind) : Parser Unit := do
  let t ← current
  if t.kind = kind then discard advance else report t (.expected [kind] t)

/-- Consume the next token if it is of this kind, and tell whether it was. -/
def accept (kind : TokenKind) : Parser Bool := do
  if ← check [kind] then
    discard advance
    return true
  else
    return false

/-- The span from a token to the last consumed one. -/
def spanFrom (start : Token) : Parser Span := fun s =>
  .ok ⟨start.line, start.column, start.offset, max start.offset s.prevStop⟩ s

def tokenSpan (t : Token) : Span := ⟨t.line, t.column, t.offset, t.stop⟩

end Parser

end IdlFront
