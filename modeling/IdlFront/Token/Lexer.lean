import IdlFront.Token.Lexeme

/-! # From source text to tokens

Lexemes become tokens once each has its place:

* `Position` — line, column and offset, and how text moves them.
* `Arrival` — a token together with the faults met on the way to it, so that a consumer who takes
  tokens one at a time learns of every fault in time and of none too early.
* `arrivals` — the arrivals of a source text; the last one is the end of input.
* `tokenize` — all tokens and all faults.
* `LexerError`, `tokenizeStrict` — all tokens, or an error at the first fault.
-/

namespace IdlFront

/-! ## Positions -/

/-- A place in a source text: line and column counted from one, the offset from zero. -/
structure Position where
  line : Nat
  column : Nat
  offset : Nat
  deriving DecidableEq, Repr

namespace Position

def start : Position := ⟨1, 1, 0⟩

def next (p : Position) (c : Char) : Position :=
  if c = '\n' then ⟨p.line + 1, 1, p.offset + 1⟩ else ⟨p.line, p.column + 1, p.offset + 1⟩

def after (p : Position) (text : List Char) : Position := text.foldl next p

def token (p : Position) (kind : TokenKind) (text : List Char) : Token :=
  ⟨kind, String.ofList text, p.line, p.column, p.offset⟩

/-- The diagnostics of a lexeme that starts here: its fault, if it has one. -/
def faults (p : Position) (l : Lexeme) : List Diagnostic :=
  l.fault.toList.map fun problem => ⟨p.line, p.column, problem⟩

end Position

/-! ## Arrivals -/

/-- A token, and the faults between the token before it and its own end. -/
structure Arrival where
  faults : List Diagnostic
  token : Token
  deriving DecidableEq, Repr

/-- The arrivals of a sequence of lexemes that starts at `p`, where `pending` faults have been met
    since the last token. -/
def arrivalsFrom (p : Position) (pending : List Diagnostic) : List Lexeme → List Arrival
  | [] => [⟨pending, p.token .eof []⟩]
  | l :: ls =>
    let faults := pending ++ p.faults l
    match l.kind with
    | .token kind => ⟨faults, p.token kind l.text⟩ :: arrivalsFrom (p.after l.text) [] ls
    | _ => arrivalsFrom (p.after l.text) faults ls

def arrivals (source : String) : List Arrival :=
  arrivalsFrom .start [] (Lexeme.split source.toList)

/-! ## Whole texts -/

structure Tokenized where
  tokens : List Token
  faults : List Diagnostic
  deriving DecidableEq, Repr

/-- Split a source text into tokens and record every fault. The end of input is the last token. -/
def tokenize (source : String) : Tokenized :=
  let as := arrivals source
  ⟨as.map Arrival.token, as.flatMap Arrival.faults⟩

/-- The error that ends strict splitting: its text, and the place it is about. -/
structure LexerError where
  text : String
  line : Int
  column : Int
  deriving DecidableEq, Repr

/-- The error with a message about a place. The text of the error names the place too. -/
def LexerError.at (message : String) (p : Position) : LexerError :=
  ⟨s!"Line {p.line}, column {p.column}: {message}", p.line, p.column⟩

/-- The tokens of a text from `p` on, given up at the first fault. -/
def strictTokens (p : Position) : List Char → Except LexerError (List Token)
  | [] => .ok [p.token .eof []]
  | c :: cs =>
    let l := Lexeme.first c cs
    match l.fault with
    | some problem => .error (.at problem.message p)
    | none =>
      match strictTokens (p.after l.text) (cs.drop (l.text.length - 1)) with
      | .error e => .error e
      | .ok tokens =>
        match l.kind with
        | .token kind => .ok (p.token kind l.text :: tokens)
        | _ => .ok tokens
termination_by cs => cs.length

def tokenizeStrict (source : String) : Except LexerError (List Token) :=
  strictTokens .start source.toList

/-- The tokens of a text one by one, each with the number of faults known when it arrives. -/
def tokenizeCounting (source : String) : List (Token × Nat) :=
  go 0 (arrivals source)
where
  go (known : Nat) : List Arrival → List (Token × Nat)
    | [] => []
    | a :: as => (a.token, known + a.faults.length) :: go (known + a.faults.length) as

end IdlFront
