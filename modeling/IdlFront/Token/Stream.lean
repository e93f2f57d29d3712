import IdlFront.Token.Lexer

/-! # Token streams

A forward-only view of tokens with lookahead. A stream hands on the faults that its source met, and
takes from the source no more than a question needs.

* `TokenStream` — the tokens not yet consumed, each still with the faults nobody has heard of.
* `TokenStream.look` — a token some places ahead; looking takes all tokens up to that place.
* `TokenStream.current`, `advance`, `check`, `atEnd` — what a parser asks, all at distance zero.

The end of input is not consumed: it answers every question past the last token.
-/

namespace IdlFront

/-- A stream of tokens. `upcoming` are the tokens before the end of input that have not been
    consumed, `last` is the end of input itself, and `supply` counts the tokens that the source holds
    up to and with the end of input, which it may lack. Once an arrival has been taken its faults have
    been handed on, so they are erased here; `taken` is the number of arrivals taken. -/
structure TokenStream where
  upcoming : List Arrival
  last : Arrival
  supply : Nat
  consumed : Nat
  taken : Nat
  deriving DecidableEq, Repr

namespace TokenStream

/-! ## Building a stream -/

/-- The end of input right after a token. -/
def endAfter (t : Token) : Token :=
  ⟨.eof, "", t.line, t.column + t.value.length, t.stop⟩

def endOfNothing : Token := ⟨.eof, "", 1, 1, 0⟩

/-- The end of input placed after the last token. -/
def missingEnd (as : List Arrival) : Token :=
  match as.getLast? with
  | some a => endAfter a.token
  | none => endOfNothing

/-- The stream of a list of arrivals. What follows the first end of input is never looked at; if
    there is none, one is placed after the last token. -/
def ofArrivals (as : List Arrival) : TokenStream :=
  let upcoming := as.takeWhile fun a => !a.token.isEof
  match as.drop upcoming.length with
  | last :: _ => ⟨upcoming, last, upcoming.length + 1, 0, 0⟩
  | [] => ⟨upcoming, ⟨[], missingEnd upcoming⟩, upcoming.length, 0, 0⟩

/-- The stream of a list of tokens, which brings no faults. -/
def ofTokens (ts : List Token) : TokenStream :=
  ofArrivals (ts.map fun t => ⟨[], t⟩)

def ofSource (source : String) : TokenStream :=
  ofArrivals (arrivals source)

/-! ## Looking ahead -/

/-- The token at a distance, the end of input past the last one. -/
def tokenAt (s : TokenStream) (distance : Nat) : Token :=
  ((s.upcoming[distance]?).getD s.last).token

/-- Does a look at a distance reach the end of input? -/
def reachesEnd (s : TokenStream) (distance : Nat) : Bool :=
  (s.upcoming.drop distance).isEmpty

/-- The faults of the first arrivals, which a look at `distance` hands on. -/
def faultsUpTo (s : TokenStream) (distance : Nat) : List Diagnostic :=
  (s.upcoming.take (distance + 1)).flatMap Arrival.faults
    ++ (if s.reachesEnd distance then s.last.faults else [])

def hushed (a : Arrival) : Arrival := { a with faults := [] }

/-- The stream after a look at `distance`. -/
def takeUpTo (s : TokenStream) (distance : Nat) : TokenStream :=
  { s with
    upcoming := (s.upcoming.take (distance + 1)).map hushed ++ s.upcoming.drop (distance + 1)
    last := if s.reachesEnd distance then hushed s.last else s.last
    taken := max s.taken (min s.supply (s.consumed + distance + 1)) }

/-- A lookahead distance below zero. -/
inductive LookError where
  | negativeDistance
  deriving DecidableEq, Repr

def LookError.message : LookError → String
  | .negativeDistance => "Lookahead distance must be non-negative"

def look (s : TokenStream) (distance : Int) : Except LookError Token :=
  if distance < 0 then .error .negativeDistance else .ok (s.tokenAt distance.toNat)

/-! ## The token at the front -/

def current (s : TokenStream) : Token :=
  match s.upcoming with
  | a :: _ => a.token
  | [] => s.last.token

def check (s : TokenStream) (kinds : List TokenKind) : Bool :=
  kinds.contains s.current.kind

def atEnd (s : TokenStream) : Bool := s.upcoming.isEmpty

def tail (s : TokenStream) : TokenStream :=
  match s.upcoming with
  | _ :: as => { s with upcoming := as, consumed := s.consumed + 1 }
  | [] => s

def remaining (s : TokenStream) : Nat := s.upcoming.length

end TokenStream

end IdlFront
