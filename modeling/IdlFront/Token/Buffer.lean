import IdlFront.Token.Stream

/-! # Streams that draw on a source

`TokenStream` knows all arrivals of its source from the start. A buffer draws on them one by one, no
further than somebody looks, and finds out about the end of input only when it gets there.

* `TokenBuffer` — the tokens drawn and not yet consumed, and what is known of the end.
* `TokenBuffer.fill`, `TokenBuffer.fillUp` — one more arrival, and as many as a look needs.
* `StreamCall`, `StreamAnswer` — what a stream can be asked, and what it says.
* `TokenBuffer.call`, `TokenStream.call` — the answers of both.
-/

namespace IdlFront

/-- Arrivals of which some have been drawn. Of the drawn tokens some wait to be consumed; `ending` is
    the end of input once it has been reached, and `last` the last token drawn before it. What a drawn
    arrival brought with it is in `faults`. -/
structure TokenBuffer where
  source : List Arrival
  waiting : List Token
  ending : Option Token
  last : Option Token
  consumed : Nat
  taken : Nat
  faults : List Diagnostic
  deriving DecidableEq, Repr

namespace TokenBuffer

/-! ## Building a buffer -/

/-- The buffer of a source from which nothing has been drawn. -/
def ofArrivals (as : List Arrival) : TokenBuffer := ⟨as, [], none, none, 0, 0, []⟩

def ofTokens (ts : List Token) : TokenBuffer := ofArrivals (ts.map fun t => ⟨[], t⟩)

def ofSource (source : String) : TokenBuffer := ofArrivals (arrivals source)

/-! ## Drawing -/

/-- The end of input of a source that runs out: right behind its last token. -/
def missingEnd (last : Option Token) : Token :=
  match last with
  | some t => TokenStream.endAfter t
  | none => TokenStream.endOfNothing

/-- Draw one more arrival, and tell whether it is a token in front of the end of input. Nothing is
    drawn behind that. -/
def fill (b : TokenBuffer) : Bool × TokenBuffer :=
  match b.ending, b.source with
  | some _, _ => (false, b)
  | none, [] => (false, { b with ending := some (missingEnd b.last) })
  | none, a :: as =>
    let drawn := { b with source := as, taken := b.taken + 1, faults := b.faults ++ a.faults }
    if a.token.isEof then (false, { drawn with ending := some a.token })
    else (true, { drawn with waiting := b.waiting ++ [a.token], last := some a.token })

/-- Draw that many tokens, or up to the end of input. -/
def fillUp : Nat → TokenBuffer → TokenBuffer
  | 0, b => b
  | n + 1, b =>
    match b.fill with
    | (true, b') => fillUp n b'
    | (false, b') => b'

/-! ## Questions -/

/-- The token at a distance. -/
def peek (distance : Nat) (b : TokenBuffer) : Token × TokenBuffer :=
  let filled := b.fillUp (distance + 1 - b.waiting.length)
  match filled.waiting[distance]? with
  | some t => (t, filled)
  | none => (filled.ending.getD TokenStream.endOfNothing, filled)

/-- The next token, which is consumed unless it is the end of input. -/
def advance (b : TokenBuffer) : Token × TokenBuffer :=
  let (t, b) := b.peek 0
  if t.isEof then (t, b)
  else (t, { b with waiting := b.waiting.tail, consumed := b.consumed + 1 })

end TokenBuffer

/-! ## Calls -/

/-- What a stream can be asked: the token at a distance, the next token, which is then consumed,
    whether the next token is of one of some kinds, and whether all tokens are consumed. -/
inductive StreamCall where
  | peek (distance : Int)
  | advance
  | check (kinds : List TokenKind)
  | atEnd
  deriving DecidableEq, Repr

inductive StreamAnswer where
  | token (t : Token)
  | truth (b : Bool)
  | refused (e : TokenStream.LookError)
  deriving DecidableEq, Repr

/-- The answers to calls one after the other, and the state behind them. -/
def answers {σ : Type} (call : σ → StreamCall → StreamAnswer × σ) :
    List StreamCall → σ → List StreamAnswer × σ
  | [], s => ([], s)
  | c :: cs, s =>
    let (answer, s) := call s c
    let (more, s) := answers call cs s
    (answer :: more, s)

def TokenBuffer.call (b : TokenBuffer) (c : StreamCall) : StreamAnswer × TokenBuffer :=
  match c with
  | .peek distance =>
    if distance < 0 then (.refused .negativeDistance, b)
    else
      let (t, b) := b.peek distance.toNat
      (.token t, b)
  | .advance =>
    let (t, b) := b.advance
    (.token t, b)
  | .check kinds =>
    let (t, b) := b.peek 0
    (.truth (kinds.contains t.kind), b)
  | .atEnd =>
    let (t, b) := b.peek 0
    (.truth t.isEof, b)

def TokenStream.call (s : TokenStream) (c : StreamCall) : StreamAnswer × TokenStream :=
  match c with
  | .peek distance =>
    match s.look distance with
    | .ok t => (.token t, s.takeUpTo distance.toNat)
    | .error e => (.refused e, s)
  | .advance => (.token s.current, (s.takeUpTo 0).tail)
  | .check kinds => (.truth (s.check kinds), s.takeUpTo 0)
  | .atEnd => (.truth s.atEnd, s.takeUpTo 0)

end IdlFront
