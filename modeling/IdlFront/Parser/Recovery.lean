import IdlFront.Parser.State

/-! # Recovery

After a problem that an item of a list cannot get over, its list skips ahead to a place where items
can start again.

* `syncLength` — how many tokens are skipped: up to and with a semicolon, or up to a token at which
  the list can go on. A block in braces that is met on the way is skipped whole.
* `Parser.recovering` — an item of a list whose failure is reported and skipped.
* `Parser.untilClosed` — when the loop of a list in braces goes on.
-/

namespace IdlFront

/-! ## Skipping -/

/-- The brace depth after a token, when skipping. -/
def depthAfter (depth : Nat) : TokenKind → Nat
  | .punct .lbrace => depth + 1
  | .punct .rbrace => depth - 1
  | _ => depth

/-- The number of tokens to skip from a place at a brace depth: at depth zero a semicolon is the last
    one skipped and a token of a `resume` kind stays. -/
def syncLength (resume : List TokenKind) (depth : Nat) : List Token → Nat
  | [] => 0
  | t :: ts =>
    if depth = 0 ∧ t.kind = .punct .semicolon then 1
    else if depth = 0 ∧ t.kind ∈ resume then 0
    else syncLength resume (depthAfter depth t.kind) ts + 1

namespace Parser

variable {α : Type}

/-- Skip to where a list can go on. -/
def synchronize (resume : List TokenKind) : Parser Unit := fun s =>
  .ok () (s.skipped (syncLength resume 0 (s.stream.upcoming.map Arrival.token)))

/-- Drop the next token if nothing has been consumed since `consumed` tokens were. -/
def progressFrom (consumed : Nat) : Parser Unit := fun s =>
  .ok () (if s.stream.consumed = consumed ∧ ¬ s.stream.atEnd then s.advanced else s)

/-- An item of a list, or nothing after its failure has been reported and skipped. If `eager`, a
    failure costs at least one token. -/
def recovering (resume : List TokenKind) (eager : Bool) (item : Parser α) : Parser (Option α) :=
  fun s =>
    match item s with
    | .ok a s' => .ok (some a) s'
    | .error d s' =>
      (do synchronize resume
          if eager then progressFrom s.stream.consumed
          return none) (s'.reported d)

def untilClosed (kind : TokenKind) : Bool := !(kind == .punct .rbrace || kind == .eof)

end Parser

/-! ## Where lists go on -/

def declarationKeywords : List TokenKind :=
  [.keyword .namespace_, .keyword .enum, .keyword .struct, .keyword .delegate, .keyword .interface]

def topLevelResume : List TokenKind :=
  [.keyword .namespace_, .keyword .import_, .punct .lbracket]

def bodyResume : List TokenKind := declarationKeywords ++ [.punct .lbracket, .punct .rbrace]

def enumResume : List TokenKind := [.punct .comma, .punct .rbrace]

def blockResume : List TokenKind := [.punct .rbrace]

def interfaceResume : List TokenKind := [.punct .rbrace, .punct .lbracket]

end IdlFront
