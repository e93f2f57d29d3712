import IdlFront.Parser.State

/-! # Repetition and nesting

Lists and recursive phrases, without a bound to carry around:

* `Parser.iterate` — rounds of a loop, for as long as the next token allows.
* `Parser.separated` — one or more items with a separator between them.
* `Parser.nested` — a phrase that contains phrases of its own class.

Both loops watch the number of tokens to come, which every round and every level lowers. This makes
them total for any round whatever; a round that consumes nothing is the last one.
-/

namespace IdlFront.Parser

variable {α β : Type}

/-- Run rounds for as long as the next token is of a kind that `continues` accepts. -/
def iterate (continues : TokenKind → Bool) (round : β → Parser β) (b : β) : Parser β := fun s =>
  if continues s.current.kind then
    match round b s.looked with
    | .error d s' => .error d s'
    | .ok b' s' =>
      if s'.remaining < s.remaining then iterate continues round b' s' else .ok b' s'
  else .ok b s.looked
termination_by s => s.remaining

/-- One or more items, separated by tokens of a kind. -/
def separated (separator : TokenKind) (item : Parser α) : Parser (List α) := do
  let first ← item
  iterate (· == separator) (fun items => do
    let _ ← advance
    let next ← item
    return items ++ [next]) [first]

/-- A phrase given by the parser of its inner phrases. An inner phrase starts behind the outer one,
    so fewer tokens are left to it; `stuck` is what would happen where they are not. -/
def nested (stuck : Parser α) (phrase : Parser α → Parser α) : Parser α := fun s =>
  phrase (fun s' => if s'.remaining < s.remaining then nested stuck phrase s' else stuck s') s
termination_by s => s.remaining

end IdlFront.Parser
