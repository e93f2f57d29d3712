import IdlFront.Parser.TypeRef

/-! # Attributes

* `Parser.literal?` — the literal that a token is, if it is one.
* `Parser.attributeUse` — a name, with arguments in parentheses where present.
* `Parser.attributeLists` — any number of bracketed lists of attributes.
-/

namespace IdlFront

/-- The kind of literal that a token of a kind is. -/
def TokenKind.literalKind? : TokenKind → Option LiteralKind
  | .uuid => some .uuid
  | .integer => some .integer
  | .hex => some .hex
  | .float => some .float
  | .string => some .string
  | _ => none

def Token.literal? (t : Token) : Option Literal :=
  t.kind.literalKind?.map fun kind => ⟨kind, t.value, Parser.tokenSpan t⟩

namespace Parser

/-- An argument of an attribute: a literal or a dotted name. -/
def attributeArgument : Parser Literal := do
  let t ← current
  match t.literal? with
  | some literal =>
    discard advance
    return literal
  | none =>
    if t.kind = .identifier then
      let name ← dottedName
      return ⟨.name, name, ← spanFrom t⟩
    else
      refuse t (.expectedArgument t)

/-- The arguments of an attribute, in parentheses. None if no parenthesis opens. -/
def attributeArguments : Parser (List Literal) := do
  if ← accept (.punct .lparen) then
    if ← accept (.punct .rparen) then
      return []
    else
      let arguments ← separated (.punct .comma) attributeArgument
      discard (expect (.punct .rparen))
      return arguments
  else
    return []

def attributeUse : Parser Attribute := do
  let start ← current
  let name ← dottedName
  let arguments ← attributeArguments
  return ⟨name, arguments, ← spanFrom start⟩

/-- The attributes in front of a declaration or member: any number of lists in brackets. -/
def attributeLists : Parser (List Attribute) :=
  iterate (· == .punct .lbracket) (fun attributes => do
    let _ ← advance
    let more ← separated (.punct .comma) attributeUse
    discard (expect (.punct .rbracket))
    return attributes ++ more) []

end Parser

end IdlFront
