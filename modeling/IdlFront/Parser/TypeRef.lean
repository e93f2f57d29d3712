import IdlFront.Parser.Repetition

/-! # Names, types and parameters

* `Parser.segments`, `Parser.dottedName` — names of one or more identifiers.
* `Parser.typeRef` — `void`, or a name with type arguments and an array mark where present.
* `Parser.parameters` — the parameters between a pair of parentheses.
-/

namespace IdlFront.Parser

/-! ## Names -/

def segments : Parser (List String) := do
  let names ← separated (.punct .dot) (expect .identifier)
  return names.map Token.value

/-- A name as one text, its segments joined by dots. -/
def dottedName : Parser String := do
  return ".".intercalate (← segments)

/-! ## Types -/

/-- Type arguments in angle brackets, given the parser of a type. None if no bracket opens. -/
def typeArguments (type : Parser TypeRef) : Parser (List TypeRef) := do
  if ← accept (.punct .langle) then
    let arguments ← separated (.punct .comma) type
    discard (expect (.punct .rangle))
    return arguments
  else
    return []

/-- Is there an array mark? -/
def arrayMark : Parser Bool := do
  if ← accept (.punct .lbracket) then
    discard (expect (.punct .rbracket))
    return true
  else
    return false

/-- A type, given the parser of the types it is applied to. -/
def typePhrase (inner : Parser TypeRef) : Parser TypeRef := do
  let start ← current
  if ← accept (.keyword .void) then
    return ⟨TypeRef.voidName, [], false, ← spanFrom start⟩
  else
    let name ← dottedName
    let arguments ← typeArguments inner
    let isArray ← arrayMark
    return ⟨name, arguments, isArray, ← spanFrom start⟩

def typeRef : Parser TypeRef := nested (unexpected [.identifier]) typePhrase

/-! ## Parameters -/

def modifier : Parser (Option Modifier) := do
  if ← accept (.keyword .out) then
    return some .out
  else if ← accept (.keyword .ref) then
    return some .ref
  else if ← accept (.keyword .const) then
    discard (expect (.keyword .ref))
    return some .constRef
  else
    return none

def parameter : Parser Parameter := do
  let start ← current
  let modifier ← modifier
  let type ← typeRef
  let name ← expect .identifier
  return ⟨name.value, type, modifier, ← spanFrom start⟩

/-- The parameters before a closing parenthesis, which is not consumed. -/
def parameters : Parser (List Parameter) := do
  if ← check [.punct .rparen] then
    return []
  else
    separated (.punct .comma) parameter

end IdlFront.Parser
