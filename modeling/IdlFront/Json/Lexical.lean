import IdlFront.Json
import IdlFront.Unicode.Category

/-! # JSON tokens

* `Json.Token` — punctuation, and scalars with their values.
* `Json.stringBody` — the units of a string literal up to its closing quote.
* `Json.Token.first?` — the token at the front of a text, with the text behind it.
* `Json.Token.split?` — all tokens of a text.

The grammar is that of RFC 8259. `NaN` and the two infinities are accepted besides; control characters
in strings are not.
-/

namespace IdlFront.Json

/-! ## Tokens -/

/-- A token of JSON text. -/
inductive Token where
  | lbrace | rbrace | lbracket | rbracket | comma | colon
  | scalar (value : Json)
  | string (s : String)

/-! ## Strings -/

def hex4? (a b c d : Char) : Option Nat :=
  let isHex (x : Char) : Bool :=
    ('0' ≤ x && x ≤ '9') || ('a' ≤ x && x ≤ 'f') || ('A' ≤ x && x ≤ 'F')
  if isHex a && isHex b && isHex c && isHex d then
    some (((Unicode.hexValue a * 16 + Unicode.hexValue b) * 16 + Unicode.hexValue c) * 16
      + Unicode.hexValue d)
  else none

def escaped? : Char → Option Char
  | '"' => some '"'
  | '\\' => some '\\'
  | '/' => some '/'
  | 'b' => some '\x08'
  | 'f' => some '\x0c'
  | 'n' => some '\n'
  | 'r' => some '\r'
  | 't' => some '\t'
  | _ => none

/-- The units of a string literal, and the text after its closing quote. A unit is a code point or
    one half of a surrogate pair. -/
def stringBody : List Char → Option (List Nat × List Char)
  | [] => none
  | '"' :: rest => some ([], rest)
  | '\\' :: 'u' :: a :: b :: c :: d :: rest => do
    let unit ← hex4? a b c d
    let (units, after) ← stringBody rest
    return (unit :: units, after)
  | '\\' :: e :: rest => do
    let c ← escaped? e
    let (units, after) ← stringBody rest
    return (c.toNat :: units, after)
  | c :: rest =>
    if c.toNat < 0x20 ∨ c = '\\' then none
    else do
      let (units, after) ← stringBody rest
      return (c.toNat :: units, after)

/-- Units as characters: the halves of a pair are one character, and a half on its own is replaced. -/
def joinUnits : List Nat → List Char
  | high :: low :: rest =>
    if 0xd800 ≤ high ∧ high < 0xdc00 ∧ 0xdc00 ≤ low ∧ low < 0xe000 then
      Char.ofNat (0x10000 + (high - 0xd800) * 0x400 + (low - 0xdc00)) :: joinUnits rest
    else unitChar high :: joinUnits (low :: rest)
  | [unit] => [unitChar unit]
  | [] => []
where
  /-- The character of a unit on its own. -/
  unitChar (unit : Nat) : Char :=
    if 0xd800 ≤ unit ∧ unit < 0xe000 then '\ufffd' else Char.ofNat unit

/-! ## Numbers -/

/-- Is the character an ASCII digit? -/
def isDigit (c : Char) : Bool := '0' ≤ c && c ≤ '9'

def digitsValue (digits : List Char) : Nat :=
  digits.foldl (fun n c => n * 10 + (c.toNat - '0'.toNat)) 0

/-- The digits before the point: a zero, or a run of digits that starts with none. -/
def wholeDigits : List Char → List Char
  | '0' :: _ => ['0']
  | cs => cs.takeWhile isDigit

/-- The fraction digits after a point, and the text behind them. No point, no digit. -/
def fractionDigits : List Char → List Char × List Char
  | '.' :: cs =>
    let digits := cs.takeWhile isDigit
    if digits.isEmpty then ([], '.' :: cs) else (digits, cs.drop digits.length)
  | cs => ([], cs)

/-- The exponent after its marker, if there is one with digits, and the text behind it. -/
def exponentValue (cs : List Char) : Option Int × List Char :=
  match cs with
  | e :: rest =>
    if e = 'e' ∨ e = 'E' then
      let (negative, body) := match rest with
        | '-' :: body => (true, body)
        | '+' :: body => (false, body)
        | body => (false, body)
      let digits := body.takeWhile isDigit
      if digits.isEmpty then (none, cs)
      else
        let n : Int := digitsValue digits
        (some (if negative then -n else n), body.drop digits.length)
    else (none, cs)
  | [] => (none, [])

/-- The number at the front of a text behind its sign, and the text behind it. -/
def number? (negative : Bool) (cs : List Char) : Option (Json × List Char) :=
  let whole := wholeDigits cs
  if whole.isEmpty then none
  else
    let (fraction, afterFraction) := fractionDigits (cs.drop whole.length)
    let (exponent, rest) := exponentValue afterFraction
    if fraction.isEmpty && exponent.isNone then
      let n : Int := digitsValue whole
      some (.integer (if negative then -n else n), rest)
    else
      let scale : Int := exponent.getD 0 - fraction.length
      some (.real (.ofDecimal negative (digitsValue (whole ++ fraction)) scale), rest)

/-! ## The token at the front -/

/-- The text behind a word at the front. -/
def afterWord? (word : String) (cs : List Char) : Option (List Char) :=
  if word.toList.isPrefixOf cs then some (cs.drop word.length) else none

def words : List (String × Json) :=
  [("null", .null), ("true", .bool true), ("false", .bool false), ("NaN", .real .nan),
   ("Infinity", .real (.infinite false)), ("-Infinity", .real (.infinite true))]

/-- The word at the front of a text, as a scalar, and the text behind it. -/
def word? (cs : List Char) : Option (Json × List Char) :=
  words.findSome? fun (word, value) => (afterWord? word cs).map fun rest => (value, rest)

/-- The token at the front of a text, and the text behind it. -/
def Token.first? (cs : List Char) : Option (Token × List Char) :=
  match cs with
  | '\x7b' :: rest => some (.lbrace, rest)
  | '\x7d' :: rest => some (.rbrace, rest)
  | '[' :: rest => some (.lbracket, rest)
  | ']' :: rest => some (.rbracket, rest)
  | ',' :: rest => some (.comma, rest)
  | ':' :: rest => some (.colon, rest)
  | '"' :: rest =>
    (stringBody rest).map fun (units, after) => (.string (String.ofList (joinUnits units)), after)
  | _ =>
    match word? cs with
    | some (value, rest) => some (.scalar value, rest)
    | none =>
      let number := match cs with
        | '-' :: rest => number? true rest
        | _ => number? false cs
      number.map fun (value, rest) => (.scalar value, rest)

def isBlank (c : Char) : Bool := c == ' ' || c == '\t' || c == '\n' || c == '\r'

/-- All tokens of a text, `none` if some part of it is no token. Behind a token the text is shorter. -/
def Token.split? : List Char → Option (List Token)
  | [] => some []
  | c :: cs =>
    if isBlank c then split? cs
    else
      match Token.first? (c :: cs) with
      | none => none
      | some (token, rest) =>
        if rest.length ≤ cs.length then (split? rest).map (token :: ·) else none
termination_by cs => cs.length

end IdlFront.Json
