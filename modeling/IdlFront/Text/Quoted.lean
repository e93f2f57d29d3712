import IdlFront.Unicode.Category

/-! # Quoted text

Texts inside messages stand in quotes, with everything that would not print escaped:

* `Quoted.mark` — the quote in use: `'`, unless the text has a `'` and no `"`.
* `Quoted.character` — how one character is written inside such quotes.
* `quoted` — the whole text.
-/

namespace IdlFront.Text

/-! ## Hexadecimal numerals -/

def hexDigit (n : Nat) : Char :=
  if n < 10 then Char.ofNat ('0'.toNat + n) else Char.ofNat ('a'.toNat + (n - 10))

/-- The last `width` hexadecimal digits of a number, leading zeros included. -/
def hexDigits : (width n : Nat) → List Char
  | 0, _ => []
  | width + 1, n => hexDigits width (n / 16) ++ [hexDigit (n % 16)]

/-- The hexadecimal numeral of a number, without leading zeros. -/
def hexNumeral (n : Nat) : List Char :=
  if n < 16 then [hexDigit n] else hexNumeral (n / 16) ++ [hexDigit (n % 16)]
termination_by n

/-! ## Quoting -/

namespace Quoted

/-- The quotation mark around a text: an apostrophe where it needs no escape,
    and the double quote where only that one needs none. -/
def mark (s : List Char) : Char :=
  if '\'' ∈ s ∧ '"' ∉ s then '"' else '\''

/-- One character between quotation marks `q`. What does not print is written by its number,
    in the shortest of the three forms that holds it. -/
def character (q c : Char) : List Char :=
  if c = q ∨ c = '\\' then ['\\', c]
  else if c = '\t' then ['\\', 't']
  else if c = '\n' then ['\\', 'n']
  else if c = '\r' then ['\\', 'r']
  else if Unicode.isPrintable c then [c]
  else if c.toNat < 0x100 then '\\' :: 'x' :: hexDigits 2 c.toNat
  else if c.toNat < 0x10000 then '\\' :: 'u' :: hexDigits 4 c.toNat
  else '\\' :: 'U' :: hexDigits 8 c.toNat

def encode (s : List Char) : List Char :=
  mark s :: s.flatMap (character (mark s)) ++ [mark s]

end Quoted

def quoted (s : String) : String :=
  String.ofList (Quoted.encode s.toList)

end IdlFront.Text
