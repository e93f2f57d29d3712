import IdlFront.Json
import IdlFront.Text.Quoted

/-! # Compact JSON text

* `Json.escape` — a character inside a string literal. Characters outside ASCII stand as they are.
* `Json.print` — the text of a value, without blanks.
-/

namespace IdlFront.Json

/-- A character inside a string literal: escaped if the grammar does not allow it raw. -/
def escape (c : Char) : List Char :=
  match c with
  | '"' => ['\\', '"']
  | '\\' => ['\\', '\\']
  | '\n' => ['\\', 'n']
  | '\r' => ['\\', 'r']
  | '\t' => ['\\', 't']
  | '\x08' => ['\\', 'b']
  | '\x0c' => ['\\', 'f']
  | c => if c.toNat < 0x20 then '\\' :: 'u' :: Text.hexDigits 4 c.toNat else [c]

def printString (s : String) : List Char :=
  '"' :: s.toList.flatMap escape ++ ['"']

/-- The digits of an integer, with its sign. -/
def printInteger (n : Int) : List Char :=
  if n < 0 then '-' :: Nat.toDigits 10 n.natAbs else Nat.toDigits 10 n.natAbs

/-- How a double is written: like in listings, except for the words beyond the numbers. -/
def doubleFormat : DoubleFormat := { DoubleFormat.listing with nan := "NaN", infinity := "Infinity" }

mutual

def printChars : Json → List Char
  | .null => ['n', 'u', 'l', 'l']
  | .bool true => ['t', 'r', 'u', 'e']
  | .bool false => ['f', 'a', 'l', 's', 'e']
  | .integer n => printInteger n
  | .real x => (x.render doubleFormat).toList
  | .string s => printString s
  | .array items => '[' :: printItems items ++ [']']
  | .object fields => '\x7b' :: printFields fields ++ ['\x7d']

/-- The items of an array with commas between them. -/
def printItems : List Json → List Char
  | [] => []
  | [x] => printChars x
  | x :: xs => printChars x ++ ',' :: printItems xs

/-- The fields of an object with commas between them. -/
def printFields : List (String × Json) → List Char
  | [] => []
  | [(k, v)] => printString k ++ ':' :: printChars v
  | (k, v) :: fields => printString k ++ ':' :: printChars v ++ ',' :: printFields fields

end

/-- The text of a value, without blanks. -/
def print (j : Json) : String := String.ofList (printChars j)

end IdlFront.Json
