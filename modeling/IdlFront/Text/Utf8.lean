import IdlFront.Text.Quoted

/-! # Bytes of texts

Files hold bytes; texts are UTF-8 in them:

* `Utf8.encodeChar`, `Utf8.encode` — the bytes of characters.
* `Utf8.decode` — the characters of bytes, or the first sequence that cannot be read: its longest
  prefix that a well-formed one could have.
* `withLineFeeds` — a text with all ends of lines written as line feeds.
-/

namespace IdlFront.Text

namespace Utf8

/-! ## Writing -/

/-- A byte of a character after the first, with the last six bits of a number. -/
def tailByte (n : Nat) : UInt8 := (0x80 + n % 0x40).toUInt8

def encodeChar (c : Char) : List UInt8 :=
  let n := c.toNat
  if n < 0x80 then [n.toUInt8]
  else if n < 0x800 then [(0xc0 + n / 0x40).toUInt8, tailByte n]
  else if n < 0x10000 then [(0xe0 + n / 0x1000).toUInt8, tailByte (n / 0x40), tailByte n]
  else [(0xf0 + n / 0x40000).toUInt8, tailByte (n / 0x1000), tailByte (n / 0x40), tailByte n]

def encode (cs : List Char) : List UInt8 := cs.flatMap encodeChar

/-! ## Refusals -/

/-- The ways in which bytes are not a text. -/
inductive Flaw where
  | invalidStart
  | invalidContinuation
  | unexpectedEnd
  deriving DecidableEq, Repr

def Flaw.label : Flaw → String
  | .invalidStart => "invalid start byte"
  | .invalidContinuation => "invalid continuation byte"
  | .unexpectedEnd => "unexpected end of data"

end Utf8

/-- The bytes from `start` to `stop` are no character and begin with `lead`. -/
structure Utf8Error where
  start : Nat
  stop : Nat
  lead : UInt8
  flaw : Utf8.Flaw
  deriving DecidableEq, Repr

/-- The wording of a refusal. One byte is shown, of several only the place. -/
def Utf8Error.message (e : Utf8Error) : String :=
  let what :=
    if e.stop = e.start + 1 then
      s!"byte 0x{String.ofList (hexDigits 2 e.lead.toNat)} in position {e.start}"
    else s!"bytes in position {e.start}-{e.stop - 1}"
  "'utf-8' codec can't decode " ++ what ++ ": " ++ e.flaw.label

namespace Utf8

/-! ## Reading -/

/-- A character of which some bytes have been read: where it starts and with which byte, the number
    that its bytes give so far, how many are still owed, and the range of the next one. -/
structure Pending where
  start : Nat
  lead : UInt8
  value : Nat
  owed : Nat
  low : UInt8
  high : UInt8

/-- What the first byte of a character at a position says. The range of the second byte leaves out
    numbers that fewer bytes could write, surrogates, and numbers beyond the last character. -/
def Pending.ofLead? (position : Nat) (b : UInt8) : Option Pending :=
  if b < 0x80 then some ⟨position, b, b.toNat, 0, 0x80, 0xbf⟩
  else if b < 0xc2 then none
  else if b < 0xe0 then some ⟨position, b, b.toNat - 0xc0, 1, 0x80, 0xbf⟩
  else if b < 0xf0 then
    some ⟨position, b, b.toNat - 0xe0, 2, if b = 0xe0 then 0xa0 else 0x80,
      if b = 0xed then 0x9f else 0xbf⟩
  else if b < 0xf5 then
    some ⟨position, b, b.toNat - 0xf0, 3, if b = 0xf0 then 0x90 else 0x80,
      if b = 0xf4 then 0x8f else 0xbf⟩
  else none

/-- The character with one more byte, of which `owed` are then missing. -/
def Pending.add (p : Pending) (b : UInt8) (owed : Nat) : Pending :=
  { p with value := p.value * 0x40 + (b.toNat - 0x80), owed := owed, low := 0x80, high := 0xbf }

/-- The characters of bytes that start at a position, with a character begun before them or not. -/
def decodeFrom (position : Nat) : Option Pending → List UInt8 → Except Utf8Error (List Char)
  | none, [] => .ok []
  | some p, [] => .error ⟨p.start, position, p.lead, .unexpectedEnd⟩
  | none, b :: bs =>
    match Pending.ofLead? position b with
    | none => .error ⟨position, position + 1, b, .invalidStart⟩
    | some p =>
      if p.owed = 0 then (Char.ofNat p.value :: ·) <$> decodeFrom (position + 1) none bs
      else decodeFrom (position + 1) (some p) bs
  | some p, b :: bs =>
    if p.low ≤ b ∧ b ≤ p.high then
      match p.owed with
      | owed + 2 => decodeFrom (position + 1) (some (p.add b (owed + 1))) bs
      | _ => (Char.ofNat (p.add b 0).value :: ·) <$> decodeFrom (position + 1) none bs
    else .error ⟨p.start, position, p.lead, .invalidContinuation⟩

def decode (bytes : List UInt8) : Except Utf8Error (List Char) := decodeFrom 0 none bytes

end Utf8

/-! ## Lines -/

/-- The text with a line feed for every carriage return, and one for both together. -/
def withLineFeeds : List Char → List Char
  | '\r' :: '\n' :: cs => '\n' :: withLineFeeds cs
  | '\r' :: cs => '\n' :: withLineFeeds cs
  | c :: cs => c :: withLineFeeds cs
  | [] => []

end IdlFront.Text
