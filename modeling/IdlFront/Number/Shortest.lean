import IdlFront.Number.Binary64

/-! # Shortest decimal text of a double

A double is written with the fewest digits that read back as the same double, and with the nearest
such digits:

* `Shortest.interval` — the quotients that read back as a double.
* `Shortest.decimal` — the digits and the power of ten.
* `DoubleFormat` — where positional notation ends, and the look of exponents.
* `Binary64.render` — the text.
-/

namespace IdlFront

/-! ## Digits -/

namespace Shortest

/-- An interval of quotients with a common denominator, whose ends belong to it if `closed`. -/
structure Interval where
  low : Nat
  high : Nat
  den : Nat
  closed : Bool
  deriving DecidableEq, Repr

def Interval.contains (i : Interval) (n d : Nat) : Bool :=
  if i.closed then i.low * d ≤ n * i.den && n * i.den ≤ i.high * d
  else i.low * d < n * i.den && n * i.den < i.high * d

/-- The quotients nearest to a double: up to half-way to its neighbours. The neighbour below is only
    half as far away where the exponent changes. The ends go to the even significand. -/
def interval (significand : Nat) (exponent : Int) : Interval :=
  let narrow := significand = Nat.pow 2 (Binary64.precision - 1) ∧ Binary64.minExponent < exponent
  let below := if narrow then 4 * significand - 1 else 4 * significand - 2
  let (low, den) := Binary64.magnitude below (exponent - 2)
  let (high, _) := Binary64.magnitude (4 * significand + 2) (exponent - 2)
  ⟨low, high, den, significand % 2 == 0⟩

structure Decimal where
  digits : Nat
  exponent : Int
  deriving DecidableEq, Repr

def Decimal.ratio (d : Decimal) : Nat × Nat :=
  if d.exponent < 0 then (d.digits, Nat.pow 10 d.exponent.natAbs)
  else (d.digits * Nat.pow 10 d.exponent.natAbs, 1)

/-- The decimal on the grid of a power of ten that reads back as the double: of the two neighbours of
    the value on the grid the nearer one that lies in the interval, a tie going to the even one. -/
def onGrid (value : Nat × Nat) (within : Interval) (exponent : Int) : Option Decimal :=
  let (n, d) := value
  let scale := Nat.pow 10 exponent.natAbs
  let (n, d) := if exponent < 0 then (n * scale, d) else (n, d * scale)
  let low : Decimal := ⟨n / d, exponent⟩
  let high : Decimal := ⟨n / d + 1, exponent⟩
  let fits (x : Decimal) : Bool := within.contains x.ratio.1 x.ratio.2
  let twice := 2 * (n % d)
  let preferLow := twice < d || (twice == d && (n / d) % 2 == 0)
  if preferLow && fits low then some low
  else if fits high then some high
  else if fits low then some low
  else none

/-- The first grid with a hit, from the power of ten `exponent` down. -/
def search (value : Nat × Nat) (within : Interval) (exponent : Int) : (grids : Nat) → Decimal
  | 0 => ⟨value.1 / value.2, 0⟩
  | grids + 1 =>
    match onGrid value within exponent with
    | some x => x
    | none => search value within (exponent - 1) grids

/-- The number of decimal digits before the point of a quotient, less one; for a quotient below one,
    a bound from above. -/
def leadingExponent (value : Nat × Nat) : Int :=
  let (n, d) := value
  ((Nat.toDigits 10 n).length : Int) - (Nat.toDigits 10 d).length + 1

/-- The shortest decimal that reads back as a positive double. A double of seventeen digits always
    does, and the search starts at most two grids above the first digit. -/
def decimal (significand : Nat) (exponent : Int) : Decimal :=
  let value := Binary64.magnitude significand exponent
  search value (interval significand exponent) (leadingExponent value) 20

end Shortest

/-! ## Text -/

/-- How doubles are written. A decimal point position is the number of digits before the point; those
    above `positionalMax` or not above `positionalMin` get an exponent of at least `exponentDigits`
    digits. -/
structure DoubleFormat where
  positionalMin : Int
  positionalMax : Int
  exponentDigits : Nat
  nan : String
  infinity : String

/-- The notation of data listings: positional from `0.0001` to below `10 ^ 16`, always with a point
    there, and exponents with a sign and two digits. -/
def DoubleFormat.listing : DoubleFormat := ⟨-4, 16, 2, "nan", "inf"⟩

def padZeros (width : Nat) (s : List Char) : List Char :=
  List.replicate (width - s.length) '0' ++ s

def DoubleFormat.place (f : DoubleFormat) (digits : List Char) (point : Int) : List Char :=
  if f.positionalMin < point ∧ point ≤ f.positionalMax then
    if point ≤ 0 then '0' :: '.' :: List.replicate point.natAbs '0' ++ digits
    else
      let whole := point.toNat
      if digits.length ≤ whole then
        digits ++ List.replicate (whole - digits.length) '0' ++ ['.', '0']
      else digits.take whole ++ '.' :: digits.drop whole
  else
    let fraction := if digits.length ≤ 1 then [] else '.' :: digits.drop 1
    let exponent := point - 1
    let sign := if exponent < 0 then '-' else '+'
    digits.take 1 ++ fraction ++ 'e' :: sign
      :: padZeros f.exponentDigits (Nat.toDigits 10 exponent.natAbs)

/-- The digits of a positive decimal without trailing zeros, and the position of its point. -/
def Shortest.Decimal.spread (x : Shortest.Decimal) : List Char × Int :=
  let digits := Nat.toDigits 10 x.digits
  let point := (digits.length : Int) + x.exponent
  ((digits.reverse.dropWhile (· == '0')).reverse, point)

def Binary64.render (f : DoubleFormat) : Binary64 → String
  | .nan => f.nan
  | .infinite negative => (if negative then "-" else "") ++ f.infinity
  | .finite negative significand exponent =>
    let sign := if negative then "-" else ""
    if significand = 0 then sign ++ "0.0"
    else
      let (digits, point) := (Shortest.decimal significand exponent).spread
      sign ++ String.ofList (f.place digits point)

end IdlFront
