import IdlFront.Unicode.Ranges

/-! # General categories

What the rest of the library asks of the Unicode Character Database:

* `CodeRange` — a range of code points, possibly every second one, and membership in it.
* `Category` — the general categories of visible characters, each with its ranges.
* `Category.of?` — the category of a code point, `none` for controls, formats, separators,
  private use, surrogates and unassigned code points.
* `isPrintable` — the visible characters and the blank.

The ASCII block is decided by comparisons and the tables answer above it, so that facts about
ASCII characters follow by evaluation.
-/

namespace IdlFront.Unicode

/-! ## Ranges -/

/-- The code points `first`, `first + stride`, …, up to `last`. -/
structure CodeRange where
  first : Nat
  last : Nat
  stride : Nat
  deriving DecidableEq, Repr

def CodeRange.contains (r : CodeRange) (codePoint : Nat) : Bool :=
  r.first ≤ codePoint && codePoint ≤ r.last && (codePoint - r.first) % r.stride == 0

def hexValue (c : Char) : Nat :=
  if '0' ≤ c ∧ c ≤ '9' then c.toNat - '0'.toNat
  else if 'a' ≤ c ∧ c ≤ 'f' then c.toNat - 'a'.toNat + 10
  else if 'A' ≤ c ∧ c ≤ 'F' then c.toNat - 'A'.toNat + 10
  else 0

/-- A range being read: its bounds so far, and whether the last number is still the first bound. -/
structure RangeDraft where
  first : Nat
  last : Nat
  stride : Nat
  atFirst : Bool

def RangeDraft.empty : RangeDraft := ⟨0, 0, 1, true⟩

/-- A draft is complete at the end of its word. -/
def RangeDraft.finish (d : RangeDraft) : CodeRange := ⟨d.first, d.last, d.stride⟩

/-- Read the ranges of a line, one per word. -/
def readRanges (draft : RangeDraft) : List Char → List CodeRange
  | [] => [draft.finish]
  | ' ' :: cs => draft.finish :: readRanges .empty cs
  | '-' :: cs => readRanges { draft with last := 0, atFirst := false } cs
  | '/' :: _ :: cs => readRanges { draft with stride := 2 } cs
  | c :: cs =>
    if draft.atFirst then
      let n := draft.first * 16 + hexValue c
      readRanges { draft with first := n, last := n } cs
    else
      readRanges { draft with last := draft.last * 16 + hexValue c } cs

def rangesOf (table : List String) : List CodeRange :=
  table.flatMap fun line => readRanges .empty line.toList

/-! ## Categories -/

/-- The general categories of visible characters. -/
inductive Category where
  | uppercaseLetter | lowercaseLetter | titlecaseLetter | modifierLetter | otherLetter
  | letterNumber | decimalDigit | connectorPunctuation | nonspacingMark | spacingMark
  | enclosingMark | otherNumber | dashPunctuation | openPunctuation | closePunctuation
  | initialPunctuation | finalPunctuation | otherPunctuation
  | mathSymbol | currencySymbol | modifierSymbol | otherSymbol
  deriving DecidableEq, Repr

/-- Each category with its code points, read once from the tables. -/
def tables : List (Category × List CodeRange) :=
  [ (.uppercaseLetter, rangesOf Ranges.uppercaseLetter),
    (.lowercaseLetter, rangesOf Ranges.lowercaseLetter),
    (.titlecaseLetter, rangesOf Ranges.titlecaseLetter),
    (.modifierLetter, rangesOf Ranges.modifierLetter),
    (.otherLetter, rangesOf Ranges.otherLetter),
    (.letterNumber, rangesOf Ranges.letterNumber),
    (.decimalDigit, rangesOf Ranges.decimalDigit),
    (.connectorPunctuation, rangesOf Ranges.connectorPunctuation),
    (.nonspacingMark, rangesOf Ranges.nonspacingMark),
    (.spacingMark, rangesOf Ranges.spacingMark),
    (.enclosingMark, rangesOf Ranges.enclosingMark),
    (.otherNumber, rangesOf Ranges.otherNumber),
    (.dashPunctuation, rangesOf Ranges.dashPunctuation),
    (.openPunctuation, rangesOf Ranges.openPunctuation),
    (.closePunctuation, rangesOf Ranges.closePunctuation),
    (.initialPunctuation, rangesOf Ranges.initialPunctuation),
    (.finalPunctuation, rangesOf Ranges.finalPunctuation),
    (.otherPunctuation, rangesOf Ranges.otherPunctuation),
    (.mathSymbol, rangesOf Ranges.mathSymbol),
    (.currencySymbol, rangesOf Ranges.currencySymbol),
    (.modifierSymbol, rangesOf Ranges.modifierSymbol),
    (.otherSymbol, rangesOf Ranges.otherSymbol) ]

def tabulated? (codePoint : Nat) : Option Category :=
  (tables.find? fun entry => entry.2.any (·.contains codePoint)).map Prod.fst

def ascii? (codePoint : Nat) : Option Category :=
  if codePoint ≤ 0x20 ∨ 0x7f ≤ codePoint then none
  else if 0x30 ≤ codePoint ∧ codePoint ≤ 0x39 then some .decimalDigit
  else if 0x41 ≤ codePoint ∧ codePoint ≤ 0x5a then some .uppercaseLetter
  else if 0x61 ≤ codePoint ∧ codePoint ≤ 0x7a then some .lowercaseLetter
  else match Char.ofNat codePoint with
    | '_' => some .connectorPunctuation
    | '-' => some .dashPunctuation
    | '(' | '[' | '\x7b' => some .openPunctuation
    | ')' | ']' | '\x7d' => some .closePunctuation
    | '+' | '<' | '=' | '>' | '|' | '~' => some .mathSymbol
    | '$' => some .currencySymbol
    | '^' | '\x60' => some .modifierSymbol
    | _ => some .otherPunctuation

/-- The general category of a code point, `none` if it is not a visible character. -/
def Category.of? (codePoint : Nat) : Option Category :=
  if codePoint < 0x80 then ascii? codePoint else tabulated? codePoint

/-- The characters that quoting shows as themselves: the visible ones and the blank. -/
def isPrintable (c : Char) : Bool :=
  c == ' ' || (Category.of? c.toNat).isSome

end IdlFront.Unicode
