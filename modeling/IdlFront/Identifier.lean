import IdlFront.Unicode.Category
import IdlFront.Text.Quoted

/-! # Characters of identifiers

An identifier starts with a letter, a letter number or an underscore, and goes on with these, decimal
digits, connector punctuation and marks:

* `CharClass` — the general categories that this rule tells apart, and one class for all others.
* `CharClass.of` — the class of a code point; `CharClass.classify` refuses numbers that are none.
* `isIdentifierStart`, `isIdentifierContinue` — the two character sets of the rule.
-/

namespace IdlFront

/-! ## Classes -/

/-- Character classes that matter to identifiers. -/
inductive CharClass where
  | uppercaseLetter | lowercaseLetter | titlecaseLetter | modifierLetter | otherLetter
  | letterNumber | decimalDigit | connectorPunctuation | nonspacingMark | spacingMark
  | other
  deriving DecidableEq, Repr

namespace CharClass

/-- The short name of a class: that of its general category. -/
def label : CharClass → String
  | .uppercaseLetter => "Lu"
  | .lowercaseLetter => "Ll"
  | .titlecaseLetter => "Lt"
  | .modifierLetter => "Lm"
  | .otherLetter => "Lo"
  | .letterNumber => "Nl"
  | .decimalDigit => "Nd"
  | .connectorPunctuation => "Pc"
  | .nonspacingMark => "Mn"
  | .spacingMark => "Mc"
  | .other => "other"

def ofCategory : Unicode.Category → CharClass
  | .uppercaseLetter => .uppercaseLetter
  | .lowercaseLetter => .lowercaseLetter
  | .titlecaseLetter => .titlecaseLetter
  | .modifierLetter => .modifierLetter
  | .otherLetter => .otherLetter
  | .letterNumber => .letterNumber
  | .decimalDigit => .decimalDigit
  | .connectorPunctuation => .connectorPunctuation
  | .nonspacingMark => .nonspacingMark
  | .spacingMark => .spacingMark
  | _ => .other

def of (codePoint : Nat) : CharClass :=
  ((Unicode.Category.of? codePoint).map ofCategory).getD .other

/-- May a character of this class start an identifier? -/
def starts : CharClass → Bool
  | .uppercaseLetter | .lowercaseLetter | .titlecaseLetter | .modifierLetter | .otherLetter
  | .letterNumber => true
  | _ => false

/-- May a character of this class follow in an identifier? -/
def continues (c : CharClass) : Bool :=
  c.starts || match c with
    | .decimalDigit | .connectorPunctuation | .nonspacingMark | .spacingMark => true
    | _ => false

end CharClass

/-! ## Numbers that are no code points -/

/-- A number outside the Unicode code space. -/
structure NotACodePoint where
  value : Int
  deriving DecidableEq, Repr

def maxCodePoint : Int := 0x10ffff

/-- The message names the number in hexadecimal, its sign in front. -/
def NotACodePoint.message (e : NotACodePoint) : String :=
  let sign := if e.value < 0 then "-" else ""
  "Not a Unicode code point: " ++ sign ++ "0x" ++ String.ofList (Text.hexNumeral e.value.natAbs)

/-- The class of a number, if it is a code point. -/
def CharClass.classify (n : Int) : Except NotACodePoint CharClass :=
  if n < 0 ∨ maxCodePoint < n then .error ⟨n⟩ else .ok (.of n.toNat)

/-! ## The two character sets -/

/-- May the character start an identifier? The underscore may, although it is no letter. -/
def isIdentifierStart (c : Char) : Bool :=
  c == '_' || (CharClass.of c.toNat).starts

/-- May the character follow in an identifier? -/
def isIdentifierContinue (c : Char) : Bool :=
  (CharClass.of c.toNat).continues

end IdlFront
