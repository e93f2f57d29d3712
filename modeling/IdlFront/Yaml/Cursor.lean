import IdlFront.Text.Quoted

/-! # Places in YAML text

* `Yaml.Cursor` — the characters still to be read, and where they start.
* `Cursor.take`, `skipWhile`, `lineBreak?` — the ways to move on.
* `Cursor.loop` — turns of a scanner, each further on than the last.
-/

namespace IdlFront.Yaml

/-- What can be wrong with a scalar that YAML itself has nothing against: behind the mark of the base of a
    number there is no digit, an escape is the number of no character, the text is not what its tag says it
    is, or a part of a time is out of range. -/
inductive Flaw where
  | noDigits (base : Nat)
  | noCharacter (code : Nat)
  | noInteger (text : String)
  | noReal (text : String)
  | noTruth (text : String)
  | noTime (text : String)
  | outOfRange (message : String)
  deriving DecidableEq, Repr

def Flaw.message : Flaw → String
  | .noDigits base => s!"invalid literal for int() with base {base}: ''"
  | .noCharacter _ => "chr() arg not in range(0x110000)"
  | .noInteger text => "invalid literal for int() with base 10: " ++ Text.quoted text
  | .noReal text => "could not convert string to float: " ++ Text.quoted text
  | .noTruth text => Text.quoted text
  | .noTime _ => "'NoneType' object has no attribute 'groupdict'"
  | .outOfRange message => message

/-- Why YAML text has no value: it is not YAML, has more than one document or uses what is not
    supported, or a scalar in it is flawed. -/
inductive YamlError where
  | malformed
  | flaw (flaw : Flaw)
  deriving DecidableEq, Repr

/-! ## Characters -/

def isBreak (c : Char) : Bool :=
  c == '\n' || c == '\r' || c == '\u0085' || c == '\u2028' || c == '\u2029'

/-- Is there no character, or one that ends a line? -/
def endsLine : Option Char → Bool
  | none => true
  | some c => isBreak c

/-- Is there no character, or one that separates words? -/
def endsWord : Option Char → Bool
  | none => true
  | some c => c == ' ' || c == '\t' || isBreak c

/-- Is there no character, or a blank other than a tab? -/
def endsIndicator : Option Char → Bool
  | none => true
  | some c => c == ' ' || isBreak c

def isAllowed (c : Char) : Bool :=
  let n := c.toNat
  n == 0x09 || n == 0x0a || n == 0x0d || (0x20 ≤ n && n ≤ 0x7e) || n == 0x85
    || (0xa0 ≤ n && n ≤ 0xfffd) || 0x10000 ≤ n

/-! ## Cursors -/

/-- What is still to be read, the number of characters before it, and its line and column, all
    counted from zero. -/
structure Cursor where
  rest : List Char
  index : Nat
  line : Nat
  column : Nat
  deriving DecidableEq, Repr

namespace Cursor

def start (text : List Char) : Cursor := ⟨text, 0, 0, 0⟩

def peek (c : Cursor) : Option Char := c.rest.head?

def peekAt (c : Cursor) (distance : Nat) : Option Char := c.rest[distance]?

/-- The cursor after one character. -/
def next (c : Cursor) : Cursor :=
  match c.rest with
  | [] => c
  | ch :: rest =>
    if isBreak ch && !(ch == '\r' && rest.head? == some '\n') then
      ⟨rest, c.index + 1, c.line + 1, 0⟩
    else if ch == '\ufeff' then ⟨rest, c.index + 1, c.line, c.column⟩
    else ⟨rest, c.index + 1, c.line, c.column + 1⟩

/-- The cursor after several characters. -/
def skip : Nat → Cursor → Cursor
  | 0, c => c
  | n + 1, c => skip n c.next

/-- The characters at the front that have a property. -/
def run (p : Char → Bool) (c : Cursor) : List Char := c.rest.takeWhile p

/-- The cursor after the characters at the front that have a property. -/
def skipWhile (p : Char → Bool) (c : Cursor) : Cursor := c.skip (c.run p).length

/-- The end of a line at the cursor, as a line feed unless it is a separator of its own, and the
    cursor behind it. -/
def lineBreak? (c : Cursor) : Option (Char × Cursor) :=
  match c.rest with
  | '\r' :: '\n' :: _ => some ('\n', c.skip 2)
  | ch :: _ =>
    if ch == '\u2028' || ch == '\u2029' then some (ch, c.next)
    else if isBreak ch then some ('\n', c.next)
    else none
  | [] => none

/-- Does a mark that starts or ends a document stand here? -/
def atDocumentMark (c : Cursor) : Bool :=
  (c.rest.take 3 == ['-', '-', '-'] || c.rest.take 3 == ['.', '.', '.']) && endsWord (c.peekAt 3)

/-- What a turn of a loop leads to. -/
inductive Turn (σ : Type) where
  | again (s : σ) (c : Cursor)
  | done (s : σ) (c : Cursor)

/-- Take turns for as long as they ask for another one and move on. -/
def loop {σ : Type} (turn : σ → Cursor → Except YamlError (Turn σ)) (s : σ) (c : Cursor) :
    Except YamlError (σ × Cursor) :=
  match turn s c with
  | .error e => .error e
  | .ok (.done s c') => .ok (s, c')
  | .ok (.again s c') =>
    if c'.rest.length < c.rest.length then loop turn s c' else .ok (s, c')
termination_by c.rest.length

end Cursor

end IdlFront.Yaml
