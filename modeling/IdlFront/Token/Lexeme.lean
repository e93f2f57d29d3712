import IdlFront.Identifier
import IdlFront.Diagnostic

/-! # Lexemes

A source text is a sequence of lexemes: blanks, comments, tokens and characters that belong to
nothing. Here each lexeme is read off the front of the remaining characters.

* Scanners such as `stringTail` and `numberText` — the text that a lexeme of one class takes.
* `Lexeme.first` — the lexeme at the front of a nonempty text.
* `Lexeme.split` — the whole text as lexemes, in order.
-/

namespace IdlFront

/-! ## Characters -/

def isBlank (c : Char) : Bool :=
  c == ' ' || c == '\t' || c == '\n' || c == '\r' || c == '\x0c' || c == '\x0b'

def isDigit (c : Char) : Bool := '0' ≤ c && c ≤ '9'

/-- The ASCII digits and the letters from `a` to `f` in either case. -/
def isHexDigit (c : Char) : Bool :=
  isDigit c || ('a' ≤ c && c ≤ 'f') || ('A' ≤ c && c ≤ 'F')

def startsWithDigit : List Char → Bool
  | c :: _ => isDigit c
  | [] => false

/-! ## Lexemes -/

/-- What a stretch of source text is. A rejected stretch is one character that starts no lexeme. -/
inductive LexemeKind where
  | blank
  | lineComment
  | blockComment
  | rejected
  | token (kind : TokenKind)
  deriving DecidableEq, Repr

/-- A stretch of source text, what it is, and what is wrong with it, if anything. -/
structure Lexeme where
  kind : LexemeKind
  text : List Char
  fault : Option Problem
  deriving DecidableEq, Repr

def Lexeme.sound (kind : LexemeKind) (text : List Char) : Lexeme := ⟨kind, text, none⟩

/-! ## Scanners

Each takes the characters after those that decided for it and gives those that belong to the
lexeme as well. -/

/-- The rest of a block comment, and whether it is closed: up to and with the first `*/`. -/
def blockTail : List Char → List Char × Bool
  | [] => ([], false)
  | '*' :: '/' :: _ => (['*', '/'], true)
  | c :: cs => let (text, closed) := blockTail cs; (c :: text, closed)

/-- The rest of a string literal, and whether it is closed: up to and with the first quote that
    no backslash escapes, or the rest of the line. -/
def stringTail : List Char → List Char × Bool
  | [] => ([], false)
  | '"' :: _ => (['"'], true)
  | '\n' :: _ => ([], false)
  | '\\' :: c :: cs =>
    if c = '\n' then (['\\'], false)
    else let (text, closed) := stringTail cs; ('\\' :: c :: text, closed)
  | c :: cs => let (text, closed) := stringTail cs; (c :: text, closed)

def isUuidHyphen (i : Nat) : Bool := i == 8 || i == 13 || i == 18 || i == 23

/-- Have the characters, the first at place `i`, the form of a UUID from there on? -/
def uuidFrom (i : Nat) : List Char → Bool
  | [] => i == 36
  | c :: cs => (if isUuidHyphen i then c == '-' else isHexDigit c) && uuidFrom (i + 1) cs

/-- The UUID at the front of a text: eight, four, four, four and twelve hexadecimal digits. It is
    none if a hyphen or a character of identifiers follows. -/
def uuidText? (cs : List Char) : Option (List Char) :=
  let ends := match cs.drop 36 with
    | c :: _ => !(c == '-' || isIdentifierContinue c)
    | [] => true
  if uuidFrom 0 (cs.take 36) && ends then some (cs.take 36) else none

def signText : List Char → List Char
  | '+' :: _ => ['+']
  | '-' :: _ => ['-']
  | _ => []

/-- The fraction at the front of a text: a point and at least one digit. -/
def fractionText : List Char → List Char
  | '.' :: cs => if startsWithDigit cs then '.' :: cs.takeWhile isDigit else []
  | _ => []

/-- The exponent at the front of a text. -/
inductive Exponent where
  | absent
  /-- A marker, perhaps a sign, and at least one digit. -/
  | complete (text : List Char)
  /-- A marker and perhaps a sign, but no digit. -/
  | broken (text : List Char)
  deriving DecidableEq, Repr

def Exponent.at : List Char → Exponent
  | [] => .absent
  | e :: cs =>
    if e = 'e' ∨ e = 'E' then
      let sign := signText cs
      let rest := cs.drop sign.length
      if startsWithDigit rest then .complete (e :: sign ++ rest.takeWhile isDigit)
      else .broken (e :: sign)
    else .absent

/-- The decimal literal at the front of a text that starts with a digit. An exponent without digits
    belongs to a literal with a fraction, where it is an error, and to no other. -/
def decimalLexeme (cs : List Char) : Lexeme :=
  let digits := cs.takeWhile isDigit
  let fraction := fractionText (cs.drop digits.length)
  let number := digits ++ fraction
  match Exponent.at (cs.drop number.length), fraction with
  | .complete e, _ => .sound (.token .float) (number ++ e)
  | .broken e, _ :: _ =>
    ⟨.token .float, number ++ e, some (.missingExponentDigits (String.ofList (number ++ e)))⟩
  | _, [] => .sound (.token .integer) number
  | _, _ :: _ => .sound (.token .float) number

def numberLexeme (cs : List Char) : Lexeme :=
  match cs with
  | '0' :: x :: rest =>
    if x = 'x' ∨ x = 'X' then
      match rest.takeWhile isHexDigit with
      | [] => ⟨.token .hex, ['0', x], some (.missingHexDigits (String.ofList ['0', x]))⟩
      | digits => .sound (.token .hex) ('0' :: x :: digits)
    else decimalLexeme cs
  | _ => decimalLexeme cs

/-- The kind of a word: a keyword if it is reserved. -/
def wordKind (text : List Char) : TokenKind :=
  match Keyword.ofText? (String.ofList text) with
  | some k => .keyword k
  | none => .identifier

/-! ## The lexeme at the front -/

/-- The token or rejected character at the front of `c :: cs`, where no blank or comment stands. -/
def Lexeme.solid (c : Char) (cs : List Char) : Lexeme :=
  match Punctuation.ofChar? c with
  | some p => .sound (.token (.punct p)) [c]
  | none =>
    if c = '"' then
      let (text, closed) := stringTail cs
      ⟨.token .string, c :: text, if closed then none else some .unterminatedString⟩
    else match uuidText? (c :: cs) with
    | some text => .sound (.token .uuid) text
    | none =>
      if isDigit c then numberLexeme (c :: cs)
      else if isIdentifierStart c then
        let text := c :: cs.takeWhile isIdentifierContinue
        .sound (.token (wordKind text)) text
      else ⟨.rejected, [c], some (.unexpectedCharacter c)⟩

def Lexeme.first (c : Char) (cs : List Char) : Lexeme :=
  if isBlank c then .sound .blank (c :: cs.takeWhile isBlank)
  else match c, cs with
  | '/', '/' :: rest => .sound .lineComment ('/' :: '/' :: rest.takeWhile (· ≠ '\n'))
  | '/', '*' :: rest =>
    let (text, closed) := blockTail rest
    ⟨.blockComment, '/' :: '*' :: text, if closed then none else some .unterminatedComment⟩
  | _, _ => .solid c cs

/-- The whole text as lexemes. The next one starts where the text of the last one ends; every lexeme
    has at least one character. -/
def Lexeme.split : List Char → List Lexeme
  | [] => []
  | c :: cs =>
    let lexeme := Lexeme.first c cs
    lexeme :: split (cs.drop (lexeme.text.length - 1))
termination_by cs => cs.length

end IdlFront
