import Mathlib.Data.List.TakeWhile
import IdlFront.Token.Lexer

/-! # The lexical grammar

What the trivia, the tokens and the rejected characters of a source text are, said by languages of
texts and by longest matches in them. No scanner occurs here.

* `Longest` — the longest front part of a text that is in a language.
* `IsString`, `IsUuid`, `IsFloat`, … — the languages of the literals.
* `Front` — which lexeme stands in front of the rest of a text.
* `Splits` — a text as lexemes one after the other. There is at most one such sequence.
* `placeOf`, `tokensFrom`, `faultsFrom` — the tokens and diagnostics of such a sequence.
-/

namespace IdlFront.Lexical

/-! ## Longest matches -/

/-- A front part of a text that is in a language, and no longer front part is. -/
structure Longest (L : List Char → Prop) (text cs : List Char) : Prop where
  front : text <+: cs
  mem : L text
  longest : ∀ other, other <+: cs → L other → other.length ≤ text.length

theorem Longest.unique {L : List Char → Prop} {text other cs : List Char}
    (h : Longest L text cs) (h' : Longest L other cs) : text = other := by
  have le := h'.longest text h.front h.mem
  have ge := h.longest other h'.front h'.mem
  exact (List.prefix_of_prefix_length_le h.front h'.front le).eq_of_length (by omega)

/-- `C*` for a class of characters. -/
def Run (C : Char → Bool) (text : List Char) : Prop := ∀ c ∈ text, C c = true

def Digits (text : List Char) : Prop := text ≠ [] ∧ Run isDigit text

/-! ## Literals -/

/-- `([^"\\\n] | \\[^\n])*` -/
inductive StringBody : List Char → Prop where
  | nil : StringBody []
  | plain {c : Char} {cs : List Char} :
      c ≠ '"' → c ≠ '\\' → c ≠ '\n' → StringBody cs → StringBody (c :: cs)
  | escape {c : Char} {cs : List Char} :
      c ≠ '\n' → StringBody cs → StringBody ('\\' :: c :: cs)

def IsString (text : List Char) : Prop := ∃ body, StringBody body ∧ text = '"' :: body ++ ['"']

/-- Hexadecimal digits in groups of eight, four, four, four and twelve, with hyphens between them. -/
def IsUuid (text : List Char) : Prop :=
  ∃ a b c d e : List Char, [a, b, c, d, e].map List.length = [8, 4, 4, 4, 12] ∧
    (∀ group ∈ [a, b, c, d, e], Run isHexDigit group) ∧
    text = a ++ '-' :: (b ++ '-' :: (c ++ '-' :: (d ++ '-' :: e)))

def EndsUuid (rest : List Char) : Prop :=
  ∀ c, rest.head? = some c → c ≠ '-' ∧ isIdentifierContinue c = false

/-- A UUID that ends there is at the front. -/
def UuidAhead (cs : List Char) : Prop := ∃ text rest, IsUuid text ∧ EndsUuid rest ∧ cs = text ++ rest

/-- `0x` is at the front, with a small or a capital letter. -/
def HexAhead (cs : List Char) : Prop := ∃ x ∈ ['x', 'X'], ['0', x] <+: cs

def IsSign (text : List Char) : Prop := text ∈ [[], ['+'], ['-']]

/-- `[eE][+-]?D+` -/
def IsExponent (text : List Char) : Prop :=
  ∃ e ∈ ['e', 'E'], ∃ sign digits, IsSign sign ∧ Digits digits ∧ text = e :: (sign ++ digits)

def IsFraction (text : List Char) : Prop :=
  ∃ whole part, Digits whole ∧ Digits part ∧ text = whole ++ '.' :: part

/-- `D+ '.' D+ ([eE][+-]?D+)?` or `D+ [eE][+-]?D+` -/
def IsFloat (text : List Char) : Prop :=
  IsFraction text ∨ ∃ number exponent, (IsFraction number ∨ Digits number) ∧ IsExponent exponent ∧
    text = number ++ exponent

/-! ## Lexemes in front of a rest -/

def EndsLine (rest : List Char) : Prop := ∀ c, rest.head? = some c → c = '\n'

/-- The kind of a word: reserved words are keywords. -/
inductive IsWord : List Char → TokenKind → Prop where
  | keyword (k : Keyword) : IsWord k.text.toList (.keyword k)
  | identifier {text : List Char} : (∀ k : Keyword, k.text.toList ≠ text) → IsWord text .identifier

/-- A decimal literal in front of a rest: a float if any front part is one, else an integer. An
    exponent that is not complete belongs to a fraction, as its fault. -/
inductive Decimal : Lexeme → List Char → Prop where
  | float {text rest : List Char} :
      Longest IsFloat text (text ++ rest) →
      (IsFraction text → ∀ c, rest.head? = some c → c ∉ ['e', 'E']) →
      Decimal (.sound (.token .float) text) rest
  | brokenFloat {number sign rest : List Char} {e : Char} :
      Longest IsFloat number (number ++ e :: (sign ++ rest)) → IsFraction number →
      e ∈ ['e', 'E'] → Longest IsSign sign (sign ++ rest) →
      Decimal ⟨.token .float, number ++ e :: sign,
        some (.missingExponentDigits (String.ofList (number ++ e :: sign)))⟩ rest
  | integer {text rest : List Char} :
      (∀ other, IsFloat other → ¬ other <+: text ++ rest) → Longest Digits text (text ++ rest) →
      Decimal (.sound (.token .integer) text) rest

/-- A token or a rejected character in front of a rest, where no trivia stands. -/
inductive Solid : Lexeme → List Char → Prop where
  | punctuation {rest : List Char} (p : Punctuation) :
      Solid (.sound (.token (.punct p)) [p.char]) rest
  | string {text rest : List Char} : IsString text → Solid (.sound (.token .string) text) rest
  | openString {body rest : List Char} :
      '\n' ∉ body → EndsLine rest → (∀ text, IsString text → ¬ text <+: '"' :: body ++ rest) →
      Solid ⟨.token .string, '"' :: body, some .unterminatedString⟩ rest
  | uuid {text rest : List Char} :
      IsUuid text → EndsUuid rest → Solid (.sound (.token .uuid) text) rest
  | hex {x : Char} {run rest : List Char} :
      x ∈ ['x', 'X'] → run ≠ [] → Longest (Run isHexDigit) run (run ++ rest) →
      Solid (.sound (.token .hex) ('0' :: x :: run)) rest
  | emptyHex {x : Char} {rest : List Char} :
      x ∈ ['x', 'X'] → Longest (Run isHexDigit) [] rest →
      Solid ⟨.token .hex, ['0', x], some (.missingHexDigits (String.ofList ['0', x]))⟩ rest
  | decimal {l : Lexeme} {rest : List Char} :
      ¬ UuidAhead (l.text ++ rest) → ¬ HexAhead (l.text ++ rest) → Decimal l rest → Solid l rest
  | word {c : Char} {run rest : List Char} {kind : TokenKind} :
      ¬ UuidAhead (c :: run ++ rest) → isDigit c = false → isIdentifierStart c = true →
      Longest (Run isIdentifierContinue) run (run ++ rest) → IsWord (c :: run) kind →
      Solid (.sound (.token kind) (c :: run)) rest
  | rejected {c : Char} {rest : List Char} :
      (∀ p : Punctuation, p.char ≠ c) → c ≠ '"' → isDigit c = false → isIdentifierStart c = false →
      Solid ⟨.rejected, [c], some (.unexpectedCharacter c)⟩ rest

def whitespace : List Char := [' ', '\t', '\n', '\r', '\x0c', '\x0b']

def NoTrivia (cs : List Char) : Prop :=
  (∀ c, cs.head? = some c → c ∉ whitespace) ∧ ¬ ['/', '/'] <+: cs ∧ ¬ ['/', '*'] <+: cs

/-- The lexeme in front of a rest. Every whitespace character is one of its own, and a block comment
    ends with the first `*/` behind its start. -/
inductive Front : Lexeme → List Char → Prop where
  | whitespace {c : Char} {rest : List Char} : c ∈ whitespace → Front (.sound .blank [c]) rest
  | lineComment {body rest : List Char} :
      '\n' ∉ body → EndsLine rest → Front (.sound .lineComment ('/' :: '/' :: body)) rest
  | blockComment {body rest : List Char} :
      ¬ ['*', '/'] <:+: body ++ ['*'] →
      Front (.sound .blockComment ('/' :: '*' :: (body ++ ['*', '/']))) rest
  | openComment {body : List Char} :
      ¬ ['*', '/'] <:+: body →
      Front ⟨.blockComment, '/' :: '*' :: body, some .unterminatedComment⟩ []
  | solid {l : Lexeme} {rest : List Char} :
      NoTrivia (l.text ++ rest) → Solid l rest → Front l rest

/-- The text is a sequence of lexemes, each the one in front of what follows it. -/
inductive Splits : List Char → List Lexeme → Prop where
  | nil : Splits [] []
  | cons {l : Lexeme} {rest : List Char} {ls : List Lexeme} :
      Front l rest → Splits rest ls → Splits (l.text ++ rest) (l :: ls)

/-! ## Tokens and diagnostics -/

/-- The place behind a text: lines and columns count from one, and a line feed ends a line. -/
def placeOf (text : List Char) : Position :=
  ⟨1 + text.count '\n', 1 + (text.reverse.takeWhile (· ≠ '\n')).length, text.length⟩

/-- The tokens among lexemes behind a text, the end of input last. -/
def tokensFrom (before : List Char) : List Lexeme → List Token
  | [] => [(placeOf before).token .eof []]
  | l :: ls =>
    match l.kind with
    | .token kind => (placeOf before).token kind l.text :: tokensFrom (before ++ l.text) ls
    | _ => tokensFrom (before ++ l.text) ls

/-- The faults of lexemes behind a text, each where its lexeme starts. -/
def faultsFrom (before : List Char) : List Lexeme → List Diagnostic
  | [] => []
  | l :: ls => (placeOf before).faults l ++ faultsFrom (before ++ l.text) ls

end IdlFront.Lexical
