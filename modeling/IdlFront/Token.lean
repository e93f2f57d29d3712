import IdlFront.Text.Quoted

/-! # Tokens

The words of the language and how messages speak of them:

* `Keyword`, `Punctuation` — the closed classes, each with its spelling.
* `TokenKind`, `TokenCategory` — all kinds, and the coarse classes that messages name.
* `Token` — a kind, its text and where it starts.
* `TokenKind.describe`, `Token.describe` — an expected kind and a found token in a message.
-/

namespace IdlFront

/-! ## Closed classes -/

/-- The reserved words. -/
inductive Keyword where
  | import_ | namespace_ | enum | struct | delegate | interface | event | void | ref | const | out
  deriving DecidableEq, Repr

namespace Keyword

def all : List Keyword :=
  [.import_, .namespace_, .enum, .struct, .delegate, .interface, .event, .void, .ref, .const, .out]

def text : Keyword → String
  | .import_ => "import"
  | .namespace_ => "namespace"
  | .enum => "enum"
  | .struct => "struct"
  | .delegate => "delegate"
  | .interface => "interface"
  | .event => "event"
  | .void => "void"
  | .ref => "ref"
  | .const => "const"
  | .out => "out"

def ofText? (s : String) : Option Keyword :=
  all.find? fun k => k.text == s

end Keyword

/-- The punctuation marks, one character each. -/
inductive Punctuation where
  | lbrace | rbrace | lparen | rparen | lbracket | rbracket | langle | rangle
  | comma | dot | semicolon | colon | equals
  deriving DecidableEq, Repr

namespace Punctuation

def all : List Punctuation :=
  [.lbrace, .rbrace, .lparen, .rparen, .lbracket, .rbracket, .langle, .rangle,
   .comma, .dot, .semicolon, .colon, .equals]

def char : Punctuation → Char
  | .lbrace => '\x7b'
  | .rbrace => '\x7d'
  | .lparen => '('
  | .rparen => ')'
  | .lbracket => '['
  | .rbracket => ']'
  | .langle => '<'
  | .rangle => '>'
  | .comma => ','
  | .dot => '.'
  | .semicolon => ';'
  | .colon => ':'
  | .equals => '='

def ofChar? (c : Char) : Option Punctuation :=
  all.find? fun p => p.char == c

end Punctuation

/-! ## Kinds -/

/-- Coarse classes of tokens, as messages name them. -/
inductive TokenCategory where
  | identifier | keyword | integerLiteral | hexLiteral | floatLiteral | stringLiteral | uuidLiteral
  | punctuation | endOfInput
  deriving DecidableEq, Repr

def TokenCategory.label : TokenCategory → String
  | .identifier => "identifier"
  | .keyword => "keyword"
  | .integerLiteral => "integer literal"
  | .hexLiteral => "hexadecimal literal"
  | .floatLiteral => "floating-point literal"
  | .stringLiteral => "string literal"
  | .uuidLiteral => "uuid literal"
  | .punctuation => "punctuation"
  | .endOfInput => "end of input"

/-- The kinds of tokens. -/
inductive TokenKind where
  | keyword (word : Keyword)
  | punct (mark : Punctuation)
  | integer | hex | float | string | uuid
  | identifier
  | eof
  deriving DecidableEq, Repr

namespace TokenKind

def category : TokenKind → TokenCategory
  | .keyword _ => .keyword
  | .punct _ => .punctuation
  | .integer => .integerLiteral
  | .hex => .hexLiteral
  | .float => .floatLiteral
  | .string => .stringLiteral
  | .uuid => .uuidLiteral
  | .identifier => .identifier
  | .eof => .endOfInput

/-- The name of a kind in listings: its spelling if it has only one, and a word in capitals
    for the open classes. -/
def label : TokenKind → String
  | .keyword k => k.text
  | .punct p => String.singleton p.char
  | .integer => "INTEGER"
  | .hex => "HEX"
  | .float => "FLOAT"
  | .string => "STRING"
  | .uuid => "UUID"
  | .identifier => "IDENTIFIER"
  | .eof => "EOF"

/-- An expected kind, as messages name it: a closed class by its quoted spelling,
    an open one by its category. -/
def describe (kind : TokenKind) : String :=
  match kind with
  | .keyword _ | .punct _ => Text.quoted kind.label
  | _ => kind.category.label

/-- A choice of expected kinds, as messages name it. -/
def describeAny : List TokenKind → String
  | [] => ""
  | [k] => k.describe
  | [k, l] => k.describe ++ " or " ++ l.describe
  | k :: ks => k.describe ++ ", " ++ describeAny ks

end TokenKind

/-! ## Tokens -/

/-- A token: its text as written, quotes included, the line and column of its first character,
    both counted from one, and that character's offset, counted from zero. -/
structure Token where
  kind : TokenKind
  value : String
  line : Int
  column : Int
  offset : Int
  deriving DecidableEq, Repr

namespace Token

/-- The offset after the last character. -/
def stop (t : Token) : Int := t.offset + t.value.length

/-- Does the token stand for the end of input? -/
def isEof (t : Token) : Bool := t.kind == .eof

/-- A found token, as messages name it. -/
def describe (t : Token) : String :=
  match t.kind with
  | .eof => TokenCategory.endOfInput.label
  | .punct _ => Text.quoted t.value
  | kind => kind.category.label ++ " " ++ Text.quoted t.value

end Token

end IdlFront
