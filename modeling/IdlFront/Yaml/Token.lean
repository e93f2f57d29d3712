import IdlFront.Yaml.Scalar

/-! # YAML tokens

Indentation and the colons of simple keys are turned into explicit tokens here, so that the structure of
a document can be read off the tokens alone:

* `Yaml.Token` — indicators, the starts and ends of block collections, and scalars.
* `Yaml.Scanner` — the state between tokens: the open indentations, whether a simple key may start
  here, and the places where one may have started.
* `Scanner.fetch` — the next token or tokens.
* `Yaml.tokens` — all tokens of a text.
-/

namespace IdlFront.Yaml

/-! ## Tokens -/

/-- A tag as it is written: a handle, where there is one, and a suffix. -/
structure TagToken where
  handle : Option String
  suffix : String
  deriving DecidableEq, Repr

/-- A directive line: one that sets the version, one that defines a tag handle, or another one. -/
inductive Directive where
  | version (major : Nat)
  | tag (handle directivePrefix : String)
  | other
  deriving DecidableEq, Repr

/-- A token. -/
inductive Token where
  | directive (d : Directive)
  | documentStart | documentEnd
  | blockSequenceStart | blockMappingStart | blockEnd
  | flowSequenceStart | flowSequenceEnd | flowMappingStart | flowMappingEnd
  | blockEntry | flowEntry | key | value
  | alias (name : String)
  | anchor (name : String)
  | tag (t : TagToken)
  | scalar (plain : Bool) (text : String)
  deriving DecidableEq, Repr

/-! ## Scanners -/

/-- A place where a simple key may have started: the number of tokens before it, and where it is. It
    is required if nothing but a key can stand there. -/
structure KeyPlace where
  before : Nat
  required : Bool
  index : Nat
  line : Nat
  column : Nat
  deriving DecidableEq, Repr

/-- The state between two tokens. There is at most one place of a possible key for each level of
    flow collections; `keys` holds them from the innermost level out. -/
structure Scanner where
  cursor : Cursor
  tokens : List Token
  indent : Int
  indents : List Int
  allowKey : Bool
  keys : List (Option KeyPlace)
  deriving DecidableEq, Repr

namespace Scanner

/-- The state before the first token. -/
def start (text : List Char) : Scanner := ⟨.start text, [], -1, [], true, [none]⟩

/-- Does the scanner stand inside a flow collection? -/
def inFlow (s : Scanner) : Bool := s.keys.length != 1

def emit (s : Scanner) (t : Token) : Scanner := { s with tokens := s.tokens ++ [t] }

/-- The state with a token put in after the first `n`. -/
def emitAt (s : Scanner) (n : Nat) (t : Token) : Scanner :=
  { s with tokens := s.tokens.take n ++ t :: s.tokens.drop n }

/-- Close the block collections that are indented by more than `column`. -/
def unwind (column : Int) (s : Scanner) : Scanner :=
  if s.inFlow then s
  else
    let closed := (s.indent :: s.indents).takeWhile (column < ·)
    match (s.indent :: s.indents).drop closed.length with
    | indent :: indents =>
      { s with
        indent, indents
        tokens := s.tokens ++ List.replicate closed.length .blockEnd }
    | [] => s

/-- Open a block collection at a column, if it is indented by more than the one around it. The start
    token comes after the first `n` tokens. -/
def openBlock (column n : Nat) (t : Token) (s : Scanner) : Scanner :=
  if s.indent < column then
    { s.emitAt n t with indent := column, indents := s.indent :: s.indents }
  else s

/-- Forget the places of possible keys that are too far back; a required key may not be missed. -/
def dropStale (s : Scanner) : Except YamlError Scanner := do
  let stale (k : KeyPlace) : Bool := k.line != s.cursor.line || 1024 < s.cursor.index - k.index
  if s.keys.any fun k => (k.map fun k => stale k && k.required).getD false then .error .malformed
  else return { s with keys := s.keys.map fun k => k.filter fun k => !stale k }

/-- Forget the place of a possible key on the current level. -/
def dropKey (s : Scanner) : Except YamlError Scanner :=
  match s.keys with
  | some k :: keys => if k.required then .error .malformed else .ok { s with keys := none :: keys }
  | _ => .ok s

def saveKey (s : Scanner) : Except YamlError Scanner :=
  if s.allowKey then do
    let s ← s.dropKey
    let c := s.cursor
    let required := !s.inFlow && s.indent == c.column
    let place : KeyPlace := ⟨s.tokens.length, required, c.index, c.line, c.column⟩
    return { s with keys := some place :: s.keys.drop 1 }
  else .ok s

def emitIndicator (s : Scanner) (length : Nat) (t : Token) : Scanner :=
  { s.emit t with cursor := s.cursor.skip length }

/-! ## Directives, anchors and tags -/

def isNameChar (c : Char) : Bool :=
  ('0' ≤ c && c ≤ '9') || ('a' ≤ c && c ≤ 'z') || ('A' ≤ c && c ≤ 'Z') || c == '-' || c == '_'

def isTagChar (c : Char) : Bool :=
  isNameChar c || [';', '/', '?', ':', '@', '&', '=', '+', '$', ',', '.', '!', '~', '*', '\'', '(',
    ')', '[', ']', '%'].contains c

/-- A name at a cursor, and the cursor behind it. -/
def name? (c : Cursor) : Except YamlError (String × Cursor) :=
  let name := c.run isNameChar
  if name.isEmpty then .error .malformed else .ok (String.ofList name, c.skip name.length)

def number? (c : Cursor) : Except YamlError (Nat × Cursor) :=
  let digits := c.run fun d => '0' ≤ d && d ≤ '9'
  if digits.isEmpty then .error .malformed
  else .ok (digits.foldl (fun n d => n * 10 + (d.toNat - '0'.toNat)) 0, c.skip digits.length)

/-- The part of a tag behind its handle. -/
def tagSuffix (c : Cursor) : Except YamlError (String × Cursor) :=
  let suffix := c.run isTagChar
  if suffix.isEmpty then .error .malformed else .ok (String.ofList suffix, c.skip suffix.length)

/-- A tag handle: exclamation marks around a name that may be missing. -/
def tagHandle (c : Cursor) : Except YamlError (String × Cursor) :=
  if c.peek != some '!' then .error .malformed
  else
    let name := c.next.run isNameChar
    let behind := c.next.skip name.length
    if behind.peek == some '!' then .ok (String.ofList ('!' :: name ++ ['!']), behind.next)
    else if behind.peek == some ' ' && name.isEmpty then .ok ("!", behind)
    else .error .malformed

def tag (c : Cursor) : Except YamlError (TagToken × Cursor) := do
  let (t, c) ← match c.peekAt 1 with
    | some '<' => do
      let (suffix, c) ← tagSuffix (c.skip 2)
      if c.peek == some '>' then pure (TagToken.mk none suffix, c.next) else .error .malformed
    | next =>
      if endsWord next then pure (TagToken.mk none "!", c.next)
      else do
        let word := c.next.run fun d => !(endsIndicator (some d))
        let (handle, c) ←
          if word.contains '!' then tagHandle c else pure ("!", c.next)
        let (suffix, c) ← tagSuffix c
        pure (TagToken.mk (some handle) suffix, c)
  if endsIndicator c.peek then return (t, c) else .error .malformed

/-- An anchor or alias at a cursor: its name. -/
def anchorName (c : Cursor) : Except YamlError (String × Cursor) := do
  let (name, c) ← name? c.next
  let ends := endsWord c.peek
    || (c.peek.map fun d => ['?', ':', ',', ']', '\x7d', '%', '@', '\x60'].contains d).getD false
  if ends then return (name, c) else .error .malformed

def directive (c : Cursor) : Except YamlError (Directive × Cursor) := do
  let (name, c) ← name? c.next
  if !endsIndicator c.peek then .error .malformed
  let (d, c) ← match name with
    | "YAML" => do
      let (major, c) ← number? (c.skipWhile (· == ' '))
      if c.peek != some '.' then .error .malformed
      let (_, c) ← number? c.next
      if endsIndicator c.peek then pure (Directive.version major, c) else .error .malformed
    | "TAG" => do
      let (handle, c) ← tagHandle (c.skipWhile (· == ' '))
      if c.peek != some ' ' then .error .malformed
      let (directivePrefix, c) ← tagSuffix (c.skipWhile (· == ' '))
      if endsIndicator c.peek then pure (Directive.tag handle directivePrefix, c)
      else .error .malformed
    | _ => pure (Directive.other, c.skipWhile (!isBreak ·))
  return (d, ← ignoredLine c)

/-! ## Fetching -/

/-- Pass over blanks, comments and line ends. After a line end in block context a key may start. -/
def passBlanks (s : Scanner) : Except YamlError Scanner := do
  let c := s.cursor
  let c := if c.index == 0 && c.peek == some '\ufeff' then c.next else c
  let (brokeLine, c) ← c.loop (fun brokeLine c =>
    let c := c.skipWhile (· == ' ')
    let c := if c.peek == some '#' then c.skipWhile (!isBreak ·) else c
    match c.lineBreak? with
    | some (_, c') => .ok (.again true c')
    | none => .ok (.done brokeLine c)) false
  return { s with cursor := c, allowKey := s.allowKey || (brokeLine && !s.inFlow) }

/-- What opens a flow collection may start a key, and a key may start behind it. -/
def openFlow (s : Scanner) (t : Token) : Except YamlError Scanner := do
  let s ← s.saveKey
  return { s.emitIndicator 1 t with keys := none :: s.keys, allowKey := true }

/-- Close a flow collection. Outside one the token stands on its own, which no document allows. -/
def closeFlow (s : Scanner) (t : Token) : Except YamlError Scanner := do
  let s ← s.dropKey
  if s.inFlow then
    return { s.emitIndicator 1 t with keys := s.keys.drop 1, allowKey := false }
  else .error .malformed

def blockEntry (s : Scanner) : Except YamlError Scanner := do
  if !s.inFlow && !s.allowKey then .error .malformed
  let s := if s.inFlow then s
    else s.openBlock s.cursor.column s.tokens.length .blockSequenceStart
  let s ← { s with allowKey := true }.dropKey
  return s.emitIndicator 1 .blockEntry

def markedKey (s : Scanner) : Except YamlError Scanner := do
  if !s.inFlow && !s.allowKey then .error .malformed
  let s := if s.inFlow then s
    else s.openBlock s.cursor.column s.tokens.length .blockMappingStart
  let s ← { s with allowKey := !s.inFlow }.dropKey
  return s.emitIndicator 1 .key

/-- A value. If a simple key may have started on this level, it did, and its token is put in now. -/
def mappingValue (s : Scanner) : Except YamlError Scanner := do
  match s.keys with
  | some k :: keys =>
    let s := { s with keys := none :: keys }.emitAt k.before .key
    let s := if s.inFlow then s else s.openBlock k.column k.before .blockMappingStart
    return { s.emitIndicator 1 .value with allowKey := false }
  | _ =>
    if !s.inFlow && !s.allowKey then .error .malformed
    let s := if s.inFlow then s
      else s.openBlock s.cursor.column s.tokens.length .blockMappingStart
    let s ← { s with allowKey := !s.inFlow }.dropKey
    return s.emitIndicator 1 .value

/-- A token that may be a simple key, given by what is read at the cursor. -/
def keyToken {α : Type} (s : Scanner) (read : Cursor → Except YamlError (α × Cursor))
    (token : α → Token) : Except YamlError Scanner := do
  let s ← s.saveKey
  let (a, c) ← read s.cursor
  return { s.emit (token a) with cursor := c, allowKey := false }

/-- A mark or directive that ends everything that is open. -/
def documentMark (s : Scanner) : Except YamlError Scanner := do
  let s ← (s.unwind (-1)).dropKey
  return { s with allowKey := false }

/-- May a plain scalar start here? -/
def startsPlain (s : Scanner) (ch : Char) : Bool :=
  let indicators := ['-', '?', ':', ',', '[', ']', '\x7b', '\x7d', '#', '&', '*', '!', '|', '>',
    '\'', '"', '%', '@', '\x60']
  !(endsWord (some ch) || indicators.contains ch)
    || (!endsWord (s.cursor.peekAt 1) && (ch == '-' || (!s.inFlow && (ch == '?' || ch == ':'))))

/-- A plain scalar. A key may start behind it only if it ends on a line of its own. -/
def plain (s : Scanner) : Except YamlError Scanner := do
  let s ← s.saveKey
  let ((text, brokeLine), c) ← plainScalar s.inFlow s.indent s.cursor
  return { s.emit (.scalar true (String.ofList text)) with cursor := c, allowKey := brokeLine }

def block (s : Scanner) (folded : Bool) : Except YamlError Scanner := do
  let s ← { s with allowKey := true }.dropKey
  let (text, c) ← blockScalar folded s.indent s.cursor
  return { s.emit (.scalar false (String.ofList text)) with cursor := c }

def fetchAt (s : Scanner) (ch : Char) : Except YamlError Scanner := do
  let c := s.cursor
  let follows := endsWord (c.peekAt 1)
  if ch == '%' && c.column == 0 then
    let s ← s.documentMark
    let (d, c) ← directive s.cursor
    return { s.emit (.directive d) with cursor := c }
  else if c.column == 0 && ch == '-' && c.atDocumentMark then
    return (← s.documentMark).emitIndicator 3 .documentStart
  else if c.column == 0 && ch == '.' && c.atDocumentMark then
    return (← s.documentMark).emitIndicator 3 .documentEnd
  else match ch with
    | '[' => s.openFlow .flowSequenceStart
    | '\x7b' => s.openFlow .flowMappingStart
    | ']' => s.closeFlow .flowSequenceEnd
    | '\x7d' => s.closeFlow .flowMappingEnd
    | ',' => return (← { s with allowKey := true }.dropKey).emitIndicator 1 .flowEntry
    | '*' => s.keyToken anchorName .alias
    | '&' => s.keyToken anchorName .anchor
    | '!' => s.keyToken tag .tag
    | '\'' => s.keyToken (quotedScalar false) fun text => .scalar false (String.ofList text)
    | '"' => s.keyToken (quotedScalar true) fun text => .scalar false (String.ofList text)
    | _ =>
      if ch == '-' && follows then s.blockEntry
      else if ch == '?' && (s.inFlow || follows) then s.markedKey
      else if ch == ':' && (s.inFlow || follows) then s.mappingValue
      else if ch == '|' && !s.inFlow then s.block false
      else if ch == '>' && !s.inFlow then s.block true
      else if s.startsPlain ch then s.plain
      else .error .malformed

/-- Bring the state to the next token, with the collections closed that end before it. -/
def toNext (s : Scanner) : Except YamlError Scanner := do
  let s ← (← s.passBlanks).dropStale
  return s.unwind s.cursor.column

/-- Close what is open at the end of the text. -/
def finish (s : Scanner) : Except YamlError (List Token) := do
  let s ← (s.unwind (-1)).dropKey
  return s.tokens

/-- All tokens from a state on. Every token is behind the last one. -/
def run (s : Scanner) : Except YamlError (List Token) :=
  match s.toNext with
  | .error e => .error e
  | .ok s' =>
    match s'.cursor.peek with
    | none => s'.finish
    | some ch =>
      match s'.fetchAt ch with
      | .error e => .error e
      | .ok s'' =>
        if s''.cursor.rest.length < s.cursor.rest.length then run s'' else .error .malformed
termination_by s.cursor.rest.length

end Scanner

def tokens (text : List Char) : Except YamlError (List Token) :=
  if text.all isAllowed then (Scanner.start text).run else .error .malformed

end IdlFront.Yaml
