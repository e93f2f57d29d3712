import IdlFront.Yaml.Cursor
import IdlFront.Unicode.Category

/-! # Scalars in YAML text

The three ways to write a scalar, each read at a cursor that stands at its first character:

* `Yaml.quotedScalar` — in single or double quotes.
* `Yaml.blockScalar` — literal or folded lines below a header.
* `Yaml.plainScalar` — without any mark.

Lines inside a scalar are folded: a single break counts as a blank, further ones as themselves.
-/

namespace IdlFront.Yaml

open Cursor

def isSpaceOrTab (c : Char) : Bool := c == ' ' || c == '\t'

/-- What a fold of lines becomes: the first break, if it is a line feed, gives way to those after it,
    or to a blank if there are none. -/
def foldBreaks (first : Char) (more : List Char) : List Char :=
  if first != '\n' then first :: more
  else if more.isEmpty then [' ']
  else more

/-! ## Quoted scalars -/

/-- The breaks of blank lines, up to the first line with content. A document mark is an error there. -/
def quotedBreaks (c : Cursor) : Except YamlError (List Char × Cursor) :=
  loop (fun breaks c =>
    if c.atDocumentMark then .error .malformed
    else
      let c := c.skipWhile isSpaceOrTab
      match c.lineBreak? with
      | some (b, c') => .ok (.again (breaks ++ [b]) c')
      | none => .ok (.done breaks c)) [] c

/-- The character of an escape of one letter in double quotes. -/
def escapeChar? : Char → Option Char
  | '0' => some '\x00'
  | 'a' => some '\x07'
  | 'b' => some '\x08'
  | 't' => some '\x09'
  | '\t' => some '\x09'
  | 'n' => some '\x0a'
  | 'v' => some '\x0b'
  | 'f' => some '\x0c'
  | 'r' => some '\x0d'
  | 'e' => some '\x1b'
  | ' ' => some ' '
  | '"' => some '"'
  | '\\' => some '\\'
  | '/' => some '/'
  | 'N' => some '\u0085'
  | '_' => some '\u00a0'
  | 'L' => some '\u2028'
  | 'P' => some '\u2029'
  | _ => none

def escapeDigits? : Char → Option Nat
  | 'x' => some 2
  | 'u' => some 4
  | 'U' => some 8
  | _ => none

def isHex (c : Char) : Bool :=
  ('0' ≤ c && c ≤ '9') || ('a' ≤ c && c ≤ 'f') || ('A' ≤ c && c ≤ 'F')

/-- An escape in double quotes, at the cursor behind its backslash. -/
def escapeSequence (c : Cursor) : Except YamlError (List Char × Cursor) :=
  match c.peek with
  | none => .error .malformed
  | some e =>
    match escapeChar? e with
    | some ch => .ok ([ch], c.next)
    | none =>
      match escapeDigits? e with
      | some n =>
        let digits := c.next.rest.take n
        if digits.length == n && digits.all isHex then
          let value := digits.foldl (fun v d => v * 16 + Unicode.hexValue d) 0
          if value < 0x110000 then .ok ([Char.ofNat value], c.next.skip n)
          else .error (.flaw (.noCharacter value))
        else .error .malformed
      | none =>
        match c.lineBreak? with
        | some (_, c') => quotedBreaks c'
        | none => .error .malformed

/-- One step inside quotes: a run of characters, a blank stretch, an escape, or the closing quote. -/
def quotedTurn (double : Bool) (text : List Char) (c : Cursor) :
    Except YamlError (Turn (List Char)) :=
  match c.peek with
  | none => .error .malformed
  | some ch =>
    if isSpaceOrTab ch || isBreak ch then do
      let blanks := c.run isSpaceOrTab
      let behind := c.skip blanks.length
      match behind.peek, behind.lineBreak? with
      | none, _ => .error .malformed
      | some _, none => return .again (text ++ blanks) behind
      | some _, some (first, c') =>
        let (more, c'') ← quotedBreaks c'
        return .again (text ++ foldBreaks first more) c''
    else if ch == '\'' && !double then
      if c.peekAt 1 == some '\'' then .ok (.again (text ++ ['\'']) (c.skip 2))
      else .ok (.done text c.next)
    else if ch == '"' && double then .ok (.done text c.next)
    else if ch == '\\' && double then do
      let (chars, c') ← escapeSequence c.next
      return .again (text ++ chars) c'
    else .ok (.again (text ++ [ch]) c.next)

def quotedScalar (double : Bool) (c : Cursor) : Except YamlError (List Char × Cursor) :=
  loop (quotedTurn double) [] c.next

/-! ## Block scalars -/

/-- What happens to the breaks at the end of a block scalar. -/
inductive Chomping where
  | clip | strip | keep
  deriving DecidableEq, Repr

def chomping? : Option Char → Option Chomping
  | some '+' => some .keep
  | some '-' => some .strip
  | _ => none

/-- The indentation that an indicator stands for, which may not be zero. -/
def increment? : Option Char → Except YamlError (Option Nat)
  | some d =>
    if '1' ≤ d && d ≤ '9' then .ok (some (d.toNat - '0'.toNat))
    else if d == '0' then .error .malformed
    else .ok none
  | none => .ok none

/-- The header of a block scalar behind its mark: chomping and indentation, in either order. -/
def blockHeader (c : Cursor) : Except YamlError ((Chomping × Option Nat) × Cursor) := do
  let (indicators, c) ← match chomping? c.peek with
    | some chomp => do
      let increment ← increment? c.next.peek
      pure ((chomp, increment), c.next.skip increment.toList.length)
    | none => do
      let increment ← increment? c.peek
      if increment.isSome then
        match chomping? c.next.peek with
        | some chomp => pure ((chomp, increment), c.skip 2)
        | none => pure ((Chomping.clip, increment), c.next)
      else pure ((Chomping.clip, none), c)
  if endsIndicator c.peek then return (indicators, c) else .error .malformed

def ignoredLine (c : Cursor) : Except YamlError Cursor :=
  let c := c.skipWhile (· == ' ')
  let c := if c.peek == some '#' then c.skipWhile (!isBreak ·) else c
  if endsLine c.peek then .ok ((c.lineBreak?.map Prod.snd).getD c) else .error .malformed

/-- Leading blank lines, with the largest indentation among them. -/
def leadingLines (c : Cursor) : Except YamlError ((List Char × Nat) × Cursor) :=
  loop (fun (breaks, deepest) c =>
    match c.lineBreak? with
    | some (b, c') => .ok (.again (breaks ++ [b], deepest) c')
    | none =>
      if c.peek == some ' ' then .ok (.again (breaks, max deepest c.next.column) c.next)
      else .ok (.done (breaks, deepest) c)) ([], 0) c

/-- The cursor after the blanks up to an indentation. -/
def indented (indent : Nat) (c : Cursor) : Cursor :=
  c.skip ((c.run (· == ' ')).take (indent - c.column)).length

/-- The breaks of blank lines, up to a line with content at an indentation. -/
def blockBreaks (indent : Nat) (c : Cursor) : Except YamlError (List Char × Cursor) :=
  loop (fun breaks c =>
    match c.lineBreak? with
    | some (b, c') => .ok (.again (breaks ++ [b]) (indented indent c'))
    | none => .ok (.done breaks c)) [] (indented indent c)

/-- A block scalar in progress: its text, the break after its last line, and those behind that. -/
structure BlockDraft where
  text : List Char
  last : List Char
  breaks : List Char

def blockTurn (folded : Bool) (indent : Nat) (d : BlockDraft) (c : Cursor) :
    Except YamlError (Turn BlockDraft) :=
  if c.column == indent && c.peek.isSome then do
    let startsVisibly := !(c.peek.map isSpaceOrTab).getD false
    let line := c.run (!isBreak ·)
    let text := d.text ++ d.breaks ++ line
    let behind := c.skip line.length
    let (last, c') := match behind.lineBreak? with
      | some (b, c') => ([b], c')
      | none => ([], behind)
    let (breaks, c'') ← blockBreaks indent c'
    if c''.column == indent && c''.peek.isSome then
      let joins := folded && last == ['\n'] && startsVisibly && !(c''.peek.map isSpaceOrTab).getD false
      let glue := if joins then (if breaks.isEmpty then [' '] else []) else last
      return .again ⟨text ++ glue, last, breaks⟩ c''
    else
      return .done ⟨text, last, breaks⟩ c''
  else .ok (.done d c)

/-- A block scalar in a collection at an indentation. -/
def blockScalar (folded : Bool) (parent : Int) (c : Cursor) :
    Except YamlError (List Char × Cursor) := do
  let ((chomping, increment), c) ← blockHeader c.next
  let c ← ignoredLine c
  let least := (max 1 (parent + 1)).toNat
  let (indent, breaks, c) ← match increment with
    | none => do
      let ((breaks, deepest), c) ← leadingLines c
      pure (max least deepest, breaks, c)
    | some n => do
      let indent := least + n - 1
      let (breaks, c) ← blockBreaks indent c
      pure (indent, breaks, c)
  let (d, c) ← loop (blockTurn folded indent) ⟨[], [], breaks⟩ c
  let tail := match chomping with
    | .strip => []
    | .clip => d.last
    | .keep => d.last ++ d.breaks
  return (d.text ++ tail, c)

/-! ## Plain scalars -/

/-- The marks that end a plain scalar in a flow collection. -/
def isFlowMark (c : Char) : Bool :=
  c == ',' || c == '[' || c == ']' || c == '\x7b' || c == '\x7d'

def plainWord (inFlow : Bool) : List Char → List Char
  | [] => []
  | c :: cs =>
    if endsWord (some c) then []
    else if c == ':' && (endsWord cs.head? || (inFlow && (cs.head?.map isFlowMark).getD false)) then []
    else if inFlow && (isFlowMark c || c == '?') then []
    else c :: plainWord inFlow cs

/-- What separates two words of a plain scalar: blanks, or a fold of lines. `none` at a document mark.
    The flag tells whether a line was ended. -/
structure PlainGap where
  glue : Option (List Char)
  brokeLine : Bool

/-- The gap at a cursor behind a word. -/
def plainGap (c : Cursor) : Except YamlError (PlainGap × Cursor) := do
  let blanks := c.run (· == ' ')
  let behind := c.skip blanks.length
  match behind.lineBreak? with
  | none => return (⟨some blanks, false⟩, behind)
  | some (first, c') =>
    if c'.atDocumentMark then return (⟨none, true⟩, c')
    let (more, c'') ← loop (fun more c =>
      match more with
      | none => .ok (.done none c)
      | some breaks =>
        if c.peek == some ' ' then .ok (.again (some breaks) c.next)
        else
          match c.lineBreak? with
          | some (b, c') =>
            if c'.atDocumentMark then .ok (.done none c') else .ok (.again (some (breaks ++ [b])) c')
          | none => .ok (.done (some breaks) c)) (some []) c'
    return (⟨more.map (foldBreaks first), true⟩, c'')

/-- A plain scalar in progress: its text, the glue in front of the next word, and whether a line has
    ended since the last word. -/
structure PlainDraft where
  text : List Char
  glue : List Char
  brokeLine : Bool

def plainTurn (inFlow : Bool) (indent : Int) (d : PlainDraft) (c : Cursor) :
    Except YamlError (Turn PlainDraft) :=
  if c.peek == some '#' then .ok (.done d c)
  else
    let word := plainWord inFlow c.rest
    if word.isEmpty then .ok (.done d c)
    else do
      let text := d.text ++ d.glue ++ word
      let (gap, c') ← plainGap (c.skip word.length)
      match gap.glue with
      | none => return .done ⟨text, [], gap.brokeLine⟩ c'
      | some glue =>
        if glue.isEmpty || c'.peek == some '#' || (!inFlow && (c'.column : Int) < indent) then
          return .done ⟨text, glue, gap.brokeLine⟩ c'
        else
          return .again ⟨text, glue, gap.brokeLine⟩ c'

/-- A plain scalar in a collection at an indentation; it tells whether the cursor behind it is on a
    line of its own. -/
def plainScalar (inFlow : Bool) (parent : Int) (c : Cursor) :
    Except YamlError ((List Char × Bool) × Cursor) := do
  let (d, c) ← loop (plainTurn inFlow (parent + 1)) ⟨[], [], false⟩ c
  return ((d.text, d.brokeLine), c)

end IdlFront.Yaml
