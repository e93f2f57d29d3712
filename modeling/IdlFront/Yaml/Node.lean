import IdlFront.Yaml.Token

/-! # YAML documents as nodes

* `Yaml.Node` — a scalar, a sequence of nodes or a list of pairs of nodes, each with its tag.
* `Yaml.Composer` — reading nodes off tokens, with the anchors met so far and the tag handles of the
  document.
* `Yaml.document?` — the only document of a text, `none` if the text has none.

Every node of a collection needs a token of its own in front of it, so the number of tokens bounds the
depth of the recursion.
-/

namespace IdlFront.Yaml

/-! ## Nodes -/

/-- A node. The tag of a scalar without one depends on its text, if it is plain. -/
inductive Node where
  | scalar (tag : Option String) (plain : Bool) (text : String)
  | sequence (tag : Option String) (items : List Node)
  | mapping (tag : Option String) (pairs : List (Node × Node))

/-- The node of an entry that is left out. -/
def Node.absent : Node := .scalar none true ""

/-! ## Composers -/

/-- What is still to be read, and what has been defined. -/
structure Composer where
  tokens : List Token
  anchors : List (String × Node)
  handles : List (String × String)

abbrev Compose (α : Type) := EStateM YamlError Composer α

namespace Composer

def defaultHandles : List (String × String) := [("!", "!"), ("!!", "tag:yaml.org,2002:")]

def peek : Compose (Option Token) := fun s => .ok s.tokens.head? s

def skip : Compose Unit := fun s => .ok () { s with tokens := s.tokens.drop 1 }

/-- Is the next token one of these? -/
def nextIs (ts : List Token) : Compose Bool := do
  return match ← peek with
    | some t => ts.contains t
    | none => false

/-- Pass over the next token if it is this one, and tell whether it was. -/
def accept (t : Token) : Compose Bool := do
  if ← nextIs [t] then
    skip
    return true
  else return false

/-- Pass over the next token, which has to be this one. -/
def expect (t : Token) : Compose Unit := do
  if !(← accept t) then throw .malformed

/-! ## Properties -/

/-- The full tag that a tag token stands for. -/
def resolveTag (t : TagToken) : Compose String := fun s =>
  match t.handle with
  | none => .ok t.suffix s
  | some handle =>
    match s.handles.find? fun h => h.1 == handle with
    | some (_, start) => .ok (start ++ t.suffix) s
    | none => .error .malformed s

/-- An anchor, if one is next. -/
def anchor? : Compose (Option String) := do
  match ← peek with
  | some (.anchor name) =>
    skip
    return some name
  | _ => return none

/-- A tag, if one is next. -/
def tag? : Compose (Option String) := do
  match ← peek with
  | some (.tag t) =>
    skip
    return some (← resolveTag t)
  | _ => return none

/-- The anchor and the tag of a node, in either order. -/
def properties : Compose (Option String × Option String) := do
  match ← anchor? with
  | some a => return (some a, ← tag?)
  | none =>
    match ← tag? with
    | some t => return (← anchor?, some t)
    | none => return (none, none)

def remember (anchor : Option String) (n : Node) : Compose Node := fun s =>
  match anchor with
  | some name => .ok n { s with anchors := s.anchors ++ [(name, n)] }
  | none => .ok n s

def checkFresh (anchor : Option String) : Compose Unit := fun s =>
  match anchor with
  | some name =>
    if s.anchors.any fun a => a.1 == name then .error .malformed s else .ok () s
  | none => .ok () s

def aliased (name : String) : Compose Node := fun s =>
  match s.anchors.find? fun a => a.1 == name with
  | some (_, n) => .ok n s
  | none => .error .malformed s

/-! ## Nodes -/

/-- Where a node stands: in a block collection, as the value of a block mapping, where a sequence
    needs no further indentation, or in a flow collection. -/
inductive Place where
  | block | blockValue | flow
  deriving DecidableEq

/-- A node that is left out if one of some tokens is next. -/
def orAbsent (ends : List Token) (node : Compose Node) : Compose Node := do
  if ← nextIs ends then return .absent else node

mutual

/-- A node, by recursion on a bound of its depth. -/
def node : Nat → Place → Compose Node
  | 0, _ => throw .malformed
  | depth + 1, place => do
    match ← peek with
    | some (.alias name) =>
      skip
      aliased name
    | _ =>
      let (anchor, tag) ← properties
      checkFresh anchor
      let content ← content depth place tag (anchor.isSome || tag.isSome)
      remember anchor content

/-- What comes behind the properties of a node. -/
def content : Nat → Place → Option String → Bool → Compose Node
  | 0, _, _, _ => throw .malformed
  | depth + 1, place, tag, hasProperties => do
    match ← peek with
    | some (.scalar plain text) =>
      skip
      return .scalar tag plain text
    | some .flowSequenceStart =>
      skip
      return .sequence tag (← flowItems depth true)
    | some .flowMappingStart =>
      skip
      return .mapping tag (← flowPairs depth true)
    | some .blockEntry =>
      if place == .blockValue then return .sequence tag (← looseItems depth)
      else if hasProperties then return .scalar tag true ""
      else throw .malformed
    | some .blockSequenceStart =>
      if place == .flow then
        if hasProperties then return .scalar tag true "" else throw .malformed
      else
        skip
        return .sequence tag (← blockItems depth)
    | some .blockMappingStart =>
      if place == .flow then
        if hasProperties then return .scalar tag true "" else throw .malformed
      else
        skip
        return .mapping tag (← blockPairs depth)
    | _ => if hasProperties then return .scalar tag true "" else throw .malformed

/-- The items of a block sequence and its end. -/
def blockItems : Nat → Compose (List Node)
  | 0 => throw .malformed
  | depth + 1 => do
    if ← accept .blockEntry then
      let item ← orAbsent [.blockEntry, .blockEnd] (node depth .block)
      return item :: (← blockItems depth)
    else
      expect .blockEnd
      return []

/-- The items of a sequence that is not indented further than the mapping around it. -/
def looseItems : Nat → Compose (List Node)
  | 0 => throw .malformed
  | depth + 1 => do
    if ← accept .blockEntry then
      let item ← orAbsent [.blockEntry, .key, .value, .blockEnd] (node depth .block)
      return item :: (← looseItems depth)
    else return []

/-- The pairs of a block mapping and its end. -/
def blockPairs : Nat → Compose (List (Node × Node))
  | 0 => throw .malformed
  | depth + 1 => do
    let ends := [Token.key, .value, .blockEnd]
    if ← accept .key then
      let k ← orAbsent ends (node depth .blockValue)
      let v ← if ← accept .value then orAbsent ends (node depth .blockValue) else pure .absent
      return (k, v) :: (← blockPairs depth)
    else
      expect .blockEnd
      return []

/-- The value in a pair of a flow collection, if there is one. -/
def flowValue : Nat → List Token → Compose Node
  | 0, _ => throw .malformed
  | depth + 1, ends => do
    if ← accept .value then orAbsent ends (node depth .flow) else return .absent

/-- The items of a flow sequence and its end. A pair may stand for a mapping of one pair. -/
def flowItems : Nat → Bool → Compose (List Node)
  | 0, _ => throw .malformed
  | depth + 1, first => do
    if ← accept .flowSequenceEnd then return []
    else
      if !first then expect .flowEntry
      if ← accept .key then
        let k ← orAbsent [.value, .flowEntry, .flowSequenceEnd] (node depth .flow)
        let v ← flowValue depth [.flowEntry, .flowSequenceEnd]
        return .mapping none [(k, v)] :: (← flowItems depth false)
      else if ← accept .flowSequenceEnd then return []
      else
        let item ← node depth .flow
        return item :: (← flowItems depth false)

/-- The pairs of a flow mapping and its end. -/
def flowPairs : Nat → Bool → Compose (List (Node × Node))
  | 0, _ => throw .malformed
  | depth + 1, first => do
    if ← accept .flowMappingEnd then return []
    else
      if !first then expect .flowEntry
      if ← accept .key then
        let k ← orAbsent [.value, .flowEntry, .flowMappingEnd] (node depth .flow)
        let v ← flowValue depth [.flowEntry, .flowMappingEnd]
        return (k, v) :: (← flowPairs depth false)
      else if ← accept .flowMappingEnd then return []
      else
        let k ← node depth .flow
        return (k, .absent) :: (← flowPairs depth false)

end

/-! ## Documents -/

/-- The directives in front of a document. The version and every handle may be set once. -/
def directives : Nat → Bool → List String → Compose Unit
  | 0, _, _ => throw .malformed
  | bound + 1, versioned, set => do
    match ← peek with
    | some (.directive d) =>
      skip
      match d with
      | .version major =>
        if versioned || major != 1 then throw .malformed
        directives bound true set
      | .tag handle start =>
        if set.contains handle then throw .malformed
        modify fun s => { s with handles := (handle, start) :: s.handles }
        directives bound versioned (handle :: set)
      | .other => directives bound versioned set
    | _ => return ()

/-- The root of the next document, if there is one. A document without directives and start mark is
    allowed only where the text begins. -/
def root? (bound : Nat) : Compose (Option Node) := do
  match ← peek with
  | none => return none
  | some (.directive _) | some .documentStart =>
    directives (bound + 1) false []
    expect .documentStart
    match ← peek with
    | none | some (.directive _) | some .documentStart | some .documentEnd => return some .absent
    | _ => return some (← node bound .block)
  | some _ => return some (← node bound .block)

def endMarks : Nat → Compose Unit
  | 0 => return ()
  | bound + 1 => do if ← accept .documentEnd then endMarks bound

end Composer

/-- The root of the only document of a text, `none` if the text has no document. -/
def document? (text : List Char) : Except YamlError (Option Node) := do
  let ts ← tokens text
  let bound := 4 * ts.length + 4
  let read : Compose (Option Node) := do
    let root ← Composer.root? bound
    Composer.endMarks ts.length
    if (← Composer.peek).isSome then throw .malformed
    return root
  match read ⟨ts, [], Composer.defaultHandles⟩ with
  | .ok root _ => return root
  | .error e _ => .error e

end IdlFront.Yaml
