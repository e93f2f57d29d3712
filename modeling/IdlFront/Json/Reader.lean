import IdlFront.Json.Lexical

/-! # Reading JSON text

Tokens drive a machine whose stack holds the arrays and objects that are still open:

* `Json.Frame` — an open array or object with what has been read of it.
* `Json.Stage` — what the machine waits for.
* `Json.Machine.step` — one token.
* `Json.read?` — the value of a text.
-/

namespace IdlFront.Json

/-! ## The machine -/

/-- An open container: the items so far, or the fields so far and the key whose value comes next. -/
inductive Frame where
  | array (items : List Json)
  | object (fields : Fields) (key : String)

/-- What may come next. `value` is the start of a value; `firstItem` and `firstKey` follow an opening
    bracket or brace, which may also be closed at once; `key` and `colon` are inside the fields so
    far; `done` follows a complete value. -/
inductive Stage where
  | value
  | firstItem
  | firstKey
  | key (fields : Fields)
  | colon (fields : Fields) (key : String)
  | done (value : Json)

/-- The open containers, the innermost first, and the stage. -/
structure Machine where
  stack : List Frame
  stage : Stage

namespace Machine

def start : Machine := ⟨[], .value⟩

def startValue? (stack : List Frame) : Token → Option Machine
  | .lbracket => some ⟨stack, .firstItem⟩
  | .lbrace => some ⟨stack, .firstKey⟩
  | .scalar v => some ⟨stack, .done v⟩
  | .string s => some ⟨stack, .done (.string s)⟩
  | _ => none

/-- The machine after a token, `none` if the token cannot stand here. -/
def step? (m : Machine) (t : Token) : Option Machine :=
  match m.stage, t with
  | .value, t => startValue? m.stack t
  | .firstItem, .rbracket => some ⟨m.stack, .done (.array [])⟩
  | .firstItem, t => startValue? (.array [] :: m.stack) t
  | .firstKey, .rbrace => some ⟨m.stack, .done (.object [])⟩
  | .firstKey, .string k => some ⟨m.stack, .colon [] k⟩
  | .key fields, .string k => some ⟨m.stack, .colon fields k⟩
  | .colon fields k, .colon => some ⟨.object fields k :: m.stack, .value⟩
  | .done v, t =>
    match m.stack, t with
    | .array items :: stack, .comma => some ⟨.array (items ++ [v]) :: stack, .value⟩
    | .array items :: stack, .rbracket => some ⟨stack, .done (.array (items ++ [v]))⟩
    | .object fields k :: stack, .comma => some ⟨stack, .key (fields.put k v)⟩
    | .object fields k :: stack, .rbrace => some ⟨stack, .done (.object (fields.put k v))⟩
    | _, _ => none
  | _, _ => none

def run? (m : Machine) : List Token → Option Machine
  | [] => some m
  | t :: ts => (m.step? t).bind fun m' => run? m' ts

def result? (m : Machine) : Option Json :=
  match m.stack, m.stage with
  | [], .done v => some v
  | _, _ => none

end Machine

/-! ## Texts -/

/-- The value of JSON text, `none` if the text is not JSON. If an object repeats a key, the last value
    counts. -/
def read? (text : String) : Option Json :=
  (Token.split? text.toList).bind fun tokens => (Machine.start.run? tokens).bind Machine.result?

end IdlFront.Json
