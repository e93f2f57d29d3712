import IdlFront.Yaml.Node
import IdlFront.Number.Binary64

/-! # YAML values

Plain scalars are texts unless their form says otherwise; the forms are those of YAML 1.1:

* `Yaml.Value` — the value of a node.
* `Yaml.scalarValue` — the value of a plain scalar: `yes` and `on` are truth values, `010` is octal,
  `1:30` counts in sixties, `~` is null.
* `Yaml.read` — the value of a text, null if it has no document.
-/

namespace IdlFront.Yaml

/-- The value of a node. The pairs of a mapping keep their order. -/
inductive Value where
  | null
  | bool (b : Bool)
  | integer (n : Int)
  | real (x : Binary64)
  | text (s : String)
  | timestamp (s : String)
  | sequence (items : List Value)
  | mapping (pairs : List (Value × Value))
  deriving Inhabited

/-! ## Forms of plain scalars -/

def isDecimal (c : Char) : Bool := '0' ≤ c && c ≤ '9'

/-- Are all characters of these kinds, and is there one? -/
def isRun (p : Char → Bool) (cs : List Char) : Bool := !cs.isEmpty && cs.all p

/-- A sign at the front, as whether it is a minus, and what is behind it. -/
def splitSign : List Char → Bool × List Char
  | '-' :: cs => (true, cs)
  | '+' :: cs => (false, cs)
  | cs => (false, cs)

def digitValue (c : Char) : Nat := Unicode.hexValue c

/-- The number that digits denote in a base; underscores do not count. -/
def numeralValue (base : Nat) (cs : List Char) : Nat :=
  (cs.filter (· != '_')).foldl (fun n c => n * base + digitValue c) 0

/-- The number that digits denote in a base, of which there has to be one. -/
def basedNumeral (base : Nat) (cs : List Char) : Except YamlError Nat :=
  if (cs.filter (· != '_')).isEmpty then .error (.flaw (.noDigits base))
  else .ok (numeralValue base cs)

def colonParts (cs : List Char) : List (List Char) :=
  match cs with
  | [] => [[]]
  | ':' :: rest => [] :: colonParts rest
  | c :: rest =>
    match colonParts rest with
    | part :: parts => (c :: part) :: parts
    | [] => [[c]]

/-- Is the text a count of minutes or seconds: one or two digits below sixty? -/
def isSixtieth : List Char → Bool
  | [c] => isDecimal c
  | [c, d] => '0' ≤ c && c ≤ '5' && isDecimal d
  | _ => false

/-- The number that its parts between colons denote, in base sixty. -/
def sixtiesValue (parts : List (List Char)) : Nat :=
  parts.foldl (fun n part => n * 60 + numeralValue 10 part) 0

/-- An integer behind its sign, `none` if the text has not the form of one. -/
def magnitude? (cs : List Char) : Option (Except YamlError Nat) :=
  match cs with
  | '0' :: 'b' :: digits =>
    if isRun (fun c => c == '0' || c == '1' || c == '_') digits then some (basedNumeral 2 digits)
    else none
  | '0' :: 'x' :: digits =>
    if isRun (fun c => isHex c || c == '_') digits then some (basedNumeral 16 digits) else none
  | ['0'] => some (.ok 0)
  | '0' :: digits =>
    if digits.all fun c => ('0' ≤ c && c ≤ '7') || c == '_' then some (.ok (numeralValue 8 digits))
    else none
  | c :: rest =>
    if isDecimal c then
      match colonParts rest with
      | [digits] =>
        if digits.all fun c => isDecimal c || c == '_' then some (.ok (numeralValue 10 cs)) else none
      | digits :: parts =>
        if (digits.all fun c => isDecimal c || c == '_') && parts.all isSixtieth then
          some (.ok (sixtiesValue ((c :: digits) :: parts)))
        else none
      | [] => none
    else none
  | [] => none

/-- An integer, `none` if the text has not the form of one. -/
def integer? (cs : List Char) : Option (Except YamlError Int) :=
  let (negative, digits) := splitSign cs
  (magnitude? digits).map fun n => n.map fun n => if negative then -(n : Int) else n

/-- The exponent of a number, which needs a sign. -/
def exponent? : List Char → Option Int
  | [] => some 0
  | e :: sign :: digits =>
    if (e == 'e' || e == 'E') && (sign == '+' || sign == '-') && isRun isDecimal digits then
      let n : Int := numeralValue 10 digits
      some (if sign == '-' then -n else n)
    else none
  | _ => none

/-- The double of digits before and behind a point and an exponent. -/
def double (negative : Bool) (whole fraction : List Char) (exponent : Int) : Value :=
  let fraction := fraction.filter (· != '_')
  .real (.ofDecimal negative (numeralValue 10 (whole ++ fraction)) (exponent - fraction.length))

/-- A number with a point, `none` if the text has not the form of one. -/
def real? (cs : List Char) : Option Value :=
  let (negative, body) := splitSign cs
  let isDigitOrMark (c : Char) : Bool := isDecimal c || c == '_'
  let whole := body.takeWhile isDigitOrMark
  match body.drop whole.length with
  | '.' :: behind =>
    let fraction := behind.takeWhile isDigitOrMark
    let tail := behind.drop fraction.length
    if (whole.head?.map isDecimal).getD false
        || (whole.isEmpty && (fraction.head?.map isDecimal).getD false && body == cs) then
      (exponent? tail).map (double negative whole fraction)
    else if ["inf", "Inf", "INF"].contains (String.ofList behind) && whole.isEmpty then
      some (.real (.infinite negative))
    else if ["nan", "NaN", "NAN"].contains (String.ofList behind) && whole.isEmpty && body == cs then
      some (.real .nan)
    else none
  | ':' :: _ =>
    let sixties := body.takeWhile (· != '.')
    match colonParts sixties, body.drop sixties.length with
    | first :: parts, '.' :: fraction =>
      if (first.head?.map isDecimal).getD false && first.all isDigitOrMark && parts.all isSixtieth
          && fraction.all isDigitOrMark then
        let digits := fraction.filter (· != '_')
        let scale := Nat.pow 10 digits.length
        some (.real (.ofRatio negative
          (sixtiesValue (first :: parts) * scale + numeralValue 10 digits) scale))
      else none
    | _, _ => none
  | _ => none

def isDate (cs : List Char) : Bool :=
  match cs with
  | [a, b, c, d, '-', e, f, '-', g, h] => [a, b, c, d, e, f, g, h].all isDecimal
  | _ => false

/-- One or two digits at the front, and what is behind them. -/
def shortNumber? (cs : List Char) : Option (List Char) :=
  let digits := (cs.take 2).takeWhile isDecimal
  if digits.isEmpty then none else some (cs.drop digits.length)

def behind? (c : Char) : List Char → Option (List Char)
  | d :: cs => if d == c then some cs else none
  | [] => none

/-- The text behind two digits at the front. -/
def behindTwo? (cs : List Char) : Option (List Char) :=
  if (cs.take 2).length == 2 && (cs.take 2).all isDecimal then some (cs.drop 2) else none

/-- Is the text the zone of a time: nothing, `Z`, or a signed offset, perhaps behind blanks? -/
def isZone (cs : List Char) : Bool :=
  match cs.dropWhile isSpaceOrTab with
  | [] => cs.isEmpty
  | ['Z'] => true
  | sign :: rest =>
    (sign == '+' || sign == '-') &&
      match shortNumber? rest with
      | some [] => true
      | some (':' :: minutes) => (behindTwo? minutes) == some []
      | _ => false

def isDateTime (cs : List Char) : Bool :=
  let timeOf? (cs : List Char) : Option (List Char) :=
    match cs with
    | 'T' :: rest | 't' :: rest => some rest
    | c :: rest => if isSpaceOrTab c then some (rest.dropWhile isSpaceOrTab) else none
    | [] => none
  let zone? : Option (List Char) := do
    let rest ← if (cs.take 4).length == 4 && (cs.take 4).all isDecimal then some (cs.drop 4) else none
    let rest ← shortNumber? (← behind? '-' rest)
    let rest ← shortNumber? (← behind? '-' rest)
    let rest ← shortNumber? (← timeOf? rest)
    let rest ← behindTwo? (← behind? ':' rest)
    let rest ← behindTwo? (← behind? ':' rest)
    match rest with
    | '.' :: rest => return rest.dropWhile isDecimal
    | rest => return rest
  (zone?.map isZone).getD false

/-! ## Times -/

/-- The numbers that the runs of digits in a text denote. -/
def digitRuns (cs : List Char) : List Nat :=
  ((cs.splitBy fun c d => isDecimal c == isDecimal d).filter (isRun isDecimal)).map (numeralValue 10)

def isLeap (year : Nat) : Bool := year % 4 == 0 && (year % 100 != 0 || year % 400 == 0)

def daysIn (year month : Nat) : Nat :=
  if month == 2 then (if isLeap year then 29 else 28)
  else if [4, 6, 9, 11].contains month then 30 else 31

/-- What is out of range in a text with the form of a time. -/
def timeFlaw? (cs : List Char) : Option Flaw :=
  let clockFlaw? : List Nat → Option Flaw
    | hour :: minute :: second :: _ =>
      if 23 < hour then some (.outOfRange "hour must be in 0..23")
      else if 59 < minute then some (.outOfRange "minute must be in 0..59")
      else if 59 < second then some (.outOfRange "second must be in 0..59")
      else none
    | _ => none
  match digitRuns cs with
  | year :: month :: day :: clock =>
    if year == 0 then some (.outOfRange "year 0 is out of range")
    else if month == 0 || 12 < month then some (.outOfRange "month must be in 1..12")
    else if day == 0 || daysIn year month < day then some (.outOfRange "day is out of range for month")
    else clockFlaw? clock
  | _ => none

/-! ## Scalars -/

def trueWords : List String :=
  ["yes", "Yes", "YES", "true", "True", "TRUE", "on", "On", "ON"]

def falseWords : List String :=
  ["no", "No", "NO", "false", "False", "FALSE", "off", "Off", "OFF"]

/-- The words for null, of which the empty one stands for an entry that is left out. -/
def nullWords : List String := ["", "~", "null", "Null", "NULL"]

def scalarValue (s : String) : Except YamlError Value :=
  let cs := s.toList
  if nullWords.contains s then .ok .null
  else if trueWords.contains s then .ok (.bool true)
  else if falseWords.contains s then .ok (.bool false)
  else if s == "<<" || s == "=" then .error .malformed
  else
    match real? cs with
    | some v => .ok v
    | none =>
      match integer? cs with
      | some n => n.map .integer
      | none =>
        if isDate cs || isDateTime cs then
          match timeFlaw? cs with
          | some flaw => .error (.flaw flaw)
          | none => .ok (.timestamp s)
        else .ok (.text s)

def coreTag (name : String) : String := "tag:yaml.org,2002:" ++ name

/-- The value of a scalar with a tag. A tag that the form of the text contradicts is a flaw, and one that
    stands for no kind of scalar is refused. -/
def taggedValue (tag s : String) : Except YamlError Value :=
  if tag == coreTag "str" then .ok (.text s)
  else if tag == coreTag "null" then .ok .null
  else if tag == coreTag "bool" then
    match scalarValue s with
    | .ok (.bool b) => .ok (.bool b)
    | _ => .error (.flaw (.noTruth s))
  else if tag == coreTag "int" then
    match scalarValue s with
    | .ok (.integer n) => .ok (.integer n)
    | _ => .error (.flaw (.noInteger s))
  else if tag == coreTag "float" then
    match scalarValue s with
    | .ok (.real x) => .ok (.real x)
    | .ok (.integer n) => .ok (.real (.ofInt n))
    | _ => .error (.flaw (.noReal s))
  else if tag == coreTag "timestamp" then
    match scalarValue s with
    | .error (.flaw flaw) => .error (.flaw flaw)
    | .ok (.timestamp t) => .ok (.timestamp t)
    | _ => .error (.flaw (.noTime s))
  else .error .malformed

/-! ## Nodes -/

def Value.isKey : Value → Bool
  | .sequence _ | .mapping _ => false
  | _ => true

mutual

def Value.same : Value → Value → Bool
  | .null, .null => true
  | .bool a, .bool b => a == b
  | .integer a, .integer b => a == b
  | .bool a, .integer b | .integer b, .bool a => b == if a then 1 else 0
  | .real a, .bool b | .bool b, .real a => a.toInt? == some (if b then 1 else 0)
  | .real a, .integer b | .integer b, .real a => a.toInt? == some b
  | .real a, .real b => a == b
  | .text a, .text b => a == b
  | .timestamp a, .timestamp b => a == b
  | .sequence as, .sequence bs => Value.sameAll as bs
  | _, _ => false

def Value.sameAll : List Value → List Value → Bool
  | [], [] => true
  | a :: as, b :: bs => a.same b && Value.sameAll as bs
  | _, _ => false

end

/-- Set a key: in the place it has, or at the end. -/
def putPair (key value : Value) : List (Value × Value) → List (Value × Value)
  | [] => [(key, value)]
  | (k, v) :: rest => if k.same key then (k, value) :: rest else (k, v) :: putPair key value rest

/-- Is the node the key that merges another mapping in? -/
def Node.isMerge : Node → Bool
  | .scalar none true "<<" => true
  | _ => false

/-- Is the node the key written as an equals sign, which is a text as a key only? -/
def Node.isEquals : Node → Bool
  | .scalar none true "=" => true
  | _ => false

/-- The pairs that the value of a merge key adds. -/
def mergedPairs : Value → Except YamlError (List (Value × Value))
  | .mapping pairs => .ok pairs
  | .sequence items =>
    items.reverse.foldlM (fun pairs item =>
      match item with
      | .mapping more => Except.ok (pairs ++ more)
      | _ => Except.error YamlError.malformed) []
  | _ => .error .malformed

mutual

def Node.value : Node → Except YamlError Value
  | .scalar none true text => scalarValue text
  | .scalar none false text => .ok (.text text)
  | .scalar (some tag) _ text => if tag == "!" then scalarValue text else taggedValue tag text
  | .sequence tag items => do
    if (tag.map fun t => t == "!" || t == coreTag "seq").getD true then
      return .sequence (← Node.values items)
    else .error .malformed
  | .mapping tag pairs => do
    if (tag.map fun t => t == "!" || t == coreTag "map").getD true then
      let (merged, own) ← Node.pairValues pairs
      return .mapping ((merged ++ own).foldl (fun ps p => putPair p.1 p.2 ps) [])
    else .error .malformed

def Node.values : List Node → Except YamlError (List Value)
  | [] => .ok []
  | n :: ns => do
    let v ← n.value
    return v :: (← Node.values ns)

/-- The values of several pairs: those of merge keys, and the others. -/
def Node.pairValues :
    List (Node × Node) → Except YamlError (List (Value × Value) × List (Value × Value))
  | [] => .ok ([], [])
  | (k, n) :: rest => do
    if k.isMerge then
      let more ← mergedPairs (← n.value)
      let (merged, own) ← Node.pairValues rest
      return (more ++ merged, own)
    else
      let key ← if k.isEquals then pure (Value.text "=") else k.value
      if !key.isKey then .error .malformed
      let v ← n.value
      let (merged, own) ← Node.pairValues rest
      return (merged, (key, v) :: own)

end

def read (text : String) : Except YamlError Value := do
  match ← document? text.toList with
  | some n => n.value
  | none => return .null

end IdlFront.Yaml
