import IdlFront.Number.Binary64

/-! # Checking data against a schema

Reading a record from data either gives the record or every fault of the data:

* `Fault` — what is wrong and where in the data.
* `Checked` — a value or faults. Independent parts are combined by `<*>`, which keeps the faults of
  all of them in order.
* `Scalar` — the scalars of data formats, with the lenient conversions `toText`, `toInteger` and
  `toBool` that a schema allows.
-/

namespace IdlFront

/-! ## Faults -/

/-- The ways in which data can fail a schema. -/
inductive FaultKind where
  | missing
  | modelType
  | listType
  | stringType
  | literalError
  | enumError
  | modelAttributesType
  | unionTagNotFound
  | unionTagInvalid
  | intType
  | intParsing
  | intFromFloat
  | finiteNumber
  | boolType
  | boolParsing
  | greaterThanEqual
  | extraForbidden
  | invalidKey
  | valueError (message : String)
  deriving DecidableEq, Repr

def FaultKind.code : FaultKind → String
  | .missing => "missing"
  | .modelType => "model_type"
  | .listType => "list_type"
  | .stringType => "string_type"
  | .literalError => "literal_error"
  | .enumError => "enum"
  | .modelAttributesType => "model_attributes_type"
  | .unionTagNotFound => "union_tag_not_found"
  | .unionTagInvalid => "union_tag_invalid"
  | .intType => "int_type"
  | .intParsing => "int_parsing"
  | .intFromFloat => "int_from_float"
  | .finiteNumber => "finite_number"
  | .boolType => "bool_type"
  | .boolParsing => "bool_parsing"
  | .greaterThanEqual => "greater_than_equal"
  | .extraForbidden => "extra_forbidden"
  | .invalidKey => "invalid_key"
  | .valueError _ => "value_error"

/-- The words that come with a fault, where the schema has its own. -/
def FaultKind.message? : FaultKind → Option String
  | .valueError message => some ("Value error, " ++ message)
  | _ => none

/-- A step from data into a part of it. -/
inductive DataStep where
  | key (name : String)
  | index (i : Int)
  deriving DecidableEq, Repr

/-- A fault and the way to the faulty part. -/
structure Fault where
  path : List DataStep
  kind : FaultKind
  deriving DecidableEq, Repr

def DataStep.render : DataStep → String
  | .key name => name
  | .index i => toString i

def Fault.render (f : Fault) : String :=
  ".".intercalate (f.path.map DataStep.render) ++ ": " ++ f.kind.message?.getD f.kind.code

/-! ## Checked values -/

/-- The outcome of a check: a value, or all faults. -/
inductive Checked (α : Type) where
  | ok (value : α)
  | faulty (faults : List Fault)

namespace Checked

variable {α β : Type}

instance : Functor Checked where
  map f
    | .ok a => .ok (f a)
    | .faulty fs => .faulty fs

instance : Applicative Checked where
  pure := .ok
  seq f x :=
    match f, x () with
    | .ok f, .ok a => .ok (f a)
    | .ok _, .faulty fs => .faulty fs
    | .faulty fs, .ok _ => .faulty fs
    | .faulty fs, .faulty gs => .faulty (fs ++ gs)

def fail (kind : FaultKind) : Checked α := .faulty [⟨[], kind⟩]

/-- The outcome of a check of a part, for the whole. -/
def within (step : DataStep) : Checked α → Checked α
  | .ok a => .ok a
  | .faulty fs => .faulty (fs.map fun f => { f with path := step :: f.path })

def andThen (f : α → Checked β) : Checked α → Checked β
  | .ok a => f a
  | .faulty fs => .faulty fs

/-- The outcomes of the items of a list, from an index on. -/
def items (i : Nat) : List (Checked α) → Checked (List α)
  | [] => .ok []
  | x :: xs => List.cons <$> x.within (.index i) <*> items (i + 1) xs

def toExcept : Checked α → Except (List Fault) α
  | .ok a => .ok a
  | .faulty fs => .error fs

end Checked

/-! ## Scalars -/

/-- A piece of data seen as a scalar. -/
inductive Scalar where
  | null
  | bool (b : Bool)
  | integer (n : Int)
  | real (x : Binary64)
  | text (s : String)
  | other
  deriving DecidableEq, Repr

def isSpace (c : Char) : Bool :=
  let n := c.toNat
  (0x09 ≤ n && n ≤ 0x0d) || n == 0x20 || n == 0x85 || n == 0xa0 || n == 0x1680
    || (0x2000 ≤ n && n ≤ 0x200a) || n == 0x2028 || n == 0x2029 || n == 0x202f || n == 0x205f
    || n == 0x3000

def trimmed (cs : List Char) : List Char :=
  ((cs.dropWhile isSpace).reverse.dropWhile isSpace).reverse

/-- The number that digits denote, with single underscores between digits. `value` is what has been
    read, and the text before this one ended with a digit if `afterDigit`. -/
def groupedDigits? (value : Nat) (afterDigit : Bool) : List Char → Option Nat
  | [] => if afterDigit then some value else none
  | '_' :: cs => if afterDigit then groupedDigits? value false cs else none
  | c :: cs =>
    if '0' ≤ c ∧ c ≤ '9' then groupedDigits? (value * 10 + (c.toNat - '0'.toNat)) true cs else none

/-- A numeral without its fraction, which may hold zeros only. -/
def withoutZeroFraction? (cs : List Char) : Option (List Char) :=
  let whole := cs.takeWhile (· != '.')
  match cs.drop whole.length with
  | [] => some whole
  | _ :: fraction => if !fraction.isEmpty && fraction.all (· == '0') then some whole else none

/-- The integer that a text denotes: an optional sign, digits, and perhaps a fraction of zeros. -/
def integerText? (s : String) : Option Int := do
  let cs := trimmed s.toList
  let (negative, digits) := match cs with
    | '-' :: rest => (true, rest)
    | '+' :: rest => (false, rest)
    | rest => (false, rest)
  let whole ← withoutZeroFraction? digits
  let n ← groupedDigits? 0 false whole
  return if negative then -(n : Int) else n

def trueWords : List String := ["1", "true", "t", "yes", "y", "on"]

def falseWords : List String := ["0", "false", "f", "no", "n", "off"]

namespace Scalar

/-- The data as a text, which it has to be. -/
def toText : Scalar → Checked String
  | .text s => .ok s
  | _ => .fail .stringType

/-- The data as an integer. Truth values, whole doubles and numerals count as integers. -/
def toInteger : Scalar → Checked Int
  | .integer n => .ok n
  | .bool b => .ok (if b then 1 else 0)
  | .real x =>
    match x.toInt? with
    | some n => .ok n
    | none => .fail (if x.isFinite then .intFromFloat else .finiteNumber)
  | .text s =>
    match integerText? s with
    | some n => .ok n
    | none => .fail .intParsing
  | _ => .fail .intType

/-- The data as a truth value. The numbers zero and one and some words count as such. -/
def toBool : Scalar → Checked Bool
  | .bool b => .ok b
  | .integer n => if n = 0 then .ok false else if n = 1 then .ok true else .fail .boolParsing
  | .real x =>
    match x.toInt? with
    | some 0 => .ok false
    | some 1 => .ok true
    | _ => .fail .boolType
  | .text s =>
    if s.toLower ∈ trueWords then .ok true
    else if s.toLower ∈ falseWords then .ok false
    else .fail .boolParsing
  | _ => .fail .boolType

end Scalar

end IdlFront
