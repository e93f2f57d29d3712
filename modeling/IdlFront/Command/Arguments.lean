import IdlFront.Command.Interface
import IdlFront.Unicode.Category

/-! # Arguments of commands

* `Word.classify` — what an argument is: an option, the mark `--` behind which there are no options, or
  plain. Long options may be cut short, short ones may hold their value.
* `Interface.scan` — the operand and the option values among arguments, and what is left over.
-/

namespace IdlFront

/-! ## Words -/

/-- What is attached to the name of an option in the same argument, behind `=` or right away. -/
structure Attachment where
  byEquals : Bool
  text : List Char
  deriving DecidableEq, Repr

inductive WordKind where
  | plain
  | endOfOptions
  | unknownOption
  | option (option : CommandOption) (name : String) (attached : Option Attachment)
  deriving DecidableEq, Repr

structure Word where
  text : String
  kind : WordKind
  deriving DecidableEq, Repr

namespace Word

def isPlain (w : Word) : Bool := w.kind == .plain

def isEndOfOptions (w : Word) : Bool := w.kind == .endOfOptions

def isOption (w : Word) : Bool := !w.isPlain && !w.isEndOfOptions

/-- The text before and behind the first equals sign. -/
def splitEquals (cs : List Char) : List Char × Option (List Char) :=
  let name := cs.takeWhile (· != '=')
  match cs.drop name.length with
  | [] => (name, none)
  | _ :: value => (name, some value)

def isDigit (c : Char) : Bool := Unicode.Category.of? c.toNat == some .decimalDigit

/-- Is the text a negative number: a minus, digits, and perhaps a point among them that is not the
    last? A line feed may follow. -/
def isNegativeNumber (cs : List Char) : Bool :=
  match cs with
  | '-' :: rest =>
    let body := if rest.getLast? = some '\n' then rest.dropLast else rest
    let whole := body.takeWhile isDigit
    match body.drop whole.length with
    | [] => !whole.isEmpty
    | '.' :: fraction => !fraction.isEmpty && fraction.all isDigit
    | _ => false
  | _ => false

/-- The ways to read an argument as an option that is cut short or holds its value. -/
def candidates (i : Interface) (cs : List Char) :
    List (String × CommandOption × Option Attachment) :=
  match cs with
  | '-' :: '-' :: _ =>
    let (name, value) := splitEquals cs
    i.namedOptions.filterMap fun (full, o) =>
      if name <+: full.toList then some (full, o, value.map fun v => ⟨true, v⟩) else none
  | _ =>
    i.namedOptions.filterMap fun (full, o) =>
      if full.toList = cs.take 2 then some (full, o, some ⟨false, cs.drop 2⟩)
      else if cs <+: full.toList then some (full, o, none)
      else none

/-- The use of an argument that stands before the end of options. -/
def classify (i : Interface) (argument : String) : Except UsageProblem WordKind :=
  let cs := argument.toList
  match i.option? argument, splitEquals cs with
  | some o, _ => .ok (.option o argument none)
  | none, (name, value) =>
    if cs.head? ≠ some '-' ∨ cs.length = 1 then .ok .plain
    else
      match value, i.option? (String.ofList name) with
      | some v, some o => .ok (.option o (String.ofList name) (some ⟨true, v⟩))
      | _, _ =>
        match candidates i cs with
        | [(name, o, attached)] => .ok (.option o name attached)
        | [] => .ok (if isNegativeNumber cs || cs.contains ' ' then .plain else .unknownOption)
        | several => .error (.ambiguousOption argument (several.map fun c => c.1))

/-- The words of arguments. Behind `--` all are plain. -/
def ofArguments (i : Interface) : List String → Except UsageProblem (List Word)
  | [] => .ok []
  | "--" :: rest => .ok (⟨"--", .endOfOptions⟩ :: rest.map fun text => ⟨text, .plain⟩)
  | argument :: rest => do
    let kind ← classify i argument
    return ⟨argument, kind⟩ :: (← ofArguments i rest)

end Word

/-! ## Scanning -/

inductive Interruption where
  | help
  | problem (p : UsageProblem)
  deriving DecidableEq, Repr

/-- What has been found among arguments: the operand, unless it is still to come, the value of the
    last option that has one, and arguments that fit nowhere. -/
structure Findings where
  operand : Option (List String)
  value : Option String
  leftovers : List String
  deriving DecidableEq, Repr

namespace Interface

/-- The words at the front that the operand takes, if there are enough of them. -/
def operandWords? (i : Interface) (words : List Word) : Option (List Word) :=
  let marks := words.takeWhile Word.isEndOfOptions
  let behind := words.drop marks.length
  let closing (ws : List Word) : List Word := ws.takeWhile Word.isEndOfOptions
  match i.arity, behind with
  | .any, _ => some (words.takeWhile fun w => !w.isOption)
  | .command, w :: _ => if w.isPlain then some words else none
  | .one, w :: rest => if w.isPlain then some (marks ++ w :: closing rest) else none
  | .atMostOne, w :: rest => if w.isPlain then some (marks ++ w :: closing rest) else some marks
  | .atMostOne, [] => some marks
  | _, [] => none

/-- The arguments of an operand. One `--` among them is dropped, but not in front of a command, which
    has to be one of the commands. -/
def operandArguments (i : Interface) (words : List Word) : Except Interruption (List String) :=
  let texts := words.map Word.text
  match i.arity, texts with
  | .command, name :: _ =>
    if (Subcommand.ofName? name).isSome then .ok texts else .error (.problem (.unknownCommand name))
  | .command, [] => .ok []
  | _, _ => .ok (texts.erase "--")

def isShort (name : String) : Bool := (name.toList.take 2).getLast? != some '-'

/-- The help is shown once nothing is wrong with the options behind it. -/
def thenHelp {α : Type} : Except Interruption α → Except Interruption α
  | .ok _ => .error .help
  | .error e => .error e

/-- The value that an option takes, from the letters attached to it or from the words behind it, and
    the words left. Letters attached to the help option are short options themselves. -/
def optionValue (i : Interface) (o : CommandOption) (name : String) (byEquals : Bool)
    (attached : Option (List Char)) (words : List Word) : Except Interruption (String × List Word) :=
  match o.role, attached with
  | .help, none => .error .help
  | .value, none =>
    match words with
    | w :: rest => if w.isPlain then .ok (w.text, rest) else .error (.problem (.missingValue o))
    | [] => .error (.problem (.missingValue o))
  | .value, some text => .ok (String.ofList text, words)
  | .help, some [] => .error (.problem (.unusedValue o ""))
  | .help, some (letter :: more) =>
    if !isShort name || byEquals || letter == '-' then
      .error (.problem (.unusedValue o (String.ofList (letter :: more))))
    else
      let next := String.ofList ['-', letter]
      match i.option? next, more with
      | none, _ => .error .help
      | some p, [] => thenHelp (optionValue i p next false none words)
      | some p, '=' :: text => thenHelp (optionValue i p next true (some text) words)
      | some p, c :: text => thenHelp (optionValue i p next false (some (c :: text)) words)
termination_by (attached.map fun letters => letters.length + 1).getD 0
decreasing_by all_goals simp only [Option.map_some, Option.getD_some, List.length_cons, wfParam,
  Option.map_none, Option.getD_none]; omega

theorem length_le_of_optionValue {i : Interface} {o : CommandOption} {name : String}
    {byEquals : Bool} {attached : Option (List Char)} {words rest : List Word} {value : String}
    (h : optionValue i o name byEquals attached words = .ok (value, rest)) :
    rest.length ≤ words.length := by
  have no_help {x : Except Interruption (String × List Word)} :
      thenHelp x ≠ .ok (value, rest) := by
    cases x <;> simp [thenHelp]
  unfold optionValue at h
  split at h
  · cases h
  · split at h
    · split at h
      · cases h
        simp
      · cases h
    · cases h
  · cases h
    simp
  · cases h
  · split at h
    · cases h
    · dsimp only at h
      split at h
      · cases h
      · exact (no_help h).elim
      · exact (no_help h).elim
      · exact (no_help h).elim

def takeOperand (i : Interface) (found : Findings) (words : List Word) :
    Except Interruption Findings := do
  return { found with operand := some (← operandArguments i words) }

def leaveOver (found : Findings) (words : List Word) : Findings :=
  { found with leftovers := found.leftovers ++ words.map Word.text }

/-- The findings of words, added to what has been found before them. The operand is taken as soon as
    there is a word for it, and at the end in any case. -/
def scanFrom (i : Interface) (found : Findings) (words : List Word) :
    Except Interruption Findings :=
  match words with
  | [] =>
    match found.operand, i.operandWords? [] with
    | none, some _ => takeOperand i found []
    | _, _ => .ok found
  | w :: rest =>
    match w.kind with
    | .unknownOption => scanFrom i (leaveOver found [w]) rest
    | .option o name attached =>
      match _taken : optionValue i o name ((attached.map Attachment.byEquals).getD false)
          (attached.map Attachment.text) rest with
      | .error e => .error e
      | .ok (value, rest') => scanFrom i { found with value := some value } rest'
    | _ =>
      match found.operand, i.operandWords? (w :: rest) with
      | none, some (v :: more) => do
        scanFrom i (← takeOperand i found (v :: more)) (rest.drop more.length)
      | _, _ => scanFrom i (leaveOver found [w]) rest
termination_by words.length
decreasing_by
  · simp
  · have := length_le_of_optionValue _taken
    simp only [List.length_cons]
    omega
  · simp only [List.length_drop, List.length_cons]
    omega
  · simp

/-- The findings of arguments. An operand that has to be there must have been found. -/
def scan (i : Interface) (arguments : List String) : Except Interruption Findings := do
  let words ← (Word.ofArguments i arguments).mapError .problem
  let found ← scanFrom i ⟨none, none, []⟩ words
  if found.operand.isNone && i.arity == .one then .error (.problem (.missingOperand i.operand))
  return found

end Interface

end IdlFront
