/-! # Wildcards

Patterns for names, in which `*` stands for any text, `?` for any character and `[…]` for one of
several:

* `Wildcard` — a pattern, item by item.
* `Wildcard.ofText` — how patterns are written. A bracket that is not closed stands for itself.
* `Wildcard.accepts` — which texts a pattern matches.
-/

namespace IdlFront

/-! ## Items -/

/-- What stands in a pattern. A class holds the characters of its ranges, or all others. -/
inductive WildcardItem where
  | anyText
  | anyCharacter
  | character (c : Char)
  | oneOf (negated : Bool) (ranges : List (Char × Char))
  deriving DecidableEq, Repr

/-- Does an item for one character stand for this one? -/
def WildcardItem.accepts (c : Char) : WildcardItem → Bool
  | .anyText => false
  | .anyCharacter => true
  | .character d => c == d
  | .oneOf negated ranges => (ranges.any fun r => r.1 ≤ c && c ≤ r.2) != negated

structure Wildcard where
  items : List WildcardItem
  deriving DecidableEq, Repr

namespace Wildcard

/-! ## Character classes -/

/-- The text of a class that starts here, and what is behind its closing bracket. A bracket right
    at the front, also behind `!`, does not close the class. -/
def classText? (cs : List Char) : Option (List Char × List Char) :=
  let opening := match cs with
    | '!' :: ']' :: _ => 2
    | '!' :: _ => 1
    | ']' :: _ => 1
    | _ => 0
  let inner := (cs.drop opening).takeWhile (· != ']')
  match cs.drop (opening + inner.length) with
  | [] => none
  | _ :: rest => some (cs.take (opening + inner.length), rest)

theorem length_le_of_classText? {cs text behind : List Char}
    (h : classText? cs = some (text, behind)) : behind.length ≤ cs.length := by
  unfold classText? at h
  dsimp only at h
  split at h
  · cases h
  · rename_i c rest cut
    have := congrArg List.length cut
    simp only [List.length_drop, List.length_cons] at this
    cases h
    omega

/-- The text of a class cut at the hyphens that make ranges. Of each piece, `kept` characters at
    least come before the next cut; a hyphen at the end makes no range. -/
def cutRanges (kept : Nat) (cs : List Char) : List (List Char) :=
  let head := cs.take kept ++ (cs.drop kept).takeWhile (· != '-')
  match _cut : cs.drop head.length with
  | [] => [head]
  | [_] => [head ++ ['-']]
  | _ :: rest => head :: cutRanges 2 rest
termination_by cs.length
decreasing_by
  have := congrArg List.length _cut
  simp only [List.length_drop, List.length_cons] at this
  omega

/-- The pieces without empty ranges: if a piece ends beyond the start of the next one, both ends are
    dropped and the pieces joined. -/
def dropEmptyRanges : List (List Char) → List (List Char)
  | [] => []
  | piece :: pieces =>
    match dropEmptyRanges pieces with
    | [] => [piece]
    | next :: more =>
      match piece.getLast?, next.head? with
      | some a, some b =>
        if b < a then (piece.dropLast ++ next.tail) :: more else piece :: next :: more
      | _, _ => piece :: next :: more

/-- The pieces in a row, with `none` for the hyphens between them. -/
def joinPieces : List (List Char) → List (Option Char)
  | [] => []
  | [piece] => piece.map some
  | piece :: pieces => piece.map some ++ none :: joinPieces pieces

/-- The ranges that characters and hyphens denote. A hyphen with nothing on one side stands for
    itself. -/
def rangesOf : List (Option Char) → List (Char × Char)
  | a :: none :: b :: rest => (a.getD '-', b.getD '-') :: rangesOf rest
  | a :: rest => (a.getD '-', a.getD '-') :: rangesOf rest
  | [] => []

def classItem (text : List Char) : WildcardItem :=
  let kept := if text.head? = some '!' then 2 else 1
  match joinPieces (dropEmptyRanges (cutRanges kept text)) with
  | some '!' :: rest => .oneOf true (rangesOf rest)
  | parts => .oneOf false (rangesOf parts)

/-! ## Reading -/

def itemsOf (cs : List Char) : List WildcardItem :=
  match cs with
  | [] => []
  | '*' :: rest => .anyText :: itemsOf rest
  | '?' :: rest => .anyCharacter :: itemsOf rest
  | '[' :: rest =>
    match _found : classText? rest with
    | some (text, behind) => classItem text :: itemsOf behind
    | none => .character '[' :: itemsOf rest
  | c :: rest => .character c :: itemsOf rest
termination_by cs.length
decreasing_by
  all_goals simp only [List.length_cons]
  · omega
  · omega
  · have := length_le_of_classText? _found
    omega
  · omega
  · omega

def ofText (s : String) : Wildcard := ⟨itemsOf s.toList⟩

def isSpecial (s : String) : Bool := s.toList.any fun c => c == '*' || c == '?' || c == '['

/-! ## Matching -/

/-- Does the text, or what is left of it after some characters, have a property? -/
def anySuffix (p : List Char → Bool) : List Char → Bool
  | [] => p []
  | c :: cs => p (c :: cs) || anySuffix p cs

def matchItems : List WildcardItem → List Char → Bool
  | [], cs => cs.isEmpty
  | .anyText :: items, cs => anySuffix (matchItems items) cs
  | item :: items, c :: cs => item.accepts c && matchItems items cs
  | _ :: _, [] => false

def accepts (w : Wildcard) (s : String) : Bool := matchItems w.items s.toList

end Wildcard

end IdlFront
