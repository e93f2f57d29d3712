import IdlFront.Json.Printer

/-! # JSON values in messages

* `Json.display` — a value on one line the way messages quote data: texts in quotation marks, blanks
  after commas and colons, and the constants capitalised.
-/

namespace IdlFront.Json

mutual

def display : Json → String
  | .null => "None"
  | .bool true => "True"
  | .bool false => "False"
  | .integer n => String.ofList (printInteger n)
  | .real x => x.render .listing
  | .string s => Text.quoted s
  | .array items => "[" ++ displayItems items ++ "]"
  | .object fields => "\x7b" ++ displayFields fields ++ "\x7d"

def displayItems : List Json → String
  | [] => ""
  | [x] => display x
  | x :: xs => display x ++ ", " ++ displayItems xs

def displayFields : List (String × Json) → String
  | [] => ""
  | [(k, v)] => Text.quoted k ++ ": " ++ display v
  | (k, v) :: fields => Text.quoted k ++ ": " ++ display v ++ ", " ++ displayFields fields

end

end IdlFront.Json
