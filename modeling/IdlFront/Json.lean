import IdlFront.Number.Shortest

/-! # JSON values

* `Json` — a value. Numbers written without fraction and exponent are integers of any size, all others
  are doubles. The fields of an object keep their order.
* `Json.Fields` — the fields of an object: `get?`, and `put`, which keeps the place of a key.
* `Json.size` — the number of nodes, which falls from a value to its parts.
-/

namespace IdlFront

/-- A JSON value. -/
inductive Json where
  | null
  | bool (b : Bool)
  | integer (n : Int)
  | real (x : Binary64)
  | string (s : String)
  | array (items : List Json)
  | object (fields : List (String × Json))

namespace Json

abbrev Fields := List (String × Json)

def Fields.get? (fields : Fields) (key : String) : Option Json :=
  (fields.find? fun field => field.1 == key).map Prod.snd

/-- Set a key: in the place it has, or at the end. -/
def Fields.put (key : String) (value : Json) : Fields → Fields
  | [] => [(key, value)]
  | (k, v) :: rest => if k = key then (k, value) :: rest else (k, v) :: put key value rest

def Fields.erase (fields : Fields) (key : String) : Fields :=
  fields.filter fun field => field.1 != key

/-! ## Size -/

mutual

def size : Json → Nat
  | .array items => sizeItems items + 1
  | .object fields => sizeFields fields + 1
  | _ => 1

def sizeItems : List Json → Nat
  | [] => 0
  | x :: xs => x.size + sizeItems xs

/-- The number of nodes of the values of several fields. -/
def sizeFields : List (String × Json) → Nat
  | [] => 0
  | (_, v) :: fields => v.size + sizeFields fields

end

theorem size_le_sizeItems {x : Json} {items : List Json} (h : x ∈ items) :
    x.size ≤ sizeItems items := by
  induction items with
  | nil => cases h
  | cons y ys ih =>
    simp only [sizeItems]
    rcases List.mem_cons.1 h with rfl | h
    · omega
    · have := ih h
      omega

theorem size_le_sizeFields {key : String} {v : Json} {fields : List (String × Json)}
    (h : (key, v) ∈ fields) : v.size ≤ sizeFields fields := by
  induction fields with
  | nil => cases h
  | cons field fields ih =>
    obtain ⟨k, w⟩ := field
    simp only [sizeFields]
    rcases List.mem_cons.1 h with h | h
    · cases h
      omega
    · have := ih h
      omega

/-- A part of an array is smaller than the array. -/
theorem size_lt_of_mem {x : Json} {items : List Json} (h : x ∈ items) :
    x.size < (Json.array items).size := by
  have := size_le_sizeItems h
  simp only [size]
  omega

/-- The value of a key is smaller than the object. -/
theorem size_lt_of_get? {fields : Fields} {key : String} {v : Json}
    (h : fields.get? key = some v) : v.size < (Json.object fields).size := by
  obtain ⟨⟨k, w⟩, hf, rfl⟩ := Option.map_eq_some_iff.1 h
  have := size_le_sizeFields (List.mem_of_find?_eq_some hf)
  simp only [size]
  omega

def strings (ss : List String) : Json := .array (ss.map .string)

end Json

end IdlFront
