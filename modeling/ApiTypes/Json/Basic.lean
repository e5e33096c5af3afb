/-
# JSON values

The documents this library reads are JSON values.  An object is a list of fields in the order
of the text: the order is part of what is printed later, though not of what is equal.

* `Json` and `JsonNumber` are the values; a number is an integer or a finite double.
* `Json.field?` looks a field up; `Json.setField` sets one, a repeated key keeping its place
  and taking the later value, so an object built with it has no key twice (`keys_setField`).
* `Json.sameValue` is equality of values: fields in any order, and the two zeros of the
  doubles alike.  An integer is never equal to a double.
* `Json.nodes` counts a value and everything nested in it.
-/
import ApiTypes.Decimal.Shortest

namespace ApiTypes

/-! ## 1. Values -/

/-- A number: an integer that fits 64 bits, or a double. -/
inductive JsonNumber where
  | int (value : Int)
  | float (value : Binary64)
  deriving DecidableEq, Repr, Inhabited

/-- A JSON value. -/
inductive Json where
  | null
  | bool (value : Bool)
  | number (value : JsonNumber)
  | string (value : String)
  | array (items : List Json)
  | object (fields : List (String × Json))
  deriving Repr, Inhabited

namespace JsonNumber

/-- The number as a natural number, if it is an integer that is one. -/
def toNat? : JsonNumber → Option Nat
  | int value => if 0 ≤ value then some value.toNat else none
  | float _ => none

/-- Equality of numbers of one kind. -/
def sameValue : JsonNumber → JsonNumber → Bool
  | int a, int b => a = b
  | float a, float b => a.sameValue b
  | _, _ => false

/-- The integers that a number can be without becoming a double. -/
def isInteger (value : Int) : Bool :=
  -9223372036854775808 ≤ value && value < 18446744073709551616

end JsonNumber

namespace Json

/-! ## 2. Fields -/

/-- The value of a key in a list of fields. -/
def lookup (key : String) : List (String × Json) → Option Json
  | [] => none
  | (k, v) :: rest => if k = key then some v else lookup key rest

/-- Sets a field: in its place if the key is there, else at the end. -/
def setField (key : String) (value : Json) : List (String × Json) → List (String × Json)
  | [] => [(key, value)]
  | (k, v) :: rest => if k = key then (k, value) :: rest else (k, v) :: setField key value rest

/-- The fields in order of first appearance, each with its last value. -/
def mergeFields (fields : List (String × Json)) : List (String × Json) :=
  fields.foldl (fun acc (k, v) => setField k v acc) []

/-- Setting a field keeps the keys and adds its own if it is missing. -/
theorem keys_setField (key : String) (value : Json) (fields : List (String × Json)) :
    (setField key value fields).map Prod.fst =
      if key ∈ fields.map Prod.fst then fields.map Prod.fst
      else fields.map Prod.fst ++ [key] := by
  induction fields with
  | nil => simp [setField]
  | cons kv rest ih =>
    obtain ⟨k, v⟩ := kv
    by_cases h : k = key
    · simp [setField, h]
    · have h' : ¬ key = k := fun e => h e.symm
      by_cases hm : key ∈ rest.map Prod.fst <;> simp_all [setField]

/-- The fields of an object; any other value has none. -/
def fields : Json → List (String × Json)
  | object fs => fs
  | _ => []

/-- The field of an object under a key. -/
def field? (key : String) (v : Json) : Option Json := lookup key v.fields

/-- The text, if the value is a string. -/
def asString? : Json → Option String
  | string s => some s
  | _ => none

/-- The truth value, if the value is one. -/
def asBool? : Json → Option Bool
  | bool b => some b
  | _ => none

/-- The natural number, if the value is one. -/
def asNat? : Json → Option Nat
  | number n => n.toNat?
  | _ => none

/-- The items, if the value is an array. -/
def asArray? : Json → Option (List Json)
  | array xs => some xs
  | _ => none

/-- The fields, if the value is an object. -/
def asObject? : Json → Option (List (String × Json))
  | object fs => some fs
  | _ => none

/-! ## 3. Equality of values and size -/

mutual
/-- Equality of values. -/
def sameValue : Json → Json → Bool
  | null, null => true
  | bool a, bool b => a == b
  | number a, number b => a.sameValue b
  | string a, string b => a == b
  | array xs, array ys => sameItems xs ys
  | object fs, object gs => fs.length == gs.length && sameFields fs gs
  | _, _ => false

/-- Arrays are equal item by item. -/
def sameItems : List Json → List Json → Bool
  | [], [] => true
  | x :: xs, y :: ys => sameValue x y && sameItems xs ys
  | _, _ => false

/-- Every field of the first list is in the second. -/
def sameFields : List (String × Json) → List (String × Json) → Bool
  | [], _ => true
  | (k, v) :: rest, gs =>
    (match lookup k gs with
      | some w => sameValue v w
      | none => false) && sameFields rest gs
end

mutual
/-- The number of values in a value, itself included. -/
def nodes : Json → Nat
  | array xs => 1 + nodesItems xs
  | object fs => 1 + nodesFields fs
  | _ => 1

/-- The number of values in the items of an array. -/
def nodesItems : List Json → Nat
  | [] => 0
  | x :: xs => nodes x + nodesItems xs

/-- The number of values in the fields of an object. -/
def nodesFields : List (String × Json) → Nat
  | [] => 0
  | (_, v) :: rest => nodes v + nodesFields rest
end

end Json

end ApiTypes
