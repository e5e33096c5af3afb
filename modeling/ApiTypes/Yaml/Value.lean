/-
# YAML values

A YAML text spells more than a JSON text can: numbers without a finite value, mappings with
keys of any kind, and values that carry a tag.

* `Value` and `Number` are the values.
* `Value.same` is equality: mappings are equal in any order, and an integer is never equal to a
  double.
-/
import ApiTypes.Decimal.Binary64

namespace ApiTypes.Yaml

/-- A number. -/
inductive Number where
  | int (value : Int)
  | float (value : Binary64)
  | infinite (negative : Bool)
  | nan
  deriving DecidableEq, Repr

/-- Equality of numbers of one kind. -/
def Number.same : Number → Number → Bool
  | .int a, .int b => a = b
  | .float a, .float b => a.sameValue b
  | .infinite a, .infinite b => a = b
  | .nan, .nan => true
  | _, _ => false

/-- A value. -/
inductive Value where
  | null
  | bool (value : Bool)
  | number (value : Number)
  | string (value : String)
  | sequence (items : List Value)
  | mapping (entries : List (Value × Value))
  | tagged (tag : String) (value : Value)
  deriving Inhabited

namespace Value

mutual
/-- Equality of values. -/
def same : Value → Value → Bool
  | .null, .null => true
  | .bool a, .bool b => a = b
  | .number a, .number b => a.same b
  | .string a, .string b => a = b
  | .sequence as, .sequence bs => sameAll as bs
  | .mapping es, .mapping fs => es.length = fs.length && allIn es fs
  | .tagged t a, .tagged u b => t = u && same a b
  | _, _ => false

/-- Equality of lists of values. -/
def sameAll : List Value → List Value → Bool
  | [], [] => true
  | a :: as, b :: bs => same a b && sameAll as bs
  | _, _ => false

/-- Whether all entries of one mapping are in another. -/
def allIn : List (Value × Value) → List (Value × Value) → Bool
  | [], _ => true
  | (k, v) :: rest, fs => fs.any (fun (l, w) => same k l && same v w) && allIn rest fs
end

end Value

end ApiTypes.Yaml
