/-
# From YAML to JSON

Keys become texts, tags are dropped, and numbers without a finite value become null.  Keys that
become the same text are one field, which keeps its first place and takes the last value.

* `Value.toJson` gives the JSON value.
-/
import ApiTypes.Json.Basic
import ApiTypes.Yaml.Printer

namespace ApiTypes.Yaml

/-- A number as a JSON value. -/
def Number.toJson : Number → Json
  | .int value => .number (.int value)
  | .float value => .number (.float value)
  | .infinite _ => .null
  | .nan => .null

namespace Value

mutual
/-- A value as a JSON value. -/
def toJson : Value → Json
  | .null => .null
  | .bool b => .bool b
  | .number n => n.toJson
  | .string s => .string s
  | .sequence items => .array (toJsonItems items)
  | .mapping entries => .object (Json.mergeFields (toJsonFields entries))
  | .tagged _ v => toJson v

/-- The items of a sequence as JSON values. -/
def toJsonItems : List Value → List Json
  | [] => []
  | v :: rest => toJson v :: toJsonItems rest

/-- The entries of a mapping as fields. -/
def toJsonFields : List (Value × Value) → List (String × Json)
  | [] => []
  | (k, v) :: rest => (keyText k, toJson v) :: toJsonFields rest
end

end Value

end ApiTypes.Yaml
