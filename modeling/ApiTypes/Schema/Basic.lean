/-
# Schemas

A schema describes the values that an interface accepts.  The raw description is sorted once
into one of seven kinds, and everything after that distinguishes kinds and no keywords.

* `Schema` is a sorted schema; every kind carries the `Traits` that annotate it.
* `Schema.count` counts a schema and the schemas nested in it.
-/
import ApiTypes.Json.Basic

namespace ApiTypes

/-! ## 1. Parts of schemas -/

/-- Annotations and modifiers that a schema of any kind can carry.  Only `nullable` and
`readOnly` bear on the type; the rest is text for comments. -/
structure Traits where
  title : Option String := none
  description : Option String := none
  format : Option String := none
  deprecated : Bool := false
  nullable : Bool := false
  readOnly : Bool := false
  writeOnly : Bool := false
  default : Option Json := none
  sample : Option Json := none
  deriving Repr, Inhabited

/-- The types of single values. -/
inductive ScalarKind where
  | string
  | integer
  | number
  | boolean
  | null
  deriving DecidableEq, Repr

/-- The kind that a type name names, if it names one. -/
def ScalarKind.ofName? (name : String) : Option ScalarKind :=
  if name = "string" then some .string
  else if name = "integer" then some .integer
  else if name = "number" then some .number
  else if name = "boolean" then some .boolean
  else if name = "null" then some .null
  else none

/-- The type name of a kind. -/
def ScalarKind.name : ScalarKind → String
  | .string => "string"
  | .integer => "integer"
  | .number => "number"
  | .boolean => "boolean"
  | .null => "null"

/-- A property whose value says which alternative of a union is meant, with the alternative
that each value stands for. -/
structure Discriminator where
  property : String
  mapping : List (String × String)
  deriving DecidableEq, Repr

/-- What an object may hold beside its declared properties. -/
inductive Additional (α : Type) where
  /-- Nothing is said, and the configuration decides. -/
  | unsaid
  /-- Everything or nothing. -/
  | allowed (allowed : Bool)
  /-- Whatever satisfies a schema. -/
  | schema (schema : α)
  deriving Repr

/-! ## 2. Schemas -/

/-- A schema, sorted by kind. -/
inductive Schema where
  /-- A reference to a schema elsewhere. -/
  | reference (target : String) (traits : Traits)
  /-- Single values of one or more kinds. -/
  | scalar (kinds : List ScalarKind) (traits : Traits)
  /-- Lists. -/
  | array (items : Option Schema) (least most : Option Nat) (traits : Traits)
  /-- Objects with declared properties. -/
  | object (properties : List (String × Schema)) (required : List String)
      (additional : Additional Schema) (traits : Traits)
  /-- All, one or any of several schemas; `base` is what the schema says about itself beside
  them. -/
  | composed (allOf oneOf anyOf : List Schema) (discriminator : Option Discriminator)
      (base : Option Schema) (traits : Traits)
  /-- The listed values only. -/
  | enumerated (values : List Json) (traits : Traits)
  /-- Nothing known: any value. -/
  | unknown (traits : Traits)
  deriving Inhabited

namespace Schema

/-- The traits of a schema of any kind. -/
def traits : Schema → Traits
  | reference _ t => t
  | scalar _ t => t
  | array _ _ _ t => t
  | object _ _ _ t => t
  | composed _ _ _ _ _ t => t
  | enumerated _ t => t
  | unknown t => t

/-! ## 3. Size -/

mutual
/-- The number of schemas in a schema, itself included. -/
def count : Schema → Nat
  | reference _ _ => 1
  | scalar _ _ => 1
  | array items _ _ _ => 1 + countOption items
  | object properties _ additional _ => 1 + countProperties properties + countAdditional additional
  | composed allOf oneOf anyOf _ base _ =>
    1 + countList allOf + countList oneOf + countList anyOf + countOption base
  | enumerated _ _ => 1
  | unknown _ => 1

/-- The number of schemas in an optional schema. -/
def countOption : Option Schema → Nat
  | none => 0
  | some s => count s

/-- The number of schemas in a list. -/
def countList : List Schema → Nat
  | [] => 0
  | s :: rest => count s + countList rest

/-- The number of schemas in the properties of an object. -/
def countProperties : List (String × Schema) → Nat
  | [] => 0
  | (_, s) :: rest => count s + countProperties rest

/-- The number of schemas in what an object may hold in addition. -/
def countAdditional : Additional Schema → Nat
  | .unsaid => 0
  | .allowed _ => 0
  | .schema s => count s
end

end Schema

end ApiTypes
