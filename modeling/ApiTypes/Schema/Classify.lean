/-
# Sorting schemas by kind

The kind of a raw schema is decided by its keywords, in a fixed order of precedence: a
reference, a list of values, a combination of schemas, then the declared types, and at last
the keywords that only arrays or objects have.  Nothing is refused; what no rule recognises is
unknown.

A schema that combines others may say something about itself as well (its *base*), and a list
of types that mixes arrays or objects with other types is an alternative of one schema for
each type.  Both are sorted from the same fields, so the nested schemas are sorted once and
handed down (`Nested`), and the recursion goes through the values of the text alone.

* `Schema.ofJson` sorts a raw schema.
-/
import ApiTypes.Schema.Basic

namespace ApiTypes.Schema

/-! ## 1. Reading keywords -/

/-- The text under a key, if it is one. -/
def textAt (fs : List (String × Json)) (key : String) : Option String :=
  (Json.lookup key fs).bind Json.asString?

/-- Whether `true` stands under a key. -/
def flagAt (fs : List (String × Json)) (key : String) : Bool :=
  ((Json.lookup key fs).bind Json.asBool?).getD false

/-- Whether a key is there. -/
def hasKey (fs : List (String × Json)) (key : String) : Bool := (Json.lookup key fs).isSome

/-- The texts among the items under a key. -/
def textsAt (fs : List (String × Json)) (key : String) : List String :=
  (((Json.lookup key fs).bind Json.asArray?).getD []).filterMap Json.asString?

/-- The declared types: one name, or a list of names. -/
def declaredTypes (fs : List (String × Json)) : List String :=
  match Json.lookup "type" fs with
  | some (.string t) => [t]
  | some (.array items) => items.filterMap Json.asString?
  | _ => []

/-- The traits of a schema; a null among its types makes it nullable. -/
def readTraits (fs : List (String × Json)) : Traits where
  title := textAt fs "title"
  description := textAt fs "description"
  format := textAt fs "format"
  deprecated := flagAt fs "deprecated"
  nullable := flagAt fs "nullable" || flagAt fs "x-nullable" || (declaredTypes fs).contains "null"
  readOnly := flagAt fs "readOnly"
  writeOnly := flagAt fs "writeOnly"
  default := Json.lookup "default" fs
  sample := (Json.lookup "example" fs).or
    (((Json.lookup "examples" fs).bind Json.asArray?).bind List.head?)

/-- Adds a value to a list unless an equal one is there. -/
def addDistinct (values : List Json) (v : Json) : List Json :=
  if values.any (Json.sameValue v) then values else values ++ [v]

/-- The listed values, each once, and the constant after them. -/
def listedValues (fs : List (String × Json)) : List Json :=
  (((Json.lookup "enum" fs).bind Json.asArray?).getD [] ++ (Json.lookup "const" fs).toList).foldl
    addDistinct []

/-- The discriminator: it needs a property name, and only texts count in its mapping. -/
def discriminator? (fs : List (String × Json)) : Option Discriminator := do
  let v ← Json.lookup "discriminator" fs
  let property ← (v.field? "propertyName").bind Json.asString?
  let entries := ((v.field? "mapping").bind Json.asObject?).getD []
  return ⟨property, entries.filterMap fun (k, t) => t.asString?.map (k, ·)⟩

/-! ## 2. Deciding the kind -/

/-- The schemas nested in a raw schema, already sorted. -/
structure Nested where
  allOf : List Schema := []
  oneOf : List Schema := []
  anyOf : List Schema := []
  items : Option Schema := none
  properties : List (String × Schema) := []
  additional : Additional Schema := .unsaid

/-- The scalar kinds of the types other than null; null alone is a kind of its own. -/
def scalarKinds? (types : List String) : Option (List ScalarKind) :=
  match types.filter (· ≠ "null") with
  | [] => if types = [] then none else some [.null]
  | names => names.mapM ScalarKind.ofName?

/-- A schema with at most one type that is not scalar, and no combination. -/
def single (fs : List (String × Json)) (nested : Nested) (types : List String)
    (traits : Traits) : Schema :=
  let names := types.filter (· ≠ "null")
  if names.head? = some "array" || (names = [] && hasKey fs "items") then
    .array nested.items ((Json.lookup "minItems" fs).bind Json.asNat?)
      ((Json.lookup "maxItems" fs).bind Json.asNat?) traits
  else if names.head? = some "object"
      || (names = [] && (hasKey fs "properties" || hasKey fs "additionalProperties")) then
    .object nested.properties (textsAt fs "required") nested.additional traits
  else
    match scalarKinds? types with
    | some kinds => .scalar kinds traits
    | none => .unknown traits

/-- A schema without combination: one of several types if arrays or objects are among them. -/
def uncombined (fs : List (String × Json)) (nested : Nested) (types : List String)
    (traits : Traits) : Schema :=
  let names := types.filter (· ≠ "null")
  if names.length > 1 && names.any (fun t => t = "array" || t = "object") then
    let each := { traits with title := none, description := none, nullable := false }
    .composed [] [] (names.map fun t => single fs nested [t] each) none none traits
  else single fs nested types traits

/-- The keywords that say something about the schema itself. -/
def structuralKeys : List String := ["type", "properties", "additionalProperties", "items"]

/-- The keywords that belong to a combination and not to its base. -/
def combinationKeys : List String :=
  ["allOf", "oneOf", "anyOf", "discriminator", "title", "description", "nullable", "x-nullable",
    "deprecated", "default", "example", "examples"]

/-- What a combination says about itself: nothing if no structural keyword is there, or if the
type `object` is all that is left. -/
def baseOf (fs : List (String × Json)) (nested : Nested) : Option Schema :=
  let rest := fs.filter fun (k, _) => !combinationKeys.contains k
  let bareObject := match rest with
    | [("type", .string t)] => t = "object"
    | _ => false
  if structuralKeys.any (hasKey fs) && !bareObject then
    let types := declaredTypes fs
    some (uncombined fs nested types
      { readTraits fs with
        title := none, description := none, deprecated := false
        nullable := types.contains "null", default := none, sample := none })
  else none

/-- The kind of a raw schema with the given fields. -/
def ofFields (fs : List (String × Json)) (nested : Nested) : Schema :=
  let traits := readTraits fs
  match Json.lookup "$ref" fs with
  | some (.string target) => .reference target traits
  | _ =>
    if hasKey fs "enum" || hasKey fs "const" then .enumerated (listedValues fs) traits
    else if hasKey fs "allOf" || hasKey fs "oneOf" || hasKey fs "anyOf" then
      .composed nested.allOf nested.oneOf nested.anyOf (discriminator? fs) (baseOf fs nested) traits
    else uncombined fs nested (declaredTypes fs) traits

/-! ## 3. The recursion -/

mutual
/-- Sorts a raw schema.  `false` accepts no value; any other value that is no object says
nothing. -/
def ofJson : Json → Schema
  | .object fs => ofFields fs (nestedIn fs)
  | .bool false => .enumerated [] {}
  | _ => .unknown {}

/-- Sorts the schemas nested in a raw schema. -/
def nestedIn : List (String × Json) → Nested
  | [] => {}
  | (key, value) :: rest =>
    let nested := nestedIn rest
    if key = "allOf" then { nested with allOf := ofItems value }
    else if key = "oneOf" then { nested with oneOf := ofItems value }
    else if key = "anyOf" then { nested with anyOf := ofItems value }
    else if key = "items" then { nested with items := some (ofJson value) }
    else if key = "properties" then { nested with properties := ofProperties value }
    else if key = "additionalProperties" then
      { nested with additional := match value with
          | .bool allowed => .allowed allowed
          | value => .schema (ofJson value) }
    else nested

/-- The schemas of a list; any other value has none. -/
def ofItems : Json → List Schema
  | .array items => ofList items
  | _ => []

/-- Sorts the schemas of a list. -/
def ofList : List Json → List Schema
  | [] => []
  | v :: rest => ofJson v :: ofList rest

/-- The properties of an object; any other value has none. -/
def ofProperties : Json → List (String × Schema)
  | .object fs => ofPropertyList fs
  | _ => []

/-- Sorts the schemas of named properties. -/
def ofPropertyList : List (String × Json) → List (String × Schema)
  | [] => []
  | (name, v) :: rest => (name, ofJson v) :: ofPropertyList rest
end

end ApiTypes.Schema
