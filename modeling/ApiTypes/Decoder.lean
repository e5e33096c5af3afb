/-
# Decoding records from JSON

A record is written as an object of its fields, in any order, or as an array of them, in the
order of declaration.  The fields of an object are read in the order of the text, and the
first that does not fit is the error; fields that are missing are reported after that.  Keys
that a record does not know are skipped.

* `DecodeError` says why a value does not fit, and `DecodeError.message` says it in words.
* `Decoder` is a reader of one kind of value, and `Layout` describes a record by its fields;
  `Layout.decode` reads one.
-/
import ApiTypes.Json.Printer
import ApiTypes.Text.Shown

namespace ApiTypes

/-! ## 1. Errors -/

/-- Why a value does not fit. -/
inductive DecodeError where
  /-- A value of one kind stands where another is expected. -/
  | wrongType (found : Json) (expected : String)
  /-- An object stands where one of another form is expected. -/
  | wrongObject (expected : String)
  /-- A whole number is out of range. -/
  | outOfRange (found : Json) (expected : String)
  /-- An array has too few or too many items. -/
  | wrongLength (length : Nat) (expected : String)
  | missingField (name : String)
  | duplicateField (name : String)
  | unknownVariant (name : String) (expected : List String)
  /-- The value is neither a reference nor the part itself. -/
  | neitherRefNorItem
  /-- The value under a key does not fit. -/
  | inEntry (key : String) (cause : DecodeError)
  deriving Repr

namespace DecodeError

/-- A name between backticks. -/
def ticked (name : String) : String := "`" ++ name ++ "`"

/-- A value as an error message shows it: single values in full, others by their kind. -/
def shown : Json → String
  | .null => "null"
  | .bool b => "boolean " ++ ticked (if b then "true" else "false")
  | .number (.int i) => "integer " ++ ticked (toString i)
  | .number (.float x) => "floating point " ++ ticked (x.written JsonNumber.form)
  | .string s => "string " ++ Text.shown s
  | .array _ => "sequence"
  | .object _ => "map"

/-- The alternatives, as a message lists them. -/
def alternatives : List String → String
  | [a, b] => ticked a ++ " or " ++ ticked b
  | [a] => ticked a
  | names => "one of " ++ Text.join ", " (names.map ticked)

/-- What is wrong, in words. -/
def message : DecodeError → String
  | wrongType found expected => "invalid type: " ++ shown found ++ ", expected " ++ expected
  | wrongObject expected => "invalid value: map, expected " ++ expected
  | outOfRange found expected => "invalid value: " ++ shown found ++ ", expected " ++ expected
  | wrongLength length expected =>
    "invalid length " ++ toString length ++ ", expected " ++ expected
  | missingField name => "missing field " ++ ticked name
  | duplicateField name => "duplicate field " ++ ticked name
  | unknownVariant name expected =>
    "unknown variant " ++ ticked name ++ ", expected " ++ alternatives expected
  | neitherRefNorItem => "data did not match any variant of untagged enum RefOr"
  | inEntry key cause => "Failed to parse '" ++ key ++ "': " ++ cause.message

end DecodeError

/-! ## 2. Decoders -/

/-- Reads a value of one kind. -/
abbrev Decoder (α : Type) := Json → Except DecodeError α

namespace Decoder

/-- Any value, as it is. -/
def value : Decoder Json := .ok

/-- A text. -/
def text : Decoder String
  | .string s => .ok s
  | v => .error (.wrongType v "a string")

/-- A truth value. -/
def flag : Decoder Bool
  | .bool b => .ok b
  | v => .error (.wrongType v "a boolean")

/-- A value that null stands for the absence of. -/
def optional {α : Type} (decode : Decoder α) : Decoder (Option α)
  | .null => .ok none
  | v => (decode v).map some

/-- An array, item by item. -/
def list {α : Type} (decode : Decoder α) : Decoder (List α)
  | .array items => items.mapM decode
  | v => .error (.wrongType v "a sequence")

/-- The values of an object, field by field. -/
def named {α : Type} (decode : Decoder α) : Decoder (List (String × α))
  | .object fields => fields.mapM fun (k, v) => (decode v).map (k, ·)
  | v => .error (.wrongType v "a map")

/-- Whether a key belongs to an extension. -/
def isExtension (key : String) : Bool := "x-".toList.isPrefixOf key.toList

/-- The values of an object without its extensions; an error names the key. -/
def entries {α : Type} (decode : Decoder α) : Decoder (List (String × α))
  | .object fields =>
    (fields.filter fun (k, _) => !isExtension k).mapM fun (k, v) =>
      match decode v with
      | .ok a => .ok (k, a)
      | .error e => .error (.inEntry k e)
  | v => .error (.wrongType v "a map")

/-- One of several names; an object with the name as its only key and null under it does as
well. -/
def variant {α : Type} (names : List (String × α)) (expected : List String) : Decoder α :=
  let pick (name : String) : Except DecodeError α :=
    match names.lookup name with
    | some a => .ok a
    | none => .error (.unknownVariant name expected)
  fun
  | .string name => pick name
  | .object [(name, v)] => do
    let a ← pick name
    match v with
    | .null => return a
    | v => .error (.wrongType v "unit")
  | .object _ => .error (.wrongObject "map with a single key")
  | v => .error (.wrongType v "string or map")

end Decoder

/-! ## 3. Records -/

/-- A field of a record: its name, how its value is put into the record, and whether the
record needs it. -/
structure Field (α : Type) where
  name : String
  put : Json → α → Except DecodeError α
  required : Bool

/-- A field that may be missing. -/
def Field.of {α β : Type} (name : String) (decode : Decoder β) (set : β → α → α) : Field α :=
  ⟨name, fun v a => (decode v).map (set · a), false⟩

/-- A field that must be there. -/
def Field.needed {α β : Type} (name : String) (decode : Decoder β) (set : β → α → α) :
    Field α :=
  { Field.of name decode set with required := true }

/-- A record: its name in messages, its fields in the order of declaration, and the record
that missing fields leave. -/
structure Layout (α : Type) where
  name : String
  start : α
  fields : List (Field α)

namespace Layout

variable {α : Type} (layout : Layout α)

/-- Puts one field of an object into a record; an unknown key changes nothing. -/
def putField (record : α) (entry : String × Json) : Except DecodeError α :=
  match layout.fields.find? (·.name = entry.1) with
  | some f => f.put entry.2 record
  | none => .ok record

/-- Reads the fields of an object, then reports the first missing one. -/
def ofFields (entries : List (String × Json)) : Except DecodeError α := do
  let record ← entries.foldlM layout.putField layout.start
  match layout.fields.find? fun f => f.required && (Json.lookup f.name entries).isNone with
  | some f => .error (.missingField f.name)
  | none => return record

/-- Reads the items of an array into the fields in turn, the first one being field number
`index`. -/
def putItems (index : Nat) (record : α) : List (Field α) → List Json → Except DecodeError α
  | [], _ => .ok record
  | f :: fs, [] =>
    if f.required then
      .error (.wrongLength index ("struct " ++ layout.name ++ " with "
        ++ toString layout.fields.length
        ++ (if layout.fields.length = 1 then " element" else " elements")))
    else putItems (index + 1) record fs []
  | f :: fs, v :: vs => do putItems (index + 1) (← f.put v record) fs vs

/-- Reads the items of an array, then refuses items that no field is left for. -/
def ofItems (items : List Json) : Except DecodeError α := do
  let record ← layout.putItems 0 layout.start layout.fields items
  if items.length > layout.fields.length then
    .error (.wrongLength items.length "fewer elements in array")
  return record

/-- Reads a record. -/
def decode : Decoder α
  | .object entries => layout.ofFields entries
  | .array items => layout.ofItems items
  | v => .error (.wrongType v ("struct " ++ layout.name))

end Layout

end ApiTypes
