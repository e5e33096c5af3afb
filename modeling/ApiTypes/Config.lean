/-
# Configuration

The options change the form of the generated types and not their meaning.  Parts that have no order
of their own are shown in the order of declaration, or sorted by name if the options ask for it;
names are compared by their code points.

* `Config` holds the options with their defaults, `Config.layout` lays them out as a record.
* `ordered` chooses the order of parts; `mem_ordered` says that it shows the same parts either way.
-/
import ApiTypes.Decoder

namespace ApiTypes

/-! ## 1. Options -/

/-- How a record is declared. -/
inductive ExportStyle where
  /-- As an interface. -/
  | interface
  /-- As an alias of a type. -/
  | type
  deriving DecidableEq, Repr, Inhabited

/-- The name of a style. -/
def ExportStyle.name : ExportStyle → String
  | .interface => "interface"
  | .type => "type"

/-- The options of a run. -/
structure Config where
  /-- Sorts what has no order of its own by name. -/
  alphabetize : Bool := false
  /-- Makes every member and every list read-only. -/
  immutableTypes : Bool := false
  /-- Lets objects that say nothing about further members have any. -/
  additionalProperties : Bool := false
  /-- Takes null out of the types that have a default. -/
  defaultNonNullable : Bool := false
  /-- Makes tuples of lists whose length is bounded. -/
  supportArrayLength : Bool := false
  exportStyle : ExportStyle := .interface
  /-- Makes patterns of paths with parameters. -/
  pathParamsAsTypes : Bool := false
  /-- How deep schemas may be nested. -/
  maxDepth : Nat := 256
  /-- Adds the files that list the operations of each tag. -/
  catalog : Bool := false
  /-- The module that those files import. -/
  runtimeModule : String := "@oats/runtime"
  deriving DecidableEq, Repr, Inhabited

/-! ## 2. Reading the options -/

namespace Config

open Decoder

/-- The names of the styles. -/
def styleNames : List (String × ExportStyle) :=
  [("interface", .interface), ("type", .type), ("type-alias", .type)]

/-- The names of the styles as messages list them. -/
def shownStyleNames : List String := ["interface", "type", "type-alias"]

/-- A style by its name. -/
def exportStyleDecoder : Decoder ExportStyle := variant styleNames shownStyleNames

/-- A natural number that fits 64 bits. -/
def depthDecoder : Decoder Nat
  | .number (.int i) =>
    if 0 ≤ i then .ok i.toNat else .error (.outOfRange (.number (.int i)) "usize")
  | v => .error (.wrongType v "usize")

/-- The names of an option that has two: the second stands for the first. -/
def aliasOf (name : String) : String :=
  if name = "additionalPropertiesDefault" then "additionalProperties" else name

/-- The options as a record. -/
def layout : Layout Config where
  name := "Config"
  start := {}
  fields := [
    .of "alphabetize" flag fun x c => { c with alphabetize := x },
    .of "immutableTypes" flag fun x c => { c with immutableTypes := x },
    .of "additionalProperties" flag fun x c => { c with additionalProperties := x },
    .of "defaultNonNullable" flag fun x c => { c with defaultNonNullable := x },
    .of "supportArrayLength" flag fun x c => { c with supportArrayLength := x },
    .of "exportStyle" exportStyleDecoder fun x c => { c with exportStyle := x },
    .of "pathParamsAsTypes" flag fun x c => { c with pathParamsAsTypes := x },
    .of "maxDepth" depthDecoder fun x c => { c with maxDepth := x },
    .of "catalog" flag fun x c => { c with catalog := x },
    .of "runtimeModule" text fun x c => { c with runtimeModule := x }]

/-- Reads the fields of an object; an option given under both of its names is an error. -/
def ofFields (seen : List String) (config : Config) :
    List (String × Json) → Except DecodeError Config
  | [] => .ok config
  | (key, value) :: rest => do
    let name := aliasOf key
    if seen.contains name && (layout.fields.map (·.name)).contains name then
      .error (.duplicateField name)
    let config ← layout.putField config (name, value)
    ofFields (name :: seen) config rest

/-- Reads the options from a JSON value. -/
def decode : Decoder Config
  | .object entries => ofFields [] {} entries
  | v => layout.decode v

end Config

/-! ## 3. The order of parts -/

/-- Named parts in the order in which they are shown. -/
def ordered {α : Type} (alphabetize : Bool) (entries : List (String × α)) : List (String × α) :=
  if alphabetize then entries.mergeSort fun a b => !(b.1 < a.1 : Bool) else entries

/-- Either order is a permutation of the declaration. -/
theorem ordered_perm {α : Type} (alphabetize : Bool) (entries : List (String × α)) :
    (ordered alphabetize entries).Perm entries := by
  unfold ordered
  split
  · exact List.mergeSort_perm _ _
  · exact List.Perm.refl _

theorem mem_ordered {α : Type} {alphabetize : Bool} {entries : List (String × α)}
    {entry : String × α} : entry ∈ ordered alphabetize entries ↔ entry ∈ entries :=
  (ordered_perm alphabetize entries).mem_iff

end ApiTypes
