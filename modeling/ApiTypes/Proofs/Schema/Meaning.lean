/-
# What a schema says about a value

The keywords of a raw schema each ask something of a value, and a value satisfies the schema
when it gives all of them what they ask.  This module writes that down twice: for the raw
schema, keyword by keyword (`Satisfies`), and for the sorted schema, kind by kind (`Accepts`).
`Proofs.Schema.Sorting` compares the two.

A reference means what the reader of the document makes of it: both definitions take the
meaning `named` of references as a parameter.
-/
import ApiTypes.Proofs.Json.Equality
import ApiTypes.Schema.Classify

namespace ApiTypes

/-! ## 1. Types of values -/

/-- The types by their names.  A whole number is an integer however it is stored. -/
inductive Json.HasType : Json → String → Prop
  | null : HasType .null "null"
  | boolean (b : Bool) : HasType (.bool b) "boolean"
  | integer (n : JsonNumber) (i : ℤ) (h : n.toRat = i) : HasType (.number n) "integer"
  | number (n : JsonNumber) : HasType (.number n) "number"
  | string (s : String) : HasType (.string s) "string"
  | array (items : List Json) : HasType (.array items) "array"
  | object (fields : List (String × Json)) : HasType (.object fields) "object"

section HasType

variable {v : Json} {name : String}

theorem Json.HasType.eq_null (h : v.HasType name) (hn : name = "null") : v = .null := by
  cases h with
  | null => rfl
  | boolean | integer | number | string | array | object => exact absurd hn (by decide)

theorem Json.HasType.exists_array (h : v.HasType name) (hn : name = "array") :
    ∃ items, v = .array items := by
  cases h with
  | array items => exact ⟨items, rfl⟩
  | null | boolean | integer | number | string | object => exact absurd hn (by decide)

theorem Json.HasType.exists_object (h : v.HasType name) (hn : name = "object") :
    ∃ fields, v = .object fields := by
  cases h with
  | object fields => exact ⟨fields, rfl⟩
  | null | boolean | integer | number | string | array => exact absurd hn (by decide)

/-- Whole numbers are numbers. -/
theorem Json.HasType.number_of_integer (h : v.HasType name) (hn : name = "integer") :
    v.HasType "number" := by
  cases h with
  | integer n i _ => exact .number n
  | null | boolean | number | string | array | object => exact absurd hn (by decide)

end HasType

namespace Schema

/-! ## 2. Keywords without nested schemas -/

/-- Whether the schema lets null stand for a value. -/
def Nullable (fs : List (String × Json)) : Prop :=
  flagAt fs "nullable" = true ∨ flagAt fs "x-nullable" = true ∨ "null" ∈ declaredTypes fs

/-- What the keywords that hold no schema ask of a value. -/
structure MeetsOwn (fs : List (String × Json)) (v : Json) : Prop where
  type : hasKey fs "type" = true → ∃ t ∈ declaredTypes fs, v.HasType t
  enum : ∀ values, Json.lookup "enum" fs = some (.array values) → ∃ w ∈ values, v.Equal w
  const : ∀ w, Json.lookup "const" fs = some w → v.Equal w
  required : ∀ fields, v = .object fields →
    ∀ name ∈ textsAt fs "required", name ∈ fields.map Prod.fst
  least : ∀ items n, v = .array items →
    (Json.lookup "minItems" fs).bind Json.asNat? = some n → n ≤ items.length
  most : ∀ items n, v = .array items →
    (Json.lookup "maxItems" fs).bind Json.asNat? = some n → items.length ≤ n

/-- The properties that a schema declares. -/
def declaredNames (fs : List (String × Json)) : List String :=
  (((Json.lookup "properties" fs).bind Json.asObject?).getD []).map Prod.fst

/-- Exactly one of several conditions holds of a value. -/
def ExactlyOne (conditions : List (Json → Prop)) (v : Json) : Prop :=
  ∃ before P after, conditions = before ++ P :: after ∧ P v ∧ ∀ Q ∈ before ++ after, ¬ Q v

/-! ## 3. Raw schemas -/

mutual
/-- **A value satisfies a raw schema.**  `true` is satisfied by every value and `false` by none;
a schema that is a reference says what its target says and nothing else; any other schema is
satisfied by null if it lets null stand for a value, and by the values that meet all of its
keywords. -/
def Satisfies (named : String → Json → Prop) : Json → Json → Prop
  | .bool b, _ => b = true
  | .object fs, v =>
    match textAt fs "$ref" with
    | some target => named target v
    | none => (v = .null ∧ Nullable fs) ∨ (MeetsOwn fs v ∧ Meets named (declaredNames fs) fs v)
  | _, _ => False
termination_by structural s => s

/-- A value meets the keywords that hold schemas; `declared` are the properties beside which
further ones are additional. -/
def Meets (named : String → Json → Prop) (declared : List String) :
    List (String × Json) → Json → Prop
  | [], _ => True
  | (key, value) :: rest, v =>
    (if key = "allOf" then ∀ P ∈ itemMeanings named value, P v
      else if key = "oneOf" then ExactlyOne (itemMeanings named value) v
      else if key = "anyOf" then ∃ P ∈ itemMeanings named value, P v
      else if key = "items" then
        ∀ items, v = .array items → ∀ w ∈ items, Satisfies named value w
      else if key = "properties" then
        ∀ fields, v = .object fields → ∀ P ∈ propertyMeanings named value,
          ∀ w, Json.lookup P.1 fields = some w → P.2 w
      else if key = "additionalProperties" then
        ∀ fields, v = .object fields →
          ∀ field ∈ fields, field.1 ∉ declared → Satisfies named value field.2
      else True) ∧ Meets named declared rest v
termination_by structural fs => fs

/-- The conditions that the schemas of a list state. -/
def itemMeanings (named : String → Json → Prop) : Json → List (Json → Prop)
  | .array schemas => meanings named schemas
  | _ => []
termination_by structural s => s

/-- The conditions of the schemas of a list, in its order. -/
def meanings (named : String → Json → Prop) : List Json → List (Json → Prop)
  | [] => []
  | s :: rest => Satisfies named s :: meanings named rest
termination_by structural ss => ss

/-- The conditions that the schemas of properties state, under the names of the properties. -/
def propertyMeanings (named : String → Json → Prop) : Json → List (String × (Json → Prop))
  | .object properties => fieldMeanings named properties
  | _ => []
termination_by structural s => s

/-- The conditions of the schemas of some fields, each under its key. -/
def fieldMeanings (named : String → Json → Prop) :
    List (String × Json) → List (String × (Json → Prop))
  | [] => []
  | (name, s) :: rest => (name, Satisfies named s) :: fieldMeanings named rest
termination_by structural fs => fs
end

theorem meanings_eq_map (named : String → Json → Prop) (schemas : List Json) :
    meanings named schemas = schemas.map (Satisfies named) := by
  induction schemas with
  | nil => rfl
  | cons s rest ih => rw [meanings, ih, List.map_cons]

theorem fieldMeanings_eq_map (named : String → Json → Prop) (properties : List (String × Json)) :
    fieldMeanings named properties = properties.map fun p => (p.1, Satisfies named p.2) := by
  induction properties with
  | nil => rfl
  | cons p rest ih => rw [fieldMeanings, ih, List.map_cons]

/-- What the keywords of a schema ask, one keyword at a time. -/
theorem Meets.of_mem {named : String → Json → Prop} {declared : List String}
    {fs : List (String × Json)} {v : Json} (h : Meets named declared fs v) {key : String}
    {value : Json} (hmem : (key, value) ∈ fs) : Meets named declared [(key, value)] v := by
  induction fs with
  | nil => exact absurd hmem (by simp)
  | cons kv rest ih =>
    rw [Meets] at h
    rcases List.mem_cons.mp hmem with rfl | hmem
    · rw [Meets]
      exact ⟨h.1, trivial⟩
    · exact ih h.2 hmem

section Keywords

variable {named : String → Json → Prop} {declared : List String} {fs : List (String × Json)}
  {v : Json} {schemas : List Json}

theorem Meets.allOf (h : Meets named declared fs v)
    (hl : Json.lookup "allOf" fs = some (.array schemas)) :
    ∀ s ∈ schemas, Satisfies named s v := by
  have hk := (h.of_mem (Json.mem_of_lookup hl)).1
  simp only [if_true, itemMeanings, meanings_eq_map, List.mem_map] at hk
  exact fun s hs => hk _ ⟨s, hs, rfl⟩

theorem Meets.oneOf (h : Meets named declared fs v)
    (hl : Json.lookup "oneOf" fs = some (.array schemas)) :
    ∃ s ∈ schemas, Satisfies named s v := by
  have hk := (h.of_mem (Json.mem_of_lookup hl)).1
  rw [if_neg (by decide), if_pos rfl, itemMeanings, meanings_eq_map] at hk
  obtain ⟨before, P, after, hsplit, hP, -⟩ := hk
  have hmem : P ∈ schemas.map (Satisfies named) := by rw [hsplit]; simp
  obtain ⟨s, hs, rfl⟩ := List.mem_map.mp hmem
  exact ⟨s, hs, hP⟩

theorem Meets.anyOf (h : Meets named declared fs v)
    (hl : Json.lookup "anyOf" fs = some (.array schemas)) :
    ∃ s ∈ schemas, Satisfies named s v := by
  have hk := (h.of_mem (Json.mem_of_lookup hl)).1
  rw [if_neg (by decide), if_neg (by decide), if_pos rfl, itemMeanings, meanings_eq_map] at hk
  obtain ⟨P, hmem, hP⟩ := hk
  obtain ⟨s, hs, rfl⟩ := List.mem_map.mp hmem
  exact ⟨s, hs, hP⟩

theorem Meets.items (h : Meets named declared fs v) {s : Json}
    (hl : Json.lookup "items" fs = some s) {ws : List Json} (hv : v = .array ws) :
    ∀ w ∈ ws, Satisfies named s w := by
  have hk := (h.of_mem (Json.mem_of_lookup hl)).1
  simp only [String.reduceEq, if_false, if_true] at hk
  exact hk ws hv

theorem Meets.property (h : Meets named declared fs v) {properties : List (String × Json)}
    (hl : Json.lookup "properties" fs = some (.object properties)) {fields : List (String × Json)}
    (hv : v = .object fields) {name : String} {s : Json} (hs : (name, s) ∈ properties) {w : Json}
    (hw : Json.lookup name fields = some w) : Satisfies named s w := by
  have hk := (h.of_mem (Json.mem_of_lookup hl)).1
  simp only [String.reduceEq, if_false, if_true, propertyMeanings, fieldMeanings_eq_map] at hk
  exact hk fields hv _ (List.mem_map.mpr ⟨(name, s), hs, rfl⟩) w hw

theorem Meets.additional (h : Meets named declared fs v) {s : Json}
    (hl : Json.lookup "additionalProperties" fs = some s) {fields : List (String × Json)}
    (hv : v = .object fields) {field : String × Json} (hf : field ∈ fields)
    (hd : field.1 ∉ declared) : Satisfies named s field.2 := by
  have hk := (h.of_mem (Json.mem_of_lookup hl)).1
  simp only [String.reduceEq, if_false, if_true] at hk
  exact hk fields hv field hf hd

end Keywords

/-! ## 4. Sorted schemas -/

mutual
/-- **A value is accepted by a sorted schema.**  A discriminator asks for tags, of which the
keywords say nothing; a combination that has one accepts null at most. -/
def Accepts (named : String → Json → Prop) : Schema → Json → Prop
  | .reference target _, v => named target v
  | .unknown _, _ => True
  | .scalar kinds t, v =>
    (v = .null ∧ t.nullable = true) ∨ ∃ k ∈ kinds, v.HasType k.name
  | .enumerated values t, v => (v = .null ∧ t.nullable = true) ∨ ∃ w ∈ values, v.Equal w
  | .array items least most t, v =>
    (v = .null ∧ t.nullable = true) ∨ ∃ ws, v = .array ws ∧
      (∀ n, least = some n → n ≤ ws.length) ∧ (∀ n, most = some n → ws.length ≤ n) ∧
      ∀ w ∈ ws, AcceptsOption named items w
  | .object properties required additional t, v =>
    (v = .null ∧ t.nullable = true) ∨ ∃ fields, v = .object fields ∧
      (∀ name ∈ required, name ∈ fields.map Prod.fst) ∧
      (∀ P ∈ propertyAcceptances named properties,
        ∀ w, Json.lookup P.1 fields = some w → P.2 w) ∧
      ∀ field ∈ fields, field.1 ∉ properties.map Prod.fst →
        AcceptsAdditional named additional field.2
  | .composed allOf oneOf anyOf discriminator base t, v =>
    (v = .null ∧ t.nullable = true) ∨ (discriminator = none ∧
      (∀ P ∈ acceptances named allOf, P v) ∧
      (oneOf = [] ∨ ∃ P ∈ acceptances named oneOf, P v) ∧
      (anyOf = [] ∨ ∃ P ∈ acceptances named anyOf, P v) ∧ AcceptsOption named base v)

/-- The conditions that the schemas of a list state. -/
def acceptances (named : String → Json → Prop) : List Schema → List (Json → Prop)
  | [] => []
  | s :: rest => Accepts named s :: acceptances named rest

/-- The conditions that the schemas of properties state, under the names of the properties. -/
def propertyAcceptances (named : String → Json → Prop) :
    List (String × Schema) → List (String × (Json → Prop))
  | [] => []
  | (name, s) :: rest => (name, Accepts named s) :: propertyAcceptances named rest

/-- Where there is no schema everything is accepted. -/
def AcceptsOption (named : String → Json → Prop) : Option Schema → Json → Prop
  | none, _ => True
  | some s, v => Accepts named s v

/-- Whether a field may stand beside the declared properties. -/
def AcceptsAdditional (named : String → Json → Prop) : Additional Schema → Json → Prop
  | .unsaid, _ => True
  | .allowed allowed, _ => allowed = true
  | .schema s, v => Accepts named s v
end

theorem acceptances_eq_map (named : String → Json → Prop) (schemas : List Schema) :
    acceptances named schemas = schemas.map (Accepts named) := by
  induction schemas with
  | nil => rfl
  | cons s rest ih => rw [acceptances, ih, List.map_cons]

theorem propertyAcceptances_eq_map (named : String → Json → Prop)
    (properties : List (String × Schema)) :
    propertyAcceptances named properties = properties.map fun p => (p.1, Accepts named p.2) := by
  induction properties with
  | nil => rfl
  | cons p rest ih => rw [propertyAcceptances, ih, List.map_cons]

end Schema
end ApiTypes
