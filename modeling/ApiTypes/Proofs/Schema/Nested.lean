/-
# The schemas inside a schema

A raw schema holds further schemas under six of its keywords.  Sorting goes down into exactly
those, and what it hands up is read off the fields by look-ups.

* `Schema.Part s S`: `s` stands directly inside `S`, `Schema.parts` lists such schemas, and
  `Schema.Part.induction` is induction on raw schemas along the relation.
* `Schema.nestedIn_eq` says what sorting hands up, one keyword at a time.
-/
import ApiTypes.Schema.Classify
import Mathlib.Logic.Relation
import Mathlib.Tactic.SplitIfs

namespace ApiTypes.Schema

/-! ## 1. Schemas directly inside a schema -/

/-- `Part s S`: the raw schema `s` stands under a keyword of the raw schema `S`. -/
inductive Part : Json → Json → Prop
  | member {fs : List (String × Json)} {key : String} {schemas : List Json} {s : Json}
      (hkey : key ∈ ["allOf", "oneOf", "anyOf"])
      (h : Json.lookup key fs = some (.array schemas)) (hs : s ∈ schemas) : Part s (.object fs)
  | items {fs : List (String × Json)} {s : Json} (h : Json.lookup "items" fs = some s) :
      Part s (.object fs)
  | property {fs properties : List (String × Json)} {name : String} {s : Json}
      (h : Json.lookup "properties" fs = some (.object properties))
      (hs : (name, s) ∈ properties) : Part s (.object fs)
  | additional {fs : List (String × Json)} {s : Json}
      (h : Json.lookup "additionalProperties" fs = some s) : Part s (.object fs)

/-- The schemas that stand directly inside a schema object, keyword by keyword. -/
def parts (fs : List (String × Json)) : List Json :=
  ["allOf", "oneOf", "anyOf"].flatMap
      (fun key => ((Json.lookup key fs).bind Json.asArray?).getD [])
    ++ (Json.lookup "items" fs).toList
    ++ (((Json.lookup "properties" fs).bind Json.asObject?).getD []).map Prod.snd
    ++ (Json.lookup "additionalProperties" fs).toList

theorem Part.mem_parts {s : Json} {fs : List (String × Json)} (h : Part s (.object fs)) :
    s ∈ parts fs := by
  rw [parts, List.mem_append, List.mem_append, List.mem_append]
  cases h with
  | member hkey h hs =>
    refine Or.inl (Or.inl (Or.inl (List.mem_flatMap.mpr ⟨_, hkey, ?_⟩)))
    rw [h]
    exact hs
  | items h => exact Or.inl (Or.inl (Or.inr (by rw [h]; exact List.mem_singleton_self s)))
  | property h hs => exact Or.inl (Or.inr (List.mem_map.mpr ⟨_, by rw [h]; exact hs, rfl⟩))
  | additional h => exact Or.inr (by rw [h]; exact List.mem_singleton_self s)

/-- A field is smaller than its object. -/
theorem sizeOf_lt_of_lookup {fs : List (String × Json)} {key : String} {v : Json}
    (h : Json.lookup key fs = some v) : sizeOf v < sizeOf (Json.object fs) := by
  induction fs with
  | nil => exact absurd h (by simp [Json.lookup])
  | cons kv rest ih =>
    obtain ⟨k, w⟩ := kv
    simp only [Json.lookup] at h
    split at h
    · rw [Option.some.injEq] at h
      simp only [h, Json.object.sizeOf_spec, List.cons.sizeOf_spec, Prod.mk.sizeOf_spec]
      omega
    · have hlt := ih h
      simp only [Json.object.sizeOf_spec, List.cons.sizeOf_spec] at hlt ⊢
      omega

/-- A schema inside a schema is smaller than it. -/
theorem Part.sizeOf_lt {s S : Json} (h : Part s S) : sizeOf s < sizeOf S := by
  cases h with
  | member _ h hs =>
    have hlt := sizeOf_lt_of_lookup h
    have := List.sizeOf_lt_of_mem hs
    rw [Json.array.sizeOf_spec] at hlt
    omega
  | items h => exact sizeOf_lt_of_lookup h
  | property h hs =>
    have hlt := sizeOf_lt_of_lookup h
    have := List.sizeOf_lt_of_mem hs
    rw [Prod.mk.sizeOf_spec] at this
    rw [Json.object.sizeOf_spec] at hlt
    omega
  | additional h => exact sizeOf_lt_of_lookup h

/-- Induction on raw schemas: a fact about a schema may be proved from the same fact about the
schemas directly inside it. -/
theorem Part.induction {motive : Json → Prop}
    (step : ∀ S, (∀ s, Part s S → motive s) → motive S) (S : Json) : motive S :=
  step S fun s _ => Part.induction step s
termination_by sizeOf S
decreasing_by exact Part.sizeOf_lt ‹_›

/-! ## 2. What sorting hands up -/

theorem ofList_eq_map (schemas : List Json) : ofList schemas = schemas.map ofJson := by
  induction schemas with
  | nil => rfl
  | cons s rest ih => rw [ofList, ih, List.map_cons]

theorem ofPropertyList_eq_map (properties : List (String × Json)) :
    ofPropertyList properties = properties.map fun p => (p.1, ofJson p.2) := by
  induction properties with
  | nil => rfl
  | cons p rest ih => rw [ofPropertyList, ih, List.map_cons]

/-- The sorted schemas of the list under a keyword. -/
def listAt (fs : List (String × Json)) (key : String) : List Schema :=
  ((Json.lookup key fs).map ofItems).getD []

theorem listAt_eq_map {fs : List (String × Json)} {key : String} {schemas : List Json}
    (h : Json.lookup key fs = some (.array schemas)) : listAt fs key = schemas.map ofJson := by
  rw [listAt, h, Option.map_some, Option.getD_some, ofItems, ofList_eq_map]

theorem listAt_eq_nil {fs : List (String × Json)} {key : String}
    (h : ∀ schemas, Json.lookup key fs ≠ some (.array schemas)) : listAt fs key = [] := by
  rw [listAt]
  cases hl : Json.lookup key fs with
  | none => rfl
  | some w =>
    cases w with
    | array schemas => exact absurd hl (h schemas)
    | null | bool _ | number _ | string _ | object _ => rfl

/-- The sorted schema of the additional properties. -/
def additionalOf : Json → Additional Schema
  | .bool allowed => .allowed allowed
  | s => .schema (ofJson s)

/-- **What sorting hands up**, by look-ups: of a repeated keyword the first counts. -/
theorem nestedIn_eq (fs : List (String × Json)) : nestedIn fs =
    { allOf := listAt fs "allOf"
      oneOf := listAt fs "oneOf"
      anyOf := listAt fs "anyOf"
      items := (Json.lookup "items" fs).map ofJson
      properties := ((Json.lookup "properties" fs).map ofProperties).getD []
      additional := ((Json.lookup "additionalProperties" fs).map additionalOf).getD .unsaid } := by
  induction fs with
  | nil => rfl
  | cons kv rest ih =>
    obtain ⟨key, value⟩ := kv
    unfold nestedIn
    simp only [ih]
    split_ifs <;> simp_all [listAt, Json.lookup]
    -- the last keyword is left, whose value decides by its form
    cases value <;> rfl

end ApiTypes.Schema
