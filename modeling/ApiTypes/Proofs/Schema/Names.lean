/-
# Properties have names of their own

A sorted schema lists the properties of an object, and nothing in its form keeps a name from
being listed twice.  Sorting does: the names are the keys of an object of the raw schema, and
those are not repeated.

* `Schema.UniqueNames`: no object in a sorted schema lists a property twice.
* `Schema.uniqueNames_ofJson`: sorting gives such schemas.
-/
import ApiTypes.Proofs.Json.Keys
import ApiTypes.Proofs.Schema.Sorting

namespace ApiTypes.Schema

open Json

/-- No object in a sorted schema lists a property twice. -/
inductive UniqueNames : Schema → Prop
  | reference (target : String) (t : Traits) : UniqueNames (.reference target t)
  | scalar (kinds : List ScalarKind) (t : Traits) : UniqueNames (.scalar kinds t)
  | enumerated (values : List Json) (t : Traits) : UniqueNames (.enumerated values t)
  | unknown (t : Traits) : UniqueNames (.unknown t)
  | array {items : Option Schema} {least most : Option Nat} {t : Traits}
      (h : ∀ s, items = some s → UniqueNames s) : UniqueNames (.array items least most t)
  | object {properties : List (String × Schema)} {required : List String}
      {additional : Additional Schema} {t : Traits} (names : (properties.map Prod.fst).Nodup)
      (h : ∀ p ∈ properties, UniqueNames p.2) (hr : ∀ s, additional = .schema s → UniqueNames s) :
      UniqueNames (.object properties required additional t)
  | composed {allOf oneOf anyOf : List Schema} {d : Option Discriminator} {base : Option Schema}
      {t : Traits} (hall : ∀ s ∈ allOf, UniqueNames s) (hone : ∀ s ∈ oneOf, UniqueNames s)
      (hany : ∀ s ∈ anyOf, UniqueNames s) (hbase : ∀ s, base = some s → UniqueNames s) :
      UniqueNames (.composed allOf oneOf anyOf d base t)

/-- The schemas handed up from inside a raw schema list no property twice. -/
structure Nested.UniqueNames (nested : Nested) : Prop where
  allOf : ∀ s ∈ nested.allOf, Schema.UniqueNames s
  oneOf : ∀ s ∈ nested.oneOf, Schema.UniqueNames s
  anyOf : ∀ s ∈ nested.anyOf, Schema.UniqueNames s
  items : ∀ s, nested.items = some s → Schema.UniqueNames s
  names : (nested.properties.map Prod.fst).Nodup
  properties : ∀ p ∈ nested.properties, Schema.UniqueNames p.2
  additional : ∀ s, nested.additional = .schema s → Schema.UniqueNames s

/-! ## 1. The steps of sorting -/

section Steps

variable {fs : List (String × Json)} {nested : Nested} {types : List String} {t : Traits}

theorem uniqueNames_single (h : nested.UniqueNames) : UniqueNames (single fs nested types t) := by
  unfold single
  simp only
  split_ifs
  · exact .array h.items
  · exact .object h.names h.properties h.additional
  · split
    · exact .scalar _ _
    · exact .unknown _

theorem uniqueNames_uncombined (h : nested.UniqueNames) :
    UniqueNames (uncombined fs nested types t) := by
  unfold uncombined
  simp only
  split_ifs
  · refine .composed (by simp) (by simp) ?_ (by simp)
    intro s hs
    obtain ⟨name, _, rfl⟩ := List.mem_map.mp hs
    exact uniqueNames_single h
  · exact uniqueNames_single h

theorem uniqueNames_base (h : nested.UniqueNames) {s : Schema} (hs : baseOf fs nested = some s) :
    UniqueNames s := by
  unfold baseOf at hs
  simp only at hs
  split_ifs at hs
  cases hs
  exact uniqueNames_uncombined h

theorem uniqueNames_ofFields (h : nested.UniqueNames) : UniqueNames (ofFields fs nested) := by
  unfold ofFields
  simp only
  split
  · exact .reference _ _
  · split_ifs
    · exact .enumerated _ _
    · exact .composed h.allOf h.oneOf h.anyOf fun s hs => uniqueNames_base h hs
    · exact uniqueNames_uncombined h

end Steps

/-! ## 2. Whole schemas -/

/-- The names of the properties are keys of an object. -/
theorem nodup_declaredNames {fs : List (String × Json)} (h : UniqueKeys (.object fs)) :
    (declaredNames fs).Nodup := by
  unfold declaredNames
  cases hl : Json.lookup "properties" fs with
  | none => simp
  | some w =>
    have hw := h.field (mem_of_lookup hl)
    cases w with
    | object properties => exact hw.nodup
    | null | bool _ | number _ | string _ | array _ => simp [asObject?]

/-- A schema inside a schema without repeated keys has none either. -/
theorem Part.uniqueKeys {s S : Json} (h : Part s S) (hk : UniqueKeys S) : UniqueKeys s := by
  cases h with
  | member _ h hs => exact (hk.field (mem_of_lookup h)).item hs
  | items h => exact hk.field (mem_of_lookup h)
  | property h hs => exact (hk.field (mem_of_lookup h)).field hs
  | additional h => exact hk.field (mem_of_lookup h)

/-- The schemas of a list list no property twice, if those inside the raw schema do not. -/
theorem uniqueNames_listAt {fs : List (String × Json)} {key : String}
    (hkey : key ∈ ["allOf", "oneOf", "anyOf"])
    (h : ∀ s, Part s (.object fs) → UniqueNames (ofJson s)) :
    ∀ s ∈ listAt fs key, UniqueNames s := by
  by_cases hl : ∃ schemas, Json.lookup key fs = some (.array schemas)
  · obtain ⟨schemas, hl⟩ := hl
    intro s hs
    rw [listAt_eq_map hl] at hs
    obtain ⟨s', hs', rfl⟩ := List.mem_map.mp hs
    exact h s' (.member hkey hl hs')
  · rw [listAt_eq_nil fun schemas h => hl ⟨schemas, h⟩]
    exact fun s hs => absurd hs (by simp)

theorem uniqueNames_nestedIn {fs : List (String × Json)} (hk : UniqueKeys (.object fs))
    (h : ∀ s, Part s (.object fs) → UniqueNames (ofJson s)) : (nestedIn fs).UniqueNames := by
  rw [nestedIn_eq]
  refine ⟨uniqueNames_listAt (by simp) h, uniqueNames_listAt (by simp) h,
    uniqueNames_listAt (by simp) h, ?_, ?_, ?_, ?_⟩
  · intro s hs
    obtain ⟨w, hw, rfl⟩ := Option.map_eq_some_iff.mp hs
    exact h w (.items hw)
  · rw [names_of_properties]
    exact nodup_declaredNames hk
  · intro p hp
    cases hl : Json.lookup "properties" fs with
    | none =>
      rw [hl] at hp
      exact absurd hp (by simp)
    | some w =>
      rw [hl] at hp
      cases w with
      | object properties =>
        rw [Option.map_some, Option.getD_some, ofProperties, ofPropertyList_eq_map] at hp
        obtain ⟨q, hq, rfl⟩ := List.mem_map.mp hp
        exact h q.2 (.property hl hq)
      | null | bool _ | number _ | string _ | array _ => exact absurd hp (by simp [ofProperties])
  · intro s hs
    cases hl : Json.lookup "additionalProperties" fs with
    | none =>
      rw [hl] at hs
      cases hs
    | some w =>
      rw [hl] at hs
      have hw := h w (.additional hl)
      cases w with
      | bool b => cases hs
      | null | number _ | string _ | array _ | object _ =>
        cases hs
        exact hw

/-- **Sorting lists no property twice.** -/
theorem uniqueNames_ofJson (S : Json) : UniqueKeys S → UniqueNames (ofJson S) := by
  induction S using Part.induction with
  | step S ih =>
    intro hk
    cases S with
    | object fs =>
      rw [ofJson]
      exact uniqueNames_ofFields (uniqueNames_nestedIn hk fun s hs => ih s hs (hs.uniqueKeys hk))
    | bool b =>
      cases b with
      | false => exact .enumerated _ _
      | true => exact .unknown _
    | null | number _ | string _ | array _ => exact .unknown _

end ApiTypes.Schema
