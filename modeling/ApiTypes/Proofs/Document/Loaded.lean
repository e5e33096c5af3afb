/-
# Loaded documents

A document keeps the value it was read from and the description that the value spells.  The two
agree: what a pointer finds in the value is what the description has in that place.  References
are resolved in the value and typed parts come from the description, so this is what lets a
reference and the part it leads to be spoken of together.

* `Document.Loaded` says that a document was read from a value without repeated keys, which
  every text gives (`Document.loaded_of_ofText`).
* `find_of_section` and `entry_of_find`: the entries of a section stand under their names, and what
  stands there is an entry.
* `Document.Loaded.component_of_find` says so of the collections of the components.
-/
import ApiTypes.Load
import ApiTypes.Proofs.Model.Names

namespace ApiTypes

open Json

/-! ## 1. Loading -/

namespace Document

/-- A document that was read from a value without repeated keys. -/
def Loaded (d : Document) : Prop :=
  ∃ raw, raw.UniqueKeys ∧ ofJson raw d.readAddress? = .ok d

/-- **What is read from a value**: a description that the value spells, the value being an object
whose version is a text. -/
theorem of_ofJson {raw : Json} {readAddress? : String → Option Uri} {d : Document}
    (h : ofJson raw readAddress? = .ok d) :
    (∃ fs v, raw = .object fs ∧ d.raw = .object (Json.setField "openapi" (.string v) fs)) ∧
      Decode.spec d.raw = .ok d.spec ∧ d.readAddress? = readAddress? := by
  unfold ofJson at h
  split at h
  · cases h
  · rename_i v hversion
    split at h
    · simp only at h
      split at h
      · rename_i spec hspec
        cases h
        cases raw with
        | object fs => exact ⟨⟨fs, v, rfl, rfl⟩, hspec, rfl⟩
        | null | bool _ | number _ | string _ | array _ =>
          simp [version, Json.field?, Json.fields, Json.lookup] at hversion
      · cases h
    · cases h

/-- Every document that is read from a text is loaded. -/
theorem loaded_of_ofText {text : String} {readAddress? : String → Option Uri} {d : Document}
    (h : ofText text readAddress? = .ok d) : d.Loaded := by
  unfold ofText at h
  split at h
  · rename_i v _
    exact ⟨v.toJson, v.uniqueKeys_toJson, (of_ofJson h).2.2.symm ▸ h⟩
  · cases h

/-- The value that a loaded document keeps: an object without repeated keys, which spells the
description. -/
theorem Loaded.spells {d : Document} (h : d.Loaded) :
    d.raw.UniqueKeys ∧ (∃ fs, d.raw = .object fs) ∧ Decode.spec d.raw = .ok d.spec := by
  obtain ⟨raw, hk, h⟩ := h
  obtain ⟨⟨fs, v, rfl, hraw⟩, hspec, -⟩ := of_ofJson h
  exact ⟨hraw ▸ hk.setField (.string v), ⟨_, hraw⟩, hspec⟩

theorem Loaded.uniqueKeys {d : Document} (h : d.Loaded) : d.raw.UniqueKeys := h.spells.1

/-- The description of a loaded document names every part once. -/
theorem Loaded.uniqueNames {d : Document} (h : d.Loaded) : d.spec.UniqueNames :=
  Decode.ensures_spec d.raw d.spec h.uniqueKeys h.spells.2.2

end Document

/-! ## 2. Where parts stand -/

section Sections

variable {α : Type} {decode : Decoder α} {fs : List (String × Json)} {name key : String}

/-- An entry of a section stands under its name in the section, and is no extension. -/
theorem find_of_section {o : Option (List (String × α))} (hk : UniqueKeys (.object fs))
    (h : match Json.lookup name fs with
      | some v => Decoder.optional (Decoder.entries decode) v = .ok o
      | none => o = none)
    {a : α} (ha : (key, a) ∈ o.getD []) : Decoder.isExtension key = false ∧
      ∃ v, Pointer.find? (.object fs) ⟨[name, key]⟩ = some v ∧ decode v = .ok a := by
  cases o with
  | none => exact absurd ha (by simp)
  | some es =>
    split at h
    · rename_i w hw
      obtain ⟨hx, v, hv, hread⟩ :=
        Decoder.find_of_optional_entries (hk.field (mem_of_lookup hw)) h ha
      refine ⟨hx, v, ?_, hread⟩
      calc Pointer.find? (.object fs) ⟨[name, key]⟩
          = (Json.lookup name fs).bind (Pointer.findFrom? · [key]) := rfl
        _ = (Pointer.step? w key).bind (Pointer.findFrom? · []) := by rw [hw]; rfl
        _ = some v := by rw [hv]; rfl
    · cases h

/-- What a pointer with two segments finds is found in two steps. -/
theorem step_of_find {v : Json} {rest : List String}
    (h : Pointer.find? (.object fs) ⟨name :: key :: rest⟩ = some v) :
    ∃ w x, Json.lookup name fs = some w ∧ Pointer.step? w key = some x ∧
      Pointer.findFrom? x rest = some v := by
  obtain ⟨w, hw, h⟩ := Option.bind_eq_some_iff.mp h
  obtain ⟨x, hx, h⟩ := Option.bind_eq_some_iff.mp h
  exact ⟨w, x, hw, hx, h⟩

/-- What stands in a section is an entry of it, unless it is an extension. -/
theorem entry_of_find {o : Option (List (String × α))}
    (h : match Json.lookup name fs with
      | some v => Decoder.optional (Decoder.entries decode) v = .ok o
      | none => o = none)
    {v : Json} {rest : List String}
    (hv : Pointer.find? (.object fs) ⟨name :: key :: rest⟩ = some v)
    (hx : Decoder.isExtension key = false) : ∃ a, (key, a) ∈ o.getD [] := by
  obtain ⟨w, x, hw, hstep, _⟩ := step_of_find hv
  simp only [hw] at h
  obtain ⟨es, a, rfl, ha⟩ := Decoder.exists_of_optional_entries h hstep hx
  exact ⟨a, ha⟩

/-- What stands in a collection is an entry of it. -/
theorem name_of_find {o : Option (List (String × α))}
    (h : match Json.lookup name fs with
      | some v => Decoder.optional (Decoder.named decode) v = .ok o
      | none => o = none)
    {v : Json} {rest : List String}
    (hv : Pointer.find? (.object fs) ⟨name :: key :: rest⟩ = some v) :
    ∃ names, o.map (·.map Prod.fst) = some names ∧ key ∈ names := by
  obtain ⟨w, x, hw, hstep, _⟩ := step_of_find hv
  simp only [hw] at h
  obtain ⟨es, a, rfl, ha⟩ := Decoder.exists_of_optional_named h hstep
  exact ⟨es.map Prod.fst, rfl, List.mem_map.mpr ⟨_, ha, rfl⟩⟩

end Sections

namespace Document.Loaded

open ApiTypes.Field

variable {d : Document} (h : d.Loaded) {name : String}

include h

/-- The components are read from the value under their name. -/
theorem components_eq {fs : List (String × Json)} (hfs : d.raw = .object fs) :
    match Json.lookup "components" fs with
    | some v => Decoder.optional Decode.components v = .ok d.spec.components
    | none => d.spec.components = none := by
  obtain ⟨hk, -, hspec⟩ := h.spells
  rw [hfs] at hk hspec
  refine Layout.Reads.of_decode (.of_field 5 rfl rfl (sets_own fun _ _ => rfl) ?_) hk.nodup hspec
  simp [leaves_of, leaves_needed]

/-- What stands in a collection of the components is a part of the collection. -/
theorem component_of_find {kind : String} {names : Option (List String)}
    (hkind : (kind, names) ∈ (d.spec.components.getD {}).collections) {rest : List String}
    {v : Json} (hv : Pointer.find? d.raw ⟨"components" :: kind :: name :: rest⟩ = some v) :
    ∃ ns, names = some ns ∧ name ∈ ns := by
  obtain ⟨hk, ⟨fs, hfs⟩, -⟩ := h.spells
  have hcomponents := h.components_eq hfs
  rw [hfs] at hk hv
  obtain ⟨w, hw, hv⟩ := Option.bind_eq_some_iff.mp hv
  have hw : Json.lookup "components" fs = some w := hw
  simp only [hw] at hcomponents
  -- an array has no positions with the names of the collections
  have hobject : ∃ cs, w = .object cs := by
    cases w with
    | object cs => exact ⟨cs, rfl⟩
    | array items =>
      have hposition : Pointer.position? kind = none := by
        simp only [Components.collections, List.mem_cons, Prod.mk.injEq, List.not_mem_nil,
          or_false] at hkind
        rcases hkind with ⟨rfl, _⟩ | ⟨rfl, _⟩ | ⟨rfl, _⟩ | ⟨rfl, _⟩ | ⟨rfl, _⟩ | ⟨rfl, _⟩ <;> decide
      obtain ⟨x, hx, _⟩ := Option.bind_eq_some_iff.mp hv
      simp [Pointer.step?, hposition] at hx
    | null | bool _ | number _ | string _ => cases hv
  obtain ⟨cs, rfl⟩ := hobject
  rcases Decoder.ok_of_optional hcomponents with ⟨hnull, _⟩ | ⟨c, hc, hsome⟩
  · cases hnull
  have hcs := (hk.field (mem_of_lookup hw)).nodup
  rw [hsome, Option.getD_some] at hkind
  simp only [Components.collections, List.mem_cons, Prod.mk.injEq, List.not_mem_nil,
    or_false] at hkind
  rcases hkind with ⟨rfl, rfl⟩ | ⟨rfl, rfl⟩ | ⟨rfl, rfl⟩ | ⟨rfl, rfl⟩ | ⟨rfl, rfl⟩ | ⟨rfl, rfl⟩
  -- each collection is read by the field at its position
  · exact name_of_find (Layout.Reads.of_decode (.of_field 0 rfl rfl (sets_own fun _ _ => rfl)
      (by simp [leaves_of])) hcs hc) hv
  · exact name_of_find (Layout.Reads.of_decode (.of_field 1 rfl rfl (sets_own fun _ _ => rfl)
      (by simp [leaves_of])) hcs hc) hv
  · exact name_of_find (Layout.Reads.of_decode (.of_field 2 rfl rfl (sets_own fun _ _ => rfl)
      (by simp [leaves_of])) hcs hc) hv
  · exact name_of_find (Layout.Reads.of_decode (.of_field 3 rfl rfl (sets_own fun _ _ => rfl)
      (by simp [leaves_of])) hcs hc) hv
  · exact name_of_find (Layout.Reads.of_decode (.of_field 4 rfl rfl (sets_own fun _ _ => rfl)
      (by simp [leaves_of])) hcs hc) hv
  · exact name_of_find (Layout.Reads.of_decode (.of_field 5 rfl rfl (sets_own fun _ _ => rfl)
      (by simp [leaves_of])) hcs hc) hv

end Document.Loaded

end ApiTypes
