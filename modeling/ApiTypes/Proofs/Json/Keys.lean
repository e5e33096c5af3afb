/-
# Values without repeated keys

Objects keep their fields in a list, but a reader never leaves a key twice in one.
`Json.UniqueKeys` says so of a value and of everything in it.  It is what makes a look-up and
the list of fields agree, and with them a pointer and the part of a description that stands
there.

* `Json.distinctKeys` decides whether a value is so.
* `Json.UniqueKeys.find?`: what a pointer finds has no repeated keys either.
* `Json.lookup_iff_mem`: without repeated keys, looking a key up finds every field.
* `Yaml.Value.uniqueKeys_toJson`: every value that is read from a text is such a value.
-/
import ApiTypes.Pointer
import ApiTypes.Proofs.Json.Equality
import ApiTypes.Yaml.ToJson

namespace ApiTypes

namespace Json

/-! ## 1. Unique keys -/

/-- No object in a value has a key twice. -/
inductive UniqueKeys : Json → Prop
  | null : UniqueKeys .null
  | bool (b : Bool) : UniqueKeys (.bool b)
  | number (n : JsonNumber) : UniqueKeys (.number n)
  | string (s : String) : UniqueKeys (.string s)
  | array {items : List Json} (h : ∀ v ∈ items, UniqueKeys v) : UniqueKeys (.array items)
  | object {fs : List (String × Json)} (keys : (fs.map Prod.fst).Nodup)
      (h : ∀ f ∈ fs, UniqueKeys f.2) : UniqueKeys (.object fs)

section

variable {fs : List (String × Json)} {items : List Json} {key : String} {v : Json}

theorem UniqueKeys.nodup (h : UniqueKeys (.object fs)) : (fs.map Prod.fst).Nodup := by
  cases h with
  | object keys _ => exact keys

theorem UniqueKeys.field (h : UniqueKeys (.object fs)) (hv : (key, v) ∈ fs) : UniqueKeys v := by
  cases h with
  | object _ h => exact h _ hv

theorem UniqueKeys.item (h : UniqueKeys (.array items)) (hv : v ∈ items) : UniqueKeys v := by
  cases h with
  | array h => exact h v hv

end

mutual
/-- Whether no object in a value has a key twice. -/
def distinctKeys : Json → Bool
  | .array items => distinctItems items
  | .object fs => decide (fs.map Prod.fst).Nodup && distinctFields fs
  | _ => true

/-- The same of the items of an array. -/
def distinctItems : List Json → Bool
  | [] => true
  | v :: rest => distinctKeys v && distinctItems rest

/-- The same of the values of fields. -/
def distinctFields : List (String × Json) → Bool
  | [] => true
  | (_, v) :: rest => distinctKeys v && distinctFields rest
end

mutual
theorem uniqueKeys_of_distinct : ∀ {v : Json}, distinctKeys v = true → UniqueKeys v
  | .null, _ => .null
  | .bool b, _ => .bool b
  | .number n, _ => .number n
  | .string s, _ => .string s
  | .array items, h => by
    rw [distinctKeys] at h
    exact .array (uniqueItems_of_distinct h)
  | .object fs, h => by
    rw [distinctKeys, Bool.and_eq_true, decide_eq_true_eq] at h
    exact .object h.1 (uniqueFields_of_distinct h.2)

theorem uniqueItems_of_distinct : ∀ {items : List Json}, distinctItems items = true →
    ∀ v ∈ items, UniqueKeys v
  | [], _, _, hv => absurd hv List.not_mem_nil
  | v :: rest, h, w, hw => by
    rw [distinctItems, Bool.and_eq_true] at h
    rcases List.mem_cons.mp hw with heq | hw
    · rw [heq]
      exact uniqueKeys_of_distinct h.1
    · exact uniqueItems_of_distinct h.2 w hw

theorem uniqueFields_of_distinct : ∀ {fs : List (String × Json)}, distinctFields fs = true →
    ∀ f ∈ fs, UniqueKeys f.2
  | [], _, _, hf => absurd hf List.not_mem_nil
  | (_, v) :: rest, h, f, hf => by
    rw [distinctFields, Bool.and_eq_true] at h
    rcases List.mem_cons.mp hf with heq | hf
    · rw [heq]
      exact uniqueKeys_of_distinct h.1
    · exact uniqueFields_of_distinct h.2 f hf
end

section

variable {fs : List (String × Json)} {key : String} {v : Json}

/-- **A look-up finds the field of a key**, if keys are not repeated. -/
theorem lookup_iff_mem (h : (fs.map Prod.fst).Nodup) :
    lookup key fs = some v ↔ (key, v) ∈ fs := by
  refine ⟨mem_of_lookup, ?_⟩
  induction fs with
  | nil => simp
  | cons f rest ih =>
    obtain ⟨k, w⟩ := f
    rw [List.map_cons, List.nodup_cons] at h
    intro hmem
    rcases List.mem_cons.mp hmem with heq | hmem
    · cases heq
      rw [lookup, if_pos rfl]
    · have hne : k ≠ key := by
        rintro rfl
        exact h.1 (List.mem_map.mpr ⟨_, hmem, rfl⟩)
      rw [lookup, if_neg hne]
      exact ih h.2 hmem

/-! ## 2. Building and following -/

theorem mem_setField {f : String × Json} (h : f ∈ setField key v fs) : f = (key, v) ∨ f ∈ fs := by
  induction fs with
  | nil => exact Or.inl (List.mem_singleton.mp h)
  | cons g rest ih =>
    obtain ⟨k, w⟩ := g
    unfold setField at h
    split at h
    · rename_i hk
      subst hk
      rcases List.mem_cons.mp h with h | h
      · exact Or.inl h
      · exact Or.inr (List.mem_cons_of_mem _ h)
    · rcases List.mem_cons.mp h with h | h
      · exact Or.inr (h ▸ List.mem_cons_self)
      · exact (ih h).imp id (List.mem_cons_of_mem _)

/-- Setting a field changes what stands under its key, and nothing else. -/
theorem lookup_setField {other : String} :
    lookup other (setField key v fs) =
      if other = key then some v else lookup other fs := by
  induction fs with
  | nil =>
    by_cases h : other = key
    · simp [setField, lookup, h]
    · simp [setField, lookup, h, Ne.symm h]
  | cons f rest ih =>
    obtain ⟨k, w⟩ := f
    by_cases hk : k = key
    · subst hk
      by_cases h : other = k
      · simp [setField, lookup, h]
      · simp [setField, lookup, h, Ne.symm h]
    · rw [setField, if_neg hk, lookup, lookup, ih]
      by_cases h : k = other
      · have hne : other ≠ key := fun heq => hk (h.trans heq)
        simp [h, hne]
      · simp [h]

/-- Setting a field repeats no key. -/
theorem UniqueKeys.setField (h : UniqueKeys (.object fs)) (hv : UniqueKeys v) :
    UniqueKeys (.object (setField key v fs)) := by
  refine .object ?_ ?_
  · rw [keys_setField]
    split
    · exact h.nodup
    · rename_i hk
      refine List.nodup_append.mpr ⟨h.nodup, by simp, ?_⟩
      intro k hk' k' hkey
      rw [List.mem_singleton.mp hkey]
      exact fun heq => hk (heq ▸ hk')
  · intro f hf
    rcases mem_setField hf with rfl | hf
    · exact hv
    · exact h.field hf

/-- Merging fields leaves no key twice. -/
theorem uniqueKeys_mergeFields (h : ∀ f ∈ fs, UniqueKeys f.2) :
    UniqueKeys (.object (mergeFields fs)) := by
  suffices ∀ acc, UniqueKeys (.object acc) →
      UniqueKeys (.object (fs.foldl (fun acc f => Json.setField f.1 f.2 acc) acc)) from
    this [] (.object .nil (by simp))
  induction fs with
  | nil => exact fun _ hacc => hacc
  | cons f rest ih =>
    intro acc hacc
    exact ih (fun g hg => h g (List.mem_cons_of_mem _ hg)) _
      (hacc.setField (h f List.mem_cons_self))

/-- What a pointer finds has no repeated keys. -/
theorem UniqueKeys.findFrom? : ∀ {segments : List String} {root : Json}, UniqueKeys root →
    Pointer.findFrom? root segments = some v → UniqueKeys v
  | [], _, h, hf => by
    cases hf
    exact h
  | s :: rest, root, h, hf => by
    obtain ⟨w, hw, hf⟩ := Option.bind_eq_some_iff.mp hf
    refine findFrom? ?_ hf
    cases root with
    | object fs => exact h.field (mem_of_lookup hw)
    | array items =>
      obtain ⟨i, _, hi⟩ := Option.bind_eq_some_iff.mp hw
      exact h.item (List.mem_of_getElem? hi)
    | null | bool _ | number _ | string _ => cases hw

theorem UniqueKeys.find? {root : Json} {p : Pointer} (h : UniqueKeys root)
    (hf : p.find? root = some v) : UniqueKeys v :=
  h.findFrom? hf

end

end Json

/-! ## 3. Values from texts -/

namespace Yaml.Value

open Json

mutual
/-- **A value that is read from a text has no key twice in an object.** -/
theorem uniqueKeys_toJson : ∀ v : Value, UniqueKeys v.toJson
  | .null => .null
  | .bool b => .bool b
  | .number n => by
    rw [toJson]
    cases n with
    | int i => exact .number _
    | float x => exact .number _
    | infinite _ => exact .null
    | nan => exact .null
  | .string s => .string s
  | .sequence items => by
    rw [toJson]
    exact .array (uniqueKeys_toJsonItems items)
  | .mapping entries => by
    rw [toJson]
    exact uniqueKeys_mergeFields (uniqueKeys_toJsonFields entries)
  | .tagged _ v => by
    rw [toJson]
    exact uniqueKeys_toJson v

theorem uniqueKeys_toJsonItems : ∀ items : List Value, ∀ v ∈ toJsonItems items, UniqueKeys v
  | [], _, h => absurd h (by simp [toJsonItems])
  | v :: rest, w, h => by
    rw [toJsonItems] at h
    rcases List.mem_cons.mp h with rfl | h
    · exact uniqueKeys_toJson v
    · exact uniqueKeys_toJsonItems rest w h

theorem uniqueKeys_toJsonFields : ∀ entries : List (Value × Value),
    ∀ f ∈ toJsonFields entries, UniqueKeys f.2
  | [], _, h => absurd h (by simp [toJsonFields])
  | (_, v) :: rest, f, h => by
    rw [toJsonFields] at h
    rcases List.mem_cons.mp h with rfl | h
    · exact uniqueKeys_toJson v
    · exact uniqueKeys_toJsonFields rest f h
end

end Yaml.Value

end ApiTypes
