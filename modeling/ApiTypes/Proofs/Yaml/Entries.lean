/-
# The entries of mappings

A mapping becomes an object, and its keys become texts.  The reader of a text lets no mapping have
a key twice, but it compares the keys as values.  Keys that become one text become one field, which
stands where the first of them does and has the value of the last, so that all entries but the last
are lost without a word.

* `Json.keys_mergeFields` and `Json.lookup_mergeFields` say what is left of some fields.
* `Value.Complete`: nothing is lost in an object, at any depth.
* `Value.entries_toJson`: nothing is lost just if the keys of no mapping clash.
-/
import ApiTypes.Proofs.Json.Keys
import ApiTypes.Proofs.Yaml.DistinctKeys
import ApiTypes.Proofs.Yaml.KeyText

namespace ApiTypes

/-! ## 1. Fields that are merged -/

namespace Json

variable {fs : List (String × Json)} {key : String} {v : Json}

theorem mergeFields_concat (fs : List (String × Json)) (f : String × Json) :
    mergeFields (fs ++ [f]) = setField f.1 f.2 (mergeFields fs) := by
  rw [mergeFields, List.foldl_append]
  rfl

/-- The keys stay, in the order of their first appearance. -/
theorem keys_mergeFields (fs : List (String × Json)) :
    (mergeFields fs).map Prod.fst = (fs.map Prod.fst).eraseDups := by
  induction fs using List.reverseRecOn with
  | nil => rfl
  | append_singleton fs f ih =>
    rw [mergeFields_concat, keys_setField, ih, List.map_append, List.eraseDups_append]
    by_cases hmem : f.1 ∈ fs.map Prod.fst
    · rw [if_pos (List.mem_eraseDups.mpr hmem)]
      simp [List.removeAll, hmem]
    · rw [if_neg (mt List.mem_eraseDups.mp hmem)]
      simp [List.removeAll, hmem]
      rfl

/-- **A key has its last value.** -/
theorem lookup_mergeFields (fs : List (String × Json)) :
    lookup key (mergeFields fs) = lookup key fs.reverse := by
  induction fs using List.reverseRecOn with
  | nil => rfl
  | append_singleton fs f ih =>
    rw [mergeFields_concat, lookup_setField, ih, List.reverse_concat, lookup]
    simp only [eq_comm]

theorem setField_of_notMem (h : key ∉ fs.map Prod.fst) : setField key v fs = fs ++ [(key, v)] := by
  induction fs with
  | nil => rfl
  | cons f fs ih =>
    rw [List.map_cons, List.mem_cons, not_or] at h
    rw [setField, if_neg (Ne.symm h.1), ih h.2, List.cons_append]

/-- Nothing is to be merged where no key is repeated. -/
theorem mergeFields_of_nodup (h : (fs.map Prod.fst).Nodup) : mergeFields fs = fs := by
  induction fs using List.reverseRecOn with
  | nil => rfl
  | append_singleton fs f ih =>
    rw [List.map_append, List.map_singleton, List.nodup_append] at h
    obtain ⟨hfs, -, hfresh⟩ := h
    rw [mergeFields_concat, ih hfs, setField_of_notMem]
    exact fun hmem => hfresh _ hmem _ List.mem_cons_self rfl

theorem length_setField : (setField key v fs).length =
    if key ∈ fs.map Prod.fst then fs.length else fs.length + 1 := by
  have hkeys := congrArg List.length (keys_setField key v fs)
  rw [List.length_map] at hkeys
  rw [hkeys]
  split <;> simp

theorem length_mergeFields_le (fs : List (String × Json)) :
    (mergeFields fs).length ≤ fs.length := by
  induction fs using List.reverseRecOn with
  | nil => exact le_rfl
  | append_singleton fs f ih =>
    rw [mergeFields_concat, length_setField, List.length_append, List.length_singleton]
    split <;> omega

/-- **A repeated key costs a field.** -/
theorem length_mergeFields_iff :
    (mergeFields fs).length = fs.length ↔ (fs.map Prod.fst).Nodup := by
  refine ⟨fun h => ?_, fun h => congrArg List.length (mergeFields_of_nodup h)⟩
  induction fs using List.reverseRecOn with
  | nil => exact List.nodup_nil
  | append_singleton fs f ih =>
    have hle := length_mergeFields_le fs
    rw [mergeFields_concat, length_setField, List.length_append, List.length_singleton] at h
    split at h
    · omega
    · rename_i hfresh
      rw [keys_mergeFields, List.mem_eraseDups] at hfresh
      rw [List.map_append, List.map_singleton, ← List.concat_eq_append]
      exact (ih (by omega)).concat hfresh

end Json

namespace Yaml.Value

/-! ## 2. Objects in which nothing is lost -/

variable {entries : List (Value × Value)}

/-- **A value and its object, in which no entry is lost**: every mapping has an object with a field
for each entry, in the same order, whose key is the text of the key of the entry and whose value is
that of the entry. -/
inductive Complete : Value → Json → Prop
  | null : Complete .null .null
  | bool (b : Bool) : Complete (.bool b) (.bool b)
  | number (n : Number) : Complete (.number n) n.toJson
  | string (s : String) : Complete (.string s) (.string s)
  | sequence {items : List Value} (h : ∀ v ∈ items, Complete v v.toJson) :
      Complete (.sequence items) (.array (items.map toJson))
  | mapping {entries : List (Value × Value)} {fields : List (String × Json)}
      (keys : fields.map Prod.fst = entries.map fun e => e.1.keyText)
      (values : fields.map Prod.snd = entries.map fun e => e.2.toJson)
      (h : ∀ e ∈ entries, Complete e.2 e.2.toJson) : Complete (.mapping entries) (.object fields)
  | tagged {tag : String} {v : Value} {j : Json} (h : Complete v j) : Complete (.tagged tag v) j

/-! ## 3. Objects -/

theorem toJsonItems_eq_map (items : List Value) : toJsonItems items = items.map toJson := by
  induction items with
  | nil => rfl
  | cons v rest ih => rw [toJsonItems, ih, List.map_cons]

theorem toJsonFields_eq_map (entries : List (Value × Value)) :
    toJsonFields entries = entries.map fun e => (e.1.keyText, e.2.toJson) := by
  induction entries with
  | nil => rfl
  | cons e rest ih => rw [toJsonFields, ih, List.map_cons]

/-- The keys of entries become different texts just if none of them clash. -/
theorem nodup_keyTexts :
    ((toJsonFields entries).map Prod.fst).Nodup ↔
      entries.Pairwise fun e f => ¬Clash e.1 f.1 := by
  rw [toJsonFields_eq_map, List.map_map, List.Nodup, List.pairwise_map]
  exact ⟨.imp fun hne => mt keyText_eq_iff.mpr hne, .imp fun hne => mt keyText_eq_iff.mp hne⟩

/-- **An object has the values of a mapping just if no two keys clash.** -/
theorem values_mergeFields :
    ((Json.mergeFields (toJsonFields entries)).map Prod.snd = entries.map fun e => e.2.toJson) ↔
      entries.Pairwise fun e f => ¬Clash e.1 f.1 := by
  rw [← nodup_keyTexts]
  constructor
  · intro h
    have hlength := congrArg List.length h
    rw [List.length_map, List.length_map] at hlength
    refine Json.length_mergeFields_iff.mp (hlength.trans ?_)
    rw [toJsonFields_eq_map, List.length_map]
  · intro h
    rw [Json.mergeFields_of_nodup h, toJsonFields_eq_map, List.map_map]
    rfl

/-- The keys of the object are then the texts of those of the mapping. -/
theorem keys_mergeFields_of_apart (h : entries.Pairwise fun e f => ¬Clash e.1 f.1) :
    (Json.mergeFields (toJsonFields entries)).map Prod.fst = entries.map fun e => e.1.keyText := by
  rw [Json.mergeFields_of_nodup (nodup_keyTexts.mpr h), toJsonFields_eq_map, List.map_map]
  rfl

mutual
/-- **Nothing is lost just if no keys clash**, at any depth. -/
theorem complete_iff : ∀ v : Value, Complete v v.toJson ↔
    ∀ entries ∈ v.mappings, entries.Pairwise fun e f => ¬Clash e.1 f.1
  | .null => iff_of_true .null nofun
  | .bool b => iff_of_true (.bool b) nofun
  | .number n => iff_of_true (.number n) nofun
  | .string s => iff_of_true (.string s) nofun
  | .sequence items => by
    rw [toJson, toJsonItems_eq_map, mappings, ← complete_items_iff items]
    exact ⟨fun | .sequence h => h, .sequence⟩
  | .mapping entries => by
    rw [toJson, mappings, List.forall_mem_cons, ← complete_entries_iff entries]
    exact ⟨fun | .mapping _ values h => ⟨values_mergeFields.mp values, h⟩,
      fun ⟨apart, h⟩ =>
        .mapping (keys_mergeFields_of_apart apart) (values_mergeFields.mpr apart) h⟩
  | .tagged tag v => by
    rw [toJson, mappings, ← complete_iff v]
    exact ⟨fun | .tagged h => h, .tagged⟩

theorem complete_items_iff : ∀ items : List Value, (∀ v ∈ items, Complete v v.toJson) ↔
    ∀ entries ∈ itemMappings items, entries.Pairwise fun e f => ¬Clash e.1 f.1
  | [] => iff_of_true nofun nofun
  | v :: rest => by
    rw [itemMappings, List.forall_mem_cons, List.forall_mem_append, complete_iff v,
      complete_items_iff rest]

theorem complete_entries_iff : ∀ entries : List (Value × Value),
    (∀ e ∈ entries, Complete e.2 e.2.toJson) ↔
      ∀ inner ∈ entryMappings entries, inner.Pairwise fun e f => ¬Clash e.1 f.1
  | [] => iff_of_true nofun nofun
  | e :: rest => by
    rw [entryMappings, List.forall_mem_cons, List.forall_mem_append, complete_iff e.2,
      complete_entries_iff rest]
end

/-- **Nothing is lost just if no keys clash.**  What is left of a mapping are the texts of its keys
in the order of their first appearance, each with the value of the last entry whose key has it. -/
theorem entries_toJson (v : Value) :
    (Complete v v.toJson ↔
      ∀ entries ∈ v.mappings, entries.Pairwise fun e f => ¬Clash e.1 f.1) ∧
    ∀ entries ∈ v.mappings, ∃ fields, (mapping entries).toJson = .object fields ∧
      fields.map Prod.fst = (entries.map fun e => e.1.keyText).eraseDups ∧
      ∀ text, Json.lookup text fields
        = Json.lookup text (entries.map fun e => (e.1.keyText, e.2.toJson)).reverse := by
  refine ⟨complete_iff v, fun entries _ => ⟨_, by rw [toJson], ?_, fun text => ?_⟩⟩
  · rw [Json.keys_mergeFields, toJsonFields_eq_map, List.map_map]
    rfl
  · rw [Json.lookup_mergeFields, toJsonFields_eq_map]

/-- Of two responses with one status the last is left. -/
theorem entries_toJson_statuses : ∃ fields,
    (mapping [(.number (.int 200), .string "ok"), (.string "200", .string "fine")]).toJson
        = .object fields ∧
      fields.map Prod.fst = ["200"] ∧ Json.lookup "200" fields = some (.string "fine") := by
  obtain ⟨fields, hfields, hkeys, hlookup⟩ := (entries_toJson (.mapping
    [(.number (.int 200), .string "ok"), (.string "200", .string "fine")])).2 _ List.mem_cons_self
  refine ⟨fields, hfields, hkeys.trans (by decide +kernel), (hlookup "200").trans ?_⟩
  rfl

/-! ## 4. A response that is lost -/

/-- A document in which a response has its status as a number and another one as a text. -/
def mixedStatuses : Value := .mapping [
  (.string "openapi", .string "3.1.0"),
  (.string "paths", .mapping [(.string "/pets", .mapping [(.string "get", .mapping [
    (.string "responses", .mapping [
      (.number (.int 200), .mapping [(.string "description", .string "ok")]),
      (.string "200", .mapping [(.string "description", .string "fine")])])])])])]

/-- **An entry may be lost although no key is there twice.** -/
theorem not_complete_mixedStatuses :
    ¬∀ v : Value, v.DistinctKeys → Complete v v.toJson := by
  intro hall
  have hdistinct : mixedStatuses.DistinctKeys := by decide +kernel
  have hclash : Clash (.number (.int 200)) (.string "200") :=
    .spelled (congrArg string (by decide +kernel))
  have hapart := (complete_iff mixedStatuses).mp (hall mixedStatuses hdistinct) _
    (List.mem_of_getElem? (i := 4) rfl)
  exact List.rel_of_pairwise_cons hapart List.mem_cons_self hclash

end Yaml.Value

end ApiTypes
