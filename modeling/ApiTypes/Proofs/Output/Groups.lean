/-
# Groups of operations

The catalog takes operations one after the other and puts each under its tag, and there under its
path.  So what stands under a tag and a path in the end are the operations that were put there, in
their order, and each tag has one group.

* `Catalog.lookup_updateAt` and `Catalog.keys_updateAt`: what changes when an entry is changed, and
  what does not.
* `Catalog.listed_groups`: what stands under a tag and a path.
* `Catalog.nodup_groups`: no tag has two groups.
* `Catalog.lookup_pathData`: what a client needs to know stands under the method of an operation.
-/
import ApiTypes.Output.Catalog
import ApiTypes.Proofs.Json.Keys
import Mathlib.Data.List.Nodup

namespace ApiTypes.Catalog

/-! ## 1. Entries -/

section Entries

variable {α : Type} {key other : String} {a : α} {fresh : α} {change : α → α}
  {es : List (String × α)}

theorem mem_of_lookup (h : es.lookup key = some a) : (key, a) ∈ es := by
  obtain ⟨before, after, heq, -⟩ := List.lookup_eq_some_iff.mp h
  exact heq ▸ List.mem_append_right _ List.mem_cons_self

/-- Where no key stands twice, an entry is found under its key. -/
theorem lookup_of_mem {κ : Type} [BEq κ] [LawfulBEq κ] {es : List (κ × α)} {key : κ}
    (h : (es.map Prod.fst).Nodup) (hmem : (key, a) ∈ es) : es.lookup key = some a := by
  obtain ⟨before, after, rfl⟩ := List.append_of_mem hmem
  refine List.lookup_eq_some_iff.mpr ⟨before, after, rfl, fun p hp => bne_iff_ne.mpr ?_⟩
  rintro rfl
  rw [List.map_append, List.map_cons, List.nodup_append] at h
  exact h.2.2 _ (List.mem_map.mpr ⟨p, hp, rfl⟩) _ List.mem_cons_self rfl

/-- **Changing an entry changes what stands under its key**, and nothing else. -/
theorem lookup_updateAt : (updateAt key fresh change es).lookup other =
    if other = key then some (change ((es.lookup key).getD fresh)) else es.lookup other := by
  induction es with
  | nil =>
    by_cases h : other = key
    · subst h
      simp [updateAt]
    · simp [updateAt, List.lookup_cons, beq_eq_false_iff_ne.mpr h, h]
  | cons e rest ih =>
    obtain ⟨k, a⟩ := e
    by_cases hk : k = key
    · subst hk
      rw [updateAt, if_pos rfl, List.lookup_cons, List.lookup_cons_self]
      by_cases h : other = k
      · simp [h]
      · simp [h, List.lookup_cons, beq_eq_false_iff_ne.mpr h]
    · rw [updateAt, if_neg hk, List.lookup_cons, ih]
      by_cases h : other = k
      · simp [h, hk]
      · simp [List.lookup_cons, beq_eq_false_iff_ne.mpr h, beq_eq_false_iff_ne.mpr (Ne.symm hk)]

/-- The keys stay, and a key that is not there comes last. -/
theorem keys_updateAt : (updateAt key fresh change es).map Prod.fst =
    if key ∈ es.map Prod.fst then es.map Prod.fst else es.map Prod.fst ++ [key] := by
  induction es with
  | nil => rfl
  | cons e rest ih =>
    obtain ⟨k, a⟩ := e
    by_cases hk : k = key
    · simp [updateAt, hk]
    · rw [updateAt, if_neg hk, List.map_cons, ih]
      have hne : key ≠ k := fun heq => hk heq.symm
      by_cases hm : key ∈ rest.map Prod.fst
      · simp only [List.map_cons, List.mem_cons, hm, or_true, if_true]
      · simp only [List.map_cons, List.mem_cons, hm, hne, or_false, if_false, List.cons_append]

theorem nodup_updateAt (h : (es.map Prod.fst).Nodup) :
    ((updateAt key fresh change es).map Prod.fst).Nodup := by
  rw [keys_updateAt]
  split
  · exact h
  · rename_i hkey
    exact h.append (List.nodup_singleton key) (List.disjoint_singleton.mpr hkey)

end Entries

/-! ## 2. Groups -/

/-- The operations under a tag and a path. -/
def listed (gs : List (String × Group)) (tag path : String) : List TypedOperation :=
  (((gs.lookup tag).getD []).lookup path).getD []

variable {gs : List (String × Group)} {es : List (String × TypedOperation)} {tag path : String}
  {o : TypedOperation}

/-- One operation more stands under its tag and its path. -/
theorem listed_addTo (gs : List (String × Group)) (e : String × TypedOperation)
    (tag path : String) : listed (addTo gs e) tag path =
      listed gs tag path ++ if e.1 = tag ∧ e.2.path = path then [e.2] else [] := by
  unfold listed addTo
  rw [lookup_updateAt]
  by_cases htag : tag = e.1
  · subst htag
    rw [if_pos rfl, Option.getD_some, lookup_updateAt]
    by_cases hpath : path = e.2.path
    · subst hpath
      simp
    · have hne : ¬ e.2.path = path := fun heq => hpath heq.symm
      simp [hpath, hne]
  · have hne : ¬ e.1 = tag := fun heq => htag heq.symm
    simp [htag, hne]

theorem listed_foldl (es : List (String × TypedOperation)) (gs : List (String × Group))
    (tag path : String) : listed (es.foldl addTo gs) tag path =
      listed gs tag path
        ++ (es.filter fun e => e.1 = tag ∧ e.2.path = path).map Prod.snd := by
  induction es generalizing gs with
  | nil => exact (List.append_nil _).symm
  | cons e rest ih =>
    rw [List.foldl_cons, ih, listed_addTo, List.append_assoc, List.filter_cons]
    by_cases h : e.1 = tag ∧ e.2.path = path
    · simp [h]
    · simp [h]

theorem nodup_foldl (h : (gs.map Prod.fst).Nodup) :
    ((es.foldl addTo gs).map Prod.fst).Nodup := by
  induction es generalizing gs with
  | nil => exact h
  | cons e rest ih => exact ih (nodup_updateAt h)

/-- **What stands under a tag and a path are the operations that belong there.** -/
theorem listed_groups (operations : Registry) (tag path : String) :
    listed (groups operations) tag path
      = ((entries operations).filter fun e => e.1 = tag ∧ e.2.path = path).map Prod.snd := by
  rw [groups, listed_foldl]
  rfl

/-- **No tag has two groups.** -/
theorem nodup_groups (operations : Registry) : ((groups operations).map Prod.fst).Nodup :=
  nodup_foldl List.nodup_nil

theorem mem_entries {operations : Registry} {e : String × TypedOperation} :
    e ∈ entries operations ↔ e.2 ∈ operations ∧ e.2.kind = .path ∧ e.1 ∈ tagsOf e.2 := by
  simp only [entries, List.mem_flatMap, List.mem_filter, List.mem_map, decide_eq_true_eq]
  constructor
  · rintro ⟨o, ⟨ho, hkind⟩, tag, htag, rfl⟩
    exact ⟨ho, hkind, htag⟩
  · rintro ⟨ho, hkind, htag⟩
    exact ⟨e.2, ⟨ho, hkind⟩, e.1, htag, rfl⟩

theorem mem_listed_iff {operations : Registry} : o ∈ listed (groups operations) tag path ↔
    o ∈ operations ∧ o.kind = .path ∧ tag ∈ tagsOf o ∧ o.path = path := by
  rw [listed_groups, List.mem_map]
  constructor
  · rintro ⟨e, he, rfl⟩
    obtain ⟨hmem, hplace⟩ := List.mem_filter.mp he
    obtain ⟨rfl, rfl⟩ := of_decide_eq_true hplace
    obtain ⟨ho, hkind, htag⟩ := mem_entries.mp hmem
    exact ⟨ho, hkind, htag, rfl⟩
  · rintro ⟨ho, hkind, htag, rfl⟩
    refine ⟨(tag, o), List.mem_filter.mpr ⟨mem_entries.mpr ⟨ho, hkind, htag⟩, ?_⟩, rfl⟩
    exact decide_eq_true ⟨rfl, rfl⟩

/-- Where an operation is listed there is a group with an entry. -/
theorem exists_lookup_of_listed (h : o ∈ listed gs tag path) :
    ∃ g, (tag, g) ∈ gs ∧ g.lookup path = some (listed gs tag path) := by
  unfold listed at h ⊢
  cases hg : gs.lookup tag with
  | none =>
    rw [hg] at h
    cases h
  | some g =>
    rw [hg, Option.getD_some] at h
    cases hos : g.lookup path with
    | none =>
      rw [hos] at h
      cases h
    | some os =>
      refine ⟨g, mem_of_lookup hg, ?_⟩
      rw [Option.getD_some, hos, Option.getD_some]

/-! ## 3. What a client needs to know -/

/-- The field of a method holds what the operations of the method agree on. -/
theorem lookup_foldl_setField {os : List TypedOperation} {fs : List (String × Json)}
    (h : o ∈ os ∨ Json.lookup o.method.name fs = some (operationData o))
    (hos : ∀ o' ∈ os, o'.method.name = o.method.name → operationData o' = operationData o) :
    Json.lookup o.method.name
        (os.foldl (fun fields o => Json.setField o.method.name (operationData o) fields) fs)
      = some (operationData o) := by
  induction os generalizing fs with
  | nil => exact h.resolve_left List.not_mem_nil
  | cons o' rest ih =>
    refine ih ?_ fun x hx => hos x (List.mem_cons_of_mem _ hx)
    rw [Json.lookup_setField]
    by_cases hname : o.method.name = o'.method.name
    · rw [if_pos hname, hos o' List.mem_cons_self hname.symm]
      exact Or.inr rfl
    · rw [if_neg hname]
      refine h.imp_left fun ho => (List.mem_cons.mp ho).resolve_left ?_
      rintro rfl
      exact hname rfl

/-- **What a client needs to know stands under the method of an operation**, if the operations of
that method agree on it. -/
theorem lookup_pathData {g : Group} {os : List TypedOperation} (hg : g.lookup path = some os)
    (ho : o ∈ os)
    (hos : ∀ o' ∈ os, o'.method.name = o.method.name → operationData o' = operationData o) :
    Pointer.findFrom? (.object (g.map fun (path, os) => (path, pathData os)))
      [path, o.method.name] = some (operationData o) := by
  have hpath : Json.lookup path (g.map fun (path, os) => (path, pathData os))
      = some (pathData os) := by
    induction g with
    | nil => cases hg
    | cons e rest ih =>
      obtain ⟨k, os'⟩ := e
      rw [List.map_cons, Json.lookup]
      by_cases hk : path = k
      · subst hk
        rw [List.lookup_cons_self] at hg
        cases hg
        rw [if_pos rfl]
      · rw [List.lookup_cons, beq_eq_false_iff_ne.mpr hk] at hg
        rw [if_neg (Ne.symm hk)]
        exact ih hg
  rw [Pointer.findFrom?, Pointer.step?, hpath, Option.bind_some, Pointer.findFrom?, pathData,
    Pointer.step?, lookup_foldl_setField (Or.inl ho) hos]
  rfl

end ApiTypes.Catalog
