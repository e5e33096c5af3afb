/-
# Registered operations

Operations are registered one after the other.  What the registry has under a name is the first
operation of that name, and whether all of them can be registered does not depend on their order
at all: operations of one name must stand in one place.

* `Registry.find?_registered` says what stands under a name.
* `Registry.registers_iff` says when a list of operations can be registered.
* `Registry.nodup_registered`: a registry has no name twice.
* `Registry.of_registered_error` says why operations cannot be registered.
-/
import ApiTypes.Typing.Document
import Mathlib.Data.List.Nodup

namespace ApiTypes.Registry

variable {r r' : Registry} {o o' : TypedOperation} {os : List TypedOperation} {name : String}

/-! ## 1. One operation -/

theorem mem_of_find? (h : find? r name = some o) : o ∈ r ∧ o.name = name :=
  ⟨List.mem_of_find?_eq_some h, by simpa using List.find?_some h⟩

theorem find?_isSome_of_mem (h : o ∈ r) : ∃ o', find? r o.name = some o' :=
  Option.isSome_iff_exists.mp (List.find?_isSome.mpr ⟨o, h, by simp⟩)

theorem mem_names_iff : name ∈ r.map (·.name) ↔ (find? r name).isSome := by
  simp [find?, List.find?_isSome]

/-- An operation is added, or the one of its name stands in the same place. -/
theorem of_register (h : register r o = .ok r') :
    (find? r o.name = none ∧ r' = r ++ [o]) ∨
      ∃ known, find? r o.name = some known ∧ known.location = o.location ∧ r' = r := by
  unfold register at h
  split at h
  · rename_i hnone
    cases h
    exact Or.inl ⟨hnone, rfl⟩
  · rename_i known hknown
    split at h
    · rename_i hplace
      cases h
      exact Or.inr ⟨known, hknown, hplace, rfl⟩
    · cases h

/-- What stands under a name stays; an operation counts only where there is none. -/
theorem find?_register (h : register r o = .ok r') :
    find? r' name = (find? r name).or (find? [o] name) := by
  rcases of_register h with ⟨_, rfl⟩ | ⟨known, hknown, _, rfl⟩
  · exact List.find?_append
  · by_cases hname : o.name = name
    · rw [← hname, hknown, Option.some_or]
    · have hne : find? [o] name = none := by simp [find?, hname]
      rw [hne, Option.or_none]

/-- An operation that is registered stands in the place of the one under its name. -/
theorem placed_of_register (h : register r o = .ok r') :
    ∃ known, find? r' o.name = some known ∧ known.location = o.location := by
  rcases of_register h with ⟨hnone, rfl⟩ | ⟨known, hknown, hplace, rfl⟩
  · refine ⟨o, ?_, rfl⟩
    rw [find?_register h, hnone, Option.none_or]
    simp [find?]
  · exact ⟨known, hknown, hplace⟩

theorem exists_register
    (h : ∀ known, find? r o.name = some known → known.location = o.location) :
    ∃ r', register r o = .ok r' := by
  unfold register
  split
  · exact ⟨_, rfl⟩
  · rename_i known hknown
    rw [if_pos (h known hknown)]
    exact ⟨_, rfl⟩

theorem nodup_register (hr : (r.map (·.name)).Nodup) (h : register r o = .ok r') :
    (r'.map (·.name)).Nodup := by
  rcases of_register h with ⟨hnone, rfl⟩ | ⟨_, _, _, rfl⟩
  · rw [List.map_append, List.map_singleton]
    refine List.Nodup.append hr (List.nodup_singleton _) (List.disjoint_singleton.mpr ?_)
    intro hmem
    obtain ⟨known, hknown, heq⟩ := List.mem_map.mp hmem
    obtain ⟨_, hsome⟩ := find?_isSome_of_mem hknown
    rw [heq, hnone] at hsome
    cases hsome
  · exact hr

/-! ## 2. All operations -/

/-- Operations of one name stand in one place. -/
def OnePlace (os : List TypedOperation) : Prop :=
  ∀ o ∈ os, ∀ o' ∈ os, o.name = o'.name → o.location = o'.location

/-- A further operation, and then the others. -/
theorem of_registered_cons (h : (o :: os).foldlM register r = .ok r') :
    ∃ mid, register r o = .ok mid ∧ os.foldlM register mid = .ok r' := by
  rw [List.foldlM_cons] at h
  cases hmid : register r o with
  | error e =>
    rw [hmid] at h
    cases h
  | ok mid =>
    rw [hmid] at h
    exact ⟨mid, rfl, h⟩

theorem find?_registered_from : ∀ {os : List TypedOperation} {r : Registry},
    os.foldlM register r = .ok r' → find? r' name = (find? r name).or (find? os name)
  | [], _, h => by
    cases h
    exact Option.or_none.symm
  | o :: os, r, h => by
    obtain ⟨mid, hmid, hrest⟩ := of_registered_cons h
    calc find? r' name = (find? mid name).or (find? os name) := find?_registered_from hrest
      _ = ((find? r name).or (find? [o] name)).or (find? os name) := by rw [find?_register hmid]
      _ = (find? r name).or ((find? [o] name).or (find? os name)) := Option.or_assoc
      _ = (find? r name).or (find? ([o] ++ os) name) := congrArg _ List.find?_append.symm

/-- **A name stands for the first operation that has it.** -/
theorem find?_registered (h : os.foldlM register [] = .ok r') : find? r' name = find? os name :=
  find?_registered_from h

theorem placed_of_registered : ∀ {os : List TypedOperation} {r : Registry},
    os.foldlM register r = .ok r' →
    ∀ o ∈ os, ∃ known, find? r' o.name = some known ∧ known.location = o.location
  | [], _, _, _, ho => absurd ho List.not_mem_nil
  | _ :: _, _, h, x, hx => by
    obtain ⟨mid, hmid, hrest⟩ := of_registered_cons h
    rcases List.mem_cons.mp hx with rfl | hx
    · obtain ⟨known, hknown, hplace⟩ := placed_of_register hmid
      refine ⟨known, ?_, hplace⟩
      rw [find?_registered_from hrest, hknown, Option.some_or]
    · exact placed_of_registered hrest x hx

theorem exists_registered : ∀ {os : List TypedOperation} {r : Registry}, OnePlace os →
    (∀ o ∈ os, ∀ known, find? r o.name = some known → known.location = o.location) →
    ∃ r', os.foldlM register r = .ok r'
  | [], r, _, _ => ⟨r, rfl⟩
  | o :: os, r, hos, hr => by
    obtain ⟨mid, hmid⟩ := exists_register (hr o List.mem_cons_self)
    have hrest : ∀ x ∈ os, ∀ known, find? mid x.name = some known →
        known.location = x.location := by
      intro x hx known hknown
      have hx' : x ∈ o :: os := List.mem_cons_of_mem _ hx
      rw [find?_register hmid] at hknown
      rcases Option.or_eq_some_iff.mp hknown with h | ⟨_, h⟩
      · exact hr x hx' known h
      · obtain ⟨hmem, hname⟩ := mem_of_find? h
        rw [List.mem_singleton.mp hmem] at hname ⊢
        exact hos o List.mem_cons_self x hx' hname
    obtain ⟨r', h⟩ := exists_registered
      (fun a ha b hb => hos a (List.mem_cons_of_mem _ ha) b (List.mem_cons_of_mem _ hb)) hrest
    refine ⟨r', ?_⟩
    rw [List.foldlM_cons, hmid]
    exact h

/-- **Operations can be registered when those of one name stand in one place**, in any order. -/
theorem registers_iff : (∃ r, os.foldlM register [] = .ok r) ↔ OnePlace os := by
  constructor
  · rintro ⟨r, h⟩ o ho o' ho' hname
    obtain ⟨known, hknown, hplace⟩ := placed_of_registered h o ho
    obtain ⟨known', hknown', hplace'⟩ := placed_of_registered h o' ho'
    rw [hname, hknown'] at hknown
    cases hknown
    exact hplace.symm.trans hplace'
  · intro h
    exact exists_registered h fun _ _ _ hknown => by cases hknown

theorem nodup_registered_from : ∀ {os : List TypedOperation} {r : Registry},
    (r.map (·.name)).Nodup → os.foldlM register r = .ok r' → (r'.map (·.name)).Nodup
  | [], _, hr, h => by
    cases h
    exact hr
  | _ :: _, _, hr, h => by
    obtain ⟨mid, hmid, h⟩ := of_registered_cons h
    exact nodup_registered_from (nodup_register hr hmid) h

/-- **No two registered operations have one name.** -/
theorem nodup_registered (h : os.foldlM register [] = .ok r') : (r'.map (·.name)).Nodup :=
  nodup_registered_from (r := []) List.nodup_nil h

theorem mem_of_register (h : register r o = .ok r') (ho : o' ∈ r') : o' ∈ r ∨ o' = o := by
  rcases of_register h with ⟨_, rfl⟩ | ⟨_, _, _, rfl⟩
  · exact (List.mem_append.mp ho).imp_right List.mem_singleton.mp
  · exact Or.inl ho

theorem mem_of_registered_from : ∀ {os : List TypedOperation} {r : Registry},
    os.foldlM register r = .ok r' → o ∈ r' → o ∈ r ∨ o ∈ os
  | [], _, h, ho => by
    cases h
    exact Or.inl ho
  | _ :: _, _, h, ho => by
    obtain ⟨mid, hmid, h⟩ := of_registered_cons h
    rcases mem_of_registered_from h ho with ho | ho
    · refine (mem_of_register hmid ho).imp_right ?_
      rintro rfl
      exact List.mem_cons_self
    · exact Or.inr (List.mem_cons_of_mem _ ho)

/-- Every registered operation is one of those that were to be registered. -/
theorem mem_of_registered (h : os.foldlM register [] = .ok r') (ho : o ∈ r') : o ∈ os :=
  (mem_of_registered_from (r := []) h ho).resolve_left List.not_mem_nil

/-! ## 3. Operations that cannot be registered -/

/-- An operation is refused for the one of its name, which stands in another place. -/
theorem of_register_error {e : Fault} (h : register r o = .error e) :
    ∃ known ∈ r, known.name = o.name ∧ known.location ≠ o.location ∧
      e = .duplicateOperation o.name known.location o.location := by
  unfold register at h
  split at h
  · cases h
  · rename_i known hknown
    split at h
    · cases h
    · rename_i hplace
      cases h
      obtain ⟨hmem, hname⟩ := mem_of_find? hknown
      exact ⟨known, hmem, hname, hplace, rfl⟩

/-- **Operations that cannot be registered are two of one name in different places.** -/
theorem of_registered_error {e : Fault} : ∀ {os : List TypedOperation} {r : Registry},
    os.foldlM register r = .error e → ∃ known, (known ∈ r ∨ known ∈ os) ∧ ∃ o ∈ os,
      known.name = o.name ∧ known.location ≠ o.location ∧
        e = .duplicateOperation o.name known.location o.location
  | [], _, h => by cases h
  | o :: os, r, h => by
    rw [List.foldlM_cons] at h
    cases hmid : register r o with
    | error e' =>
      rw [hmid] at h
      cases h
      obtain ⟨known, hknown, h⟩ := of_register_error hmid
      exact ⟨known, Or.inl hknown, o, List.mem_cons_self, h⟩
    | ok mid =>
      rw [hmid] at h
      obtain ⟨known, hknown, o', ho', h⟩ := of_registered_error h
      refine ⟨known, ?_, o', List.mem_cons_of_mem _ ho', h⟩
      rcases hknown with hknown | hknown
      · rcases mem_of_register hmid hknown with hknown | rfl
        · exact Or.inl hknown
        · exact Or.inr List.mem_cons_self
      · exact Or.inr (List.mem_cons_of_mem _ hknown)

end ApiTypes.Registry
