/-
# The tags of alternatives

The mapping of a discriminator is gone through once.  An entry gives its tag to the first
alternative that refers to its target, unless an earlier entry with the same target has done so: an
alternative has room for one tag, and further keys for the same target are passed over.

* `Discriminator.firstTag?` is the first key of a mapping for a pointer.
* `Discriminator.mem_taggedOrder`: the tagged alternatives, and their tags;
  `Discriminator.nodup_taggedOrder`: each has one.
* `Discriminator.exists_mem_memberOrder`: no alternative is left out.
-/
import ApiTypes.Typing.Discriminator
import Mathlib.Data.List.Induction

namespace ApiTypes.Discriminator

variable {self : Option OwnAddress} {mapping : List (String × String)} {q : Pointer} {tag : String}

/-! ## 1. First keys -/

/-- The first key of a mapping whose target is a pointer. -/
def firstTag? (self : Option OwnAddress) (mapping : List (String × String)) (q : Pointer) :
    Option String :=
  (mapping.find? fun e => mappingPointer? self e.2 = some q).map Prod.fst

/-- Another entry counts only if none before it has the target. -/
theorem firstTag?_concat {target : String} :
    firstTag? self (mapping ++ [(tag, target)]) q =
      (firstTag? self mapping q).or
        (if mappingPointer? self target = some q then some tag else none) := by
  rw [firstTag?, List.find?_append, Option.map_or, firstTag?, List.find?_singleton]
  by_cases h : mappingPointer? self target = some q <;> simp [h]

/-- A target has a first key just if it is the target of an entry. -/
theorem exists_firstTag? (h : ∃ e ∈ mapping, mappingPointer? self e.2 = some q) :
    ∃ tag, firstTag? self mapping q = some tag := by
  obtain ⟨e, he, hq⟩ := h
  cases hfind : mapping.find? fun e => mappingPointer? self e.2 = some q with
  | none => exact absurd (decide_eq_true hq) (List.find?_eq_none.mp hfind e he)
  | some first => exact ⟨first.1, by rw [firstTag?, hfind]; rfl⟩

/-! ## 2. Tagged alternatives -/

section Targets

variable {targets : List (Option Pointer)} {i : Nat} {t : Option String}

/-- The first alternative that refers to a pointer. -/
def firstAt? (targets : List (Option Pointer)) (q : Pointer) : Option Nat :=
  targets.findIdx? (· = some q)

theorem get_of_firstAt? (h : firstAt? targets q = some i) : targets[i]? = some (some q) := by
  obtain ⟨hi, hq, _⟩ := List.findIdx?_eq_some_iff_getElem.mp h
  rw [List.getElem?_eq_getElem hi]
  simpa using hq

/-- An alternative is the first one for one pointer only. -/
theorem firstAt?_inj {q' : Pointer} (h : firstAt? targets q = some i)
    (h' : firstAt? targets q' = some i) : q = q' := by
  have heq := (get_of_firstAt? h).symm.trans (get_of_firstAt? h')
  simpa using heq

/-- The alternatives that a mapping tags so far, each with the first key for its pointer. -/
def Tags (self : Option OwnAddress) (targets : List (Option Pointer))
    (mapping : List (String × String)) (order : List (Nat × Option String)) : Prop :=
  ∀ i t, (i, t) ∈ order ↔
    ∃ q tag, firstAt? targets q = some i ∧ firstTag? self mapping q = some tag ∧ t = some tag

/-- An alternative is placed if its pointer has a key. -/
theorem Tags.placed_iff {order : List (Nat × Option String)}
    (h : Tags self targets mapping order) (hq : firstAt? targets q = some i) :
    placed order i = true ↔ ∃ tag, firstTag? self mapping q = some tag := by
  rw [placed, List.any_eq_true]
  constructor
  · rintro ⟨⟨j, t⟩, hmem, hj⟩
    obtain rfl : j = i := of_decide_eq_true hj
    obtain ⟨q', tag, hq', htag, _⟩ := (h j t).mp hmem
    cases firstAt?_inj hq hq'
    exact ⟨tag, htag⟩
  · rintro ⟨tag, htag⟩
    exact ⟨(i, some tag), (h i _).mpr ⟨q, tag, hq, htag, rfl⟩, by simp⟩

/-- What no alternative refers to may be added to a mapping. -/
theorem Tags.congr {mapping' : List (String × String)} {order : List (Nat × Option String)}
    (h : Tags self targets mapping order)
    (heq : ∀ q i, firstAt? targets q = some i →
      firstTag? self mapping' q = firstTag? self mapping q) : Tags self targets mapping' order := by
  intro i t
  rw [h i t]
  constructor
  · rintro ⟨q, tag, hq, htag, ht⟩
    exact ⟨q, tag, hq, (heq q i hq).trans htag, ht⟩
  · rintro ⟨q, tag, hq, htag, ht⟩
    exact ⟨q, tag, hq, (heq q i hq).symm.trans htag, ht⟩

/-- An entry tags the first alternative that refers to its target, unless it has a tag. -/
theorem Tags.place {order : List (Nat × Option String)} (h : Tags self targets mapping order)
    (key target : String) :
    Tags self targets (mapping ++ [(key, target)])
      (place targets (mappingPointer? self target) key order) := by
  cases hwanted : mappingPointer? self target with
  | none =>
    refine h.congr fun q i _ => ?_
    rw [firstTag?_concat, hwanted, if_neg nofun, Option.or_none]
  | some w =>
    have hother (q : Pointer) (hq : q ≠ w) :
        firstTag? self (mapping ++ [(key, target)]) q = firstTag? self mapping q := by
      rw [firstTag?_concat, hwanted, if_neg (fun heq => hq (Option.some.inj heq).symm),
        Option.or_none]
    have hsame : firstTag? self (mapping ++ [(key, target)]) w =
        (firstTag? self mapping w).or (some key) := by
      rw [firstTag?_concat, hwanted, if_pos rfl]
    simp only [Discriminator.place, Option.isSome_some, if_true]
    cases hat : targets.findIdx? (· = some w) with
    | none =>
      refine h.congr fun q i hq => hother q ?_
      rintro rfl
      cases hat.symm.trans hq
    | some j =>
      simp only
      by_cases hplaced : placed order j = true
      · rw [if_pos hplaced]
        obtain ⟨first, hfirst⟩ := (h.placed_iff hat).mp hplaced
        refine h.congr fun q i _ => ?_
        by_cases hq : q = w
        · rw [hq, hsame, hfirst, Option.some_or]
        · exact hother q hq
      · rw [if_neg hplaced]
        have hnone : firstTag? self mapping w = none := by
          rw [Option.eq_none_iff_forall_ne_some]
          exact fun tag htag => hplaced ((h.placed_iff hat).mpr ⟨tag, htag⟩)
        intro i t
        rw [List.mem_append, List.mem_singleton, h i t]
        constructor
        · rintro (⟨q, tag, hq, htag, ht⟩ | heq)
          · have hne : q ≠ w := by
              rintro rfl
              cases hnone.symm.trans htag
            exact ⟨q, tag, hq, (hother q hne).trans htag, ht⟩
          · cases heq
            exact ⟨w, key, hat, by rw [hsame, hnone, Option.none_or], rfl⟩
        · rintro ⟨q, tag, hq, htag, rfl⟩
          by_cases hqw : q = w
          · subst hqw
            rw [hsame, hnone, Option.none_or] at htag
            cases hat.symm.trans hq
            cases htag
            exact Or.inr rfl
          · exact Or.inl ⟨q, tag, hq, (hother q hqw).symm.trans htag, rfl⟩

theorem mem_fst_iff_placed {order : List (Nat × Option String)} :
    i ∈ order.map Prod.fst ↔ placed order i = true := by
  simp [placed]

/-- No position is placed twice. -/
theorem nodup_place {wanted : Option Pointer} {order : List (Nat × Option String)}
    (h : (order.map Prod.fst).Nodup) :
    ((Discriminator.place targets wanted tag order).map Prod.fst).Nodup := by
  unfold Discriminator.place
  split
  · split
    · split
      · exact h
      · rename_i hplaced
        rw [List.map_append, List.map_singleton, List.nodup_append]
        refine ⟨h, List.pairwise_singleton _ _, fun j hj k hk heq => hplaced ?_⟩
        rw [heq, List.mem_singleton.mp hk] at hj
        exact mem_fst_iff_placed.mp hj
    · exact h
  · exact h

/-- All entries of a mapping, one after the other. -/
theorem tags_foldl (targets : List (Option Pointer)) (mapping : List (String × String)) :
    Tags self targets mapping (mapping.foldl
      (fun order (key, target) =>
        Discriminator.place targets (mappingPointer? self target) key order) []) := by
  induction mapping using List.reverseRecOn with
  | nil =>
    intro i t
    simp [firstTag?]
  | append_singleton mapping entry ih =>
    rw [List.foldl_append]
    exact ih.place entry.1 entry.2

end Targets

/-- The pointers that alternatives refer to. -/
def targets (self : Option OwnAddress) (members : List Schema) : List (Option Pointer) :=
  members.map (memberPointer? self)

/-- If some alternative refers to a pointer, there is a first one. -/
theorem exists_firstAt? {members : List Schema}
    (h : ∃ s ∈ members, memberPointer? self s = some q) :
    ∃ i, firstAt? (targets self members) q = some i := by
  obtain ⟨s, hs, hq⟩ := h
  cases hfind : firstAt? (targets self members) q with
  | some i => exact ⟨i, rfl⟩
  | none =>
    have hnone := List.findIdx?_eq_none_iff.mp hfind _ (List.mem_map_of_mem hs)
    exact absurd hq (by simpa using hnone)

/-- **The tagged alternatives**: those that are the first to refer to a target of the mapping, each
with the first key for it. -/
theorem mem_taggedOrder {members : List Schema} {d : Discriminator} {i : Nat} {t : Option String} :
    (i, t) ∈ taggedOrder self members d ↔
      ∃ q tag, firstAt? (targets self members) q = some i ∧
        firstTag? self d.mapping q = some tag ∧ t = some tag :=
  tags_foldl (targets self members) d.mapping i t

/-- An alternative has one tag at most. -/
theorem nodup_taggedOrder (self : Option OwnAddress) (members : List Schema) (d : Discriminator) :
    ((taggedOrder self members d).map Prod.fst).Nodup := by
  rw [taggedOrder]
  exact List.foldlRecOn (motive := fun order : List (Nat × Option String) =>
    (order.map Prod.fst).Nodup) d.mapping _ .nil fun _ h _ _ => nodup_place h

/-! ## 3. The order of all alternatives -/

/-- Every alternative has a position in their order. -/
theorem exists_mem_memberOrder {members : List Schema} {d : Option Discriminator} {i : Nat}
    (h : i < members.length) : ∃ tag, (i, tag) ∈ memberOrder self members d := by
  unfold memberOrder
  generalize (d.map (taggedOrder self members)).getD [] = tagged
  by_cases hplaced : placed tagged i = true
  · obtain ⟨⟨j, tag⟩, hmem, rfl⟩ := List.mem_map.mp (mem_fst_iff_placed.mpr hplaced)
    exact ⟨tag, List.mem_append_left _ hmem⟩
  · refine ⟨none, List.mem_append_right _ (List.mem_map.mpr ⟨i, ?_, rfl⟩)⟩
    rw [List.mem_filter, List.mem_range, Bool.not_eq_true', Bool.eq_false_iff]
    exact ⟨h, hplaced⟩

/-- No other position has one. -/
theorem lt_of_mem_memberOrder {members : List Schema} {d : Option Discriminator}
    {step : Nat × Option String} (h : step ∈ memberOrder self members d) :
    step.1 < members.length := by
  rcases List.mem_append.mp h with htagged | hrest
  · cases d with
    | none => exact absurd htagged List.not_mem_nil
    | some d =>
      obtain ⟨q, _, hq, _⟩ := mem_taggedOrder.mp htagged
      have hlt := (List.getElem?_eq_some_iff.mp (get_of_firstAt? hq)).1
      rwa [targets, List.length_map] at hlt
  · obtain ⟨i, hi, rfl⟩ := List.mem_map.mp hrest
    exact List.mem_range.mp (List.mem_filter.mp hi).1

/-- An alternative that is no reference to a pointer has no tag there. -/
theorem mem_memberOrder_of_none {members : List Schema} {d : Discriminator} {i : Nat} {s : Schema}
    (hs : members[i]? = some s) (hnone : memberPointer? self s = none) :
    (i, none) ∈ memberOrder self members (some d) := by
  obtain ⟨tag, hmem⟩ : ∃ tag, (i, tag) ∈ memberOrder self members (some d) :=
    exists_mem_memberOrder (List.getElem?_eq_some_iff.mp hs).1
  rcases List.mem_append.mp hmem with htagged | hrest
  · obtain ⟨q, _, hq, _⟩ := mem_taggedOrder.mp htagged
    have hget := get_of_firstAt? hq
    rw [targets, List.getElem?_map, hs, Option.map_some, hnone] at hget
    cases hget
  · obtain ⟨_, _, heq⟩ := List.mem_map.mp hrest
    cases heq
    exact hmem

end ApiTypes.Discriminator
