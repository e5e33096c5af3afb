/-
# The arrangement of alternatives

The alternatives are looked for twice: by the mapping, an entry of which may have no alternative as
its target, or one that has a tag already, and then by their positions.  No search loses an
alternative and none finds it again.

* `Discriminator.FirstEntry` is the entry of a mapping that an alternative has its tag from.
* `Discriminator.pairwise_taggedOrder`: the tagged alternatives stand in the order of these entries.
* `Discriminator.perm_memberOrder`: every position stands in the order, and only once.
* `Discriminator.memberOrder_arranged` puts them together.
-/
import ApiTypes.Proofs.Typing.MemberOrder

namespace ApiTypes.Discriminator

variable {self : Option OwnAddress} {members : List Schema} {mapping more : List (String × String)}
  {i k : Nat} {tag : String}

/-! ## 1. The entries that tag -/

/-- A target of a mapping is an alternative: the first one that refers to the same pointer. -/
def Hits (self : Option OwnAddress) (members : List Schema) (target : String) (i : Nat) : Prop :=
  ∃ q, mappingPointer? self target = some q ∧ firstAt? (targets self members) q = some i

/-- The first entry of a mapping whose target is an alternative, with its position and its key. -/
def FirstEntry (self : Option OwnAddress) (members : List Schema) (mapping : List (String × String))
    (i k : Nat) (tag : String) : Prop :=
  ∃ target, mapping[k]? = some (tag, target) ∧ Hits self members target i ∧
    ∀ j < k, ∀ e, mapping[j]? = some e → ¬Hits self members e.2 i

/-- The target of a mapping is an alternative that refers to the same pointer. -/
theorem Hits.memberPointer {target : String} (h : Hits self members target i) :
    ∃ s q, members[i]? = some s ∧ memberPointer? self s = some q ∧
      mappingPointer? self target = some q := by
  obtain ⟨q, hq, hfirst⟩ := h
  have hget := get_of_firstAt? hfirst
  rw [targets, List.getElem?_map, Option.map_eq_some_iff] at hget
  obtain ⟨s, hs, hpointer⟩ := hget
  exact ⟨s, q, hs, hpointer, hq⟩

theorem hits_iff {q : Pointer} {target : String} (h : firstAt? (targets self members) q = some i) :
    Hits self members target i ↔ mappingPointer? self target = some q := by
  refine ⟨fun ⟨q', hq', hfirst⟩ => ?_, fun hq => ⟨q, hq, h⟩⟩
  rwa [firstAt?_inj h hfirst]

theorem FirstEntry.lt (h : FirstEntry self members mapping i k tag) : k < mapping.length := by
  obtain ⟨target, hk, _⟩ := h
  exact (List.getElem?_eq_some_iff.mp hk).1

/-- Later entries change nothing. -/
theorem FirstEntry.append (h : FirstEntry self members mapping i k tag) :
    FirstEntry self members (mapping ++ more) i k tag := by
  have hlt := h.lt
  obtain ⟨target, hk, hhits, hbefore⟩ := h
  refine ⟨target, ?_, hhits, fun j hj e he => hbefore j hj e ?_⟩
  · rwa [List.getElem?_append_left hlt]
  · rwa [List.getElem?_append_left (Nat.lt_trans hj hlt)] at he

/-- **An alternative has the first key for its pointer.** -/
theorem exists_firstEntry_iff : (∃ k, FirstEntry self members mapping i k tag) ↔
    ∃ q, firstAt? (targets self members) q = some i ∧ firstTag? self mapping q = some tag := by
  constructor
  · rintro ⟨k, target, hk, ⟨q, hq, hfirst⟩, hbefore⟩
    refine ⟨q, hfirst, ?_⟩
    obtain ⟨hlt, hget⟩ := List.getElem?_eq_some_iff.mp hk
    rw [firstTag?, Option.map_eq_some_iff]
    refine ⟨(tag, target), List.find?_eq_some_iff_getElem.mpr ⟨by simpa using hq, k, hlt, hget, ?_⟩,
      rfl⟩
    intro j hj
    have hother : ¬Hits self members mapping[j].2 i :=
      hbefore j hj _ (List.getElem?_eq_getElem _)
    simpa [hits_iff hfirst] using hother
  · rintro ⟨q, hfirst, htag⟩
    rw [firstTag?, Option.map_eq_some_iff] at htag
    obtain ⟨⟨_, target⟩, hfind, rfl⟩ := htag
    obtain ⟨hq, k, hlt, hget, hbefore⟩ := List.find?_eq_some_iff_getElem.mp hfind
    refine ⟨k, target, List.getElem?_eq_some_iff.mpr ⟨hlt, hget⟩, ⟨q, by simpa using hq, hfirst⟩,
      fun j hj e he hhits => ?_⟩
    obtain ⟨_, rfl⟩ := List.getElem?_eq_some_iff.mp he
    have hother := hbefore j hj
    rw [(hits_iff hfirst).mp hhits] at hother
    simp at hother

/-! ## 2. Tagged alternatives -/

/-- The tagged alternatives, so far, stand in the order of the entries that they have their tags
from. -/
def InEntryOrder (self : Option OwnAddress) (members : List Schema)
    (mapping : List (String × String)) (order : List (Nat × Option String)) : Prop :=
  order.Pairwise fun a b => ∃ j k tag tag', j < k ∧ a.2 = some tag ∧ b.2 = some tag' ∧
    FirstEntry self members mapping a.1 j tag ∧ FirstEntry self members mapping b.1 k tag'

/-- The entry after others is the first one for an alternative that they have not placed. -/
theorem firstEntry_concat {order : List (Nat × Option String)} {q : Pointer} {target : String}
    (htags : Tags self (targets self members) mapping order)
    (hq : mappingPointer? self target = some q) (hi : firstAt? (targets self members) q = some i)
    (hplaced : ¬placed order i = true) :
    FirstEntry self members (mapping ++ [(tag, target)]) i mapping.length tag := by
  refine ⟨target, by simp, ⟨q, hq, hi⟩, fun j hj e he hhits => hplaced ?_⟩
  rw [List.getElem?_append_left hj] at he
  refine (htags.placed_iff hi).mpr (exists_firstTag? ⟨e, List.mem_of_getElem? he, ?_⟩)
  exact (hits_iff hi).mp hhits

/-- **An entry is later than those that have tagged already.** -/
theorem InEntryOrder.place {order : List (Nat × Option String)}
    (htags : Tags self (targets self members) mapping order)
    (h : InEntryOrder self members mapping order) (key target : String) :
    InEntryOrder self members (mapping ++ [(key, target)])
      (place (targets self members) (mappingPointer? self target) key order) := by
  have hold : InEntryOrder self members (mapping ++ [(key, target)]) order :=
    h.imp fun ⟨j, k, tag, tag', hlt, ha, hb, hj, hk⟩ =>
      ⟨j, k, tag, tag', hlt, ha, hb, hj.append, hk.append⟩
  cases hwanted : mappingPointer? self target with
  | none => exact hold
  | some q =>
    simp only [Discriminator.place, Option.isSome_some, if_true]
    cases hfirst : (targets self members).findIdx? (· = some q) with
    | none => exact hold
    | some i =>
      simp only
      by_cases hplaced : placed order i = true
      · rwa [if_pos hplaced]
      · rw [if_neg hplaced]
        refine List.pairwise_append.mpr ⟨hold, List.pairwise_singleton _ _, fun a ha b hb => ?_⟩
        obtain rfl := List.mem_singleton.mp hb
        obtain ⟨q', tag, hq', htag, ht⟩ := (htags a.1 a.2).mp ha
        obtain ⟨j, hj⟩ := exists_firstEntry_iff.mpr ⟨q', hq', htag⟩
        exact ⟨j, _, tag, key, hj.lt, ht, rfl, hj.append,
          firstEntry_concat htags hwanted hfirst hplaced⟩

theorem inEntryOrder_foldl (self : Option OwnAddress) (members : List Schema)
    (mapping : List (String × String)) :
    InEntryOrder self members mapping (mapping.foldl (fun order (key, target) =>
      place (targets self members) (mappingPointer? self target) key order) []) := by
  induction mapping using List.reverseRecOn with
  | nil => exact List.Pairwise.nil
  | append_singleton mapping entry ih =>
    rw [List.foldl_append]
    exact ih.place (tags_foldl _ mapping) entry.1 entry.2

/-- **The tagged alternatives stand in the order of the mapping.** -/
theorem pairwise_taggedOrder (self : Option OwnAddress) (members : List Schema)
    (d : Discriminator) :
    InEntryOrder self members d.mapping (taggedOrder self members d) :=
  inEntryOrder_foldl self members d.mapping

/-- All of them have tags. -/
theorem exists_keys (self : Option OwnAddress) (members : List Schema) (d : Discriminator) :
    ∃ tagged : List (Nat × String),
      taggedOrder self members d = tagged.map fun (i, tag) => (i, some tag) := by
  refine ⟨(taggedOrder self members d).map fun (i, t) => (i, t.getD ""), ?_⟩
  rw [List.map_map]
  refine (List.map_id _).symm.trans (List.map_congr_left ?_)
  rintro ⟨i, t⟩ hmem
  obtain ⟨_, _, _, _, rfl⟩ := mem_taggedOrder.mp hmem
  rfl

/-! ## 3. All alternatives -/

/-- The positions that are left over when some are placed. -/
def untagged (members : List Schema) (tagged : List (Nat × Option String)) : List Nat :=
  (List.range members.length).filter fun i => !placed tagged i

theorem pairwise_untagged (tagged : List (Nat × Option String)) :
    (untagged members tagged).Pairwise (· < ·) :=
  List.pairwise_lt_range.filter _

theorem memberOrder_some (self : Option OwnAddress) (members : List Schema) (d : Discriminator) :
    memberOrder self members (some d) = taggedOrder self members d
      ++ (untagged members (taggedOrder self members d)).map (·, none) := rfl

theorem memberOrder_none (self : Option OwnAddress) (members : List Schema) :
    memberOrder self members none = (List.range members.length).map (·, none) := by
  have hrest : untagged members [] = List.range members.length :=
    List.filter_eq_self.mpr fun _ _ => rfl
  exact congrArg (List.map (·, none)) hrest

theorem nodup_memberOrder (self : Option OwnAddress) (members : List Schema)
    (d : Option Discriminator) : ((memberOrder self members d).map Prod.fst).Nodup := by
  have hpositions : ∀ positions : List Nat,
      (positions.map (·, (none : Option String))).map Prod.fst = positions := fun positions => by
    rw [List.map_map]
    exact List.map_id positions
  cases d with
  | none =>
    rw [memberOrder_none, hpositions]
    exact List.nodup_range
  | some d =>
    rw [memberOrder_some, List.map_append, hpositions]
    refine List.nodup_append.mpr
      ⟨nodup_taggedOrder self members d, List.nodup_range.filter _, fun i hi _ hrest heq => ?_⟩
    have hplaced := (List.mem_filter.mp (heq ▸ hrest)).2
    rw [mem_fst_iff_placed.mp hi] at hplaced
    cases hplaced

/-- **Every position stands in the order once.** -/
theorem perm_memberOrder (self : Option OwnAddress) (members : List Schema)
    (d : Option Discriminator) :
    ((memberOrder self members d).map Prod.fst).Perm (List.range members.length) := by
  have hnodup := nodup_memberOrder self members d
  refine (List.perm_ext_iff_of_nodup hnodup List.nodup_range).mpr fun i => ?_
  rw [List.mem_range, List.mem_map]
  constructor
  · rintro ⟨step, hstep, rfl⟩
    exact lt_of_mem_memberOrder hstep
  · intro hi
    obtain ⟨tag, hmem⟩ : ∃ tag, (i, tag) ∈ memberOrder self members d := exists_mem_memberOrder hi
    exact ⟨_, hmem, rfl⟩

/-- **The alternatives are arranged**: every position stands in their order once.  Those that an
entry of the mapping has as its target come first, each with the key of the first such entry, which
names the pointer that the alternative refers to, and in the order of these entries; the others
follow in their own order, which is all that is left without a discriminator. -/
theorem memberOrder_arranged (self : Option OwnAddress) (members : List Schema) :
    (∀ d, ((memberOrder self members d).map Prod.fst).Perm (List.range members.length)) ∧
    (∀ d : Discriminator, ∃ (tagged : List (Nat × String)) (rest : List Nat),
      memberOrder self members (some d)
        = tagged.map (fun (i, tag) => (i, some tag)) ++ rest.map (·, none) ∧
      (∀ i tag, (i, tag) ∈ tagged ↔ ∃ k, FirstEntry self members d.mapping i k tag) ∧
      (tagged.Pairwise fun a b => ∃ j k, j < k ∧ FirstEntry self members d.mapping a.1 j a.2 ∧
        FirstEntry self members d.mapping b.1 k b.2) ∧
      (∀ i tag, (i, tag) ∈ tagged → ∃ s target q, members[i]? = some s ∧
        memberPointer? self s = some q ∧ (tag, target) ∈ d.mapping ∧
        mappingPointer? self target = some q) ∧
      rest.Pairwise (· < ·)) ∧
    memberOrder self members none = (List.range members.length).map (·, none) := by
  refine ⟨perm_memberOrder self members, fun d => ?_, memberOrder_none self members⟩
  obtain ⟨tagged, htagged⟩ := exists_keys self members d
  have hmem : ∀ i tag, (i, tag) ∈ tagged ↔ ∃ k, FirstEntry self members d.mapping i k tag := by
    intro i tag
    rw [exists_firstEntry_iff]
    have hstep : (i, tag) ∈ tagged ↔ (i, some tag) ∈ taggedOrder self members d := by
      rw [htagged]
      simp
    rw [hstep, mem_taggedOrder]
    simp
  have horder := pairwise_taggedOrder self members d
  rw [InEntryOrder, htagged, List.pairwise_map] at horder
  refine ⟨tagged, untagged members (taggedOrder self members d), ?_, hmem, ?_, ?_,
    pairwise_untagged _⟩
  · rw [memberOrder_some, htagged]
  · refine horder.imp ?_
    rintro a b ⟨j, k, _, _, hlt, ha, hb, hj, hk⟩
    cases ha
    cases hb
    exact ⟨j, k, hlt, hj, hk⟩
  · intro i tag hi
    obtain ⟨k, target, hk, hhits, _⟩ := (hmem i tag).mp hi
    obtain ⟨s, q, hs, hq, htarget⟩ := hhits.memberPointer
    exact ⟨s, target, q, hs, hq, List.mem_of_getElem? hk, htarget⟩

/-- The key that a dog is tagged with leads to where the dog is. -/
theorem memberOrder_arranged_dog :
    ∃ target q, ("dog", target) ∈ [("bird", "Bird"), ("dog", "Dog")] ∧
      memberPointer? none (.reference "#/components/schemas/Dog" {}) = some q ∧
      mappingPointer? none target = some q := by
  obtain ⟨tagged, rest, horder, _, _, htags, _⟩ := (memberOrder_arranged none
    [.reference "#/components/schemas/Cat" {}, .reference "#/components/schemas/Dog" {}]).2.1
    ⟨"kind", [("bird", "Bird"), ("dog", "Dog")]⟩
  have hdog : (1, "dog") ∈ tagged := by
    have hplaced : (1, some "dog") ∈ tagged.map (fun (i, tag) => (i, some tag))
        ++ rest.map (·, none) := by
      rw [← horder]
      decide +kernel
    simpa using hplaced
  obtain ⟨s, target, q, hs, hq, htarget, hpointer⟩ := htags 1 "dog" hdog
  obtain rfl := Option.some.inj hs
  exact ⟨target, q, htarget, hq, hpointer⟩

/-- The last key for the first alternative comes too late, and the last alternative is the first one
once more. -/
example : memberOrder none
    [.reference "#/components/schemas/Cat" {}, .reference "#/components/schemas/Dog" {},
      .scalar [.string] {}, .reference "#/components/schemas/Cat" {}]
    (some ⟨"kind", [("dog", "Dog"), ("bird", "Bird"), ("cat", "#/components/schemas/Cat"),
      ("tom", "Cat")]⟩)
    = [(1, some "dog"), (0, some "cat"), (2, none), (3, none)] := by cbv

end ApiTypes.Discriminator
