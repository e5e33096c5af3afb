/-
# Numbered names

Names that repeat are numbered, and the numbers are chosen so that no name of the result repeats.
There is always a number left: the numbered forms of a name differ, and one more of them is tried
than there are names taken.

* `Naming.numbered_injective`: different numbers make different names.
* `Naming.freeName_notMem`: the name that is chosen is not taken.
* `Naming.IsFirstFree`: a name is the first form not taken, and `Naming.isFirstFree_freeName`
  says that this is the name that is chosen.
* `Naming.nodup_distinctNames` and `Naming.numbers_distinctNames`: the names of the result differ,
  and each is a numbered form of the name in its place.
-/
import ApiTypes.Naming
import ApiTypes.Proofs.Json.Following
import Mathlib.Data.List.Nodup
import Mathlib.Data.List.Perm.Subperm

namespace ApiTypes.Naming

variable {taken names : List String} {base name : String}

/-! ## 1. Numbers -/

theorem toString_injective {m n : Nat} (h : toString m = toString n) : m = n := by
  have hdigits : Nat.toDigits 10 m = Nat.toDigits 10 n := by
    rw [← Nat.toList_repr, ← Nat.toList_repr]
    exact congrArg String.toList h
  rw [← digitsValue_toDigits m, ← digitsValue_toDigits n, hdigits]

/-- A form with a number is longer than the name. -/
theorem append_number_ne (n : Nat) : base ++ "_" ++ toString n ≠ base := by
  intro h
  have hlength := congrArg String.length h
  have hmark : "_".length = 1 := rfl
  rw [String.length_append, String.length_append, hmark] at hlength
  omega

/-- **Different numbers make different names.** -/
theorem numbered_injective {m n : Nat} (hm : 1 ≤ m) (hn : 1 ≤ n)
    (h : numbered base m = numbered base n) : m = n := by
  unfold numbered at h
  split at h
  · split at h
    · omega
    · exact absurd h.symm (append_number_ne n)
  · split at h
    · exact absurd h (append_number_ne m)
    · rw [String.append_right_inj] at h
      exact toString_injective h

/-! ## 2. Free names -/

/-- The search ends with a numbered form, and all forms before it are taken. -/
theorem exists_firstFree (tries n : Nat) :
    ∃ i, n ≤ i ∧ firstFree taken base tries n = numbered base i ∧
      ∀ j, n ≤ j → j < i → numbered base j ∈ taken := by
  induction tries generalizing n with
  | zero => exact ⟨n, Nat.le_refl n, rfl, fun j hj hlt => by omega⟩
  | succ tries ih =>
    rw [firstFree]
    split
    · rename_i htaken
      obtain ⟨i, hi, heq, hbefore⟩ := ih (n + 1)
      refine ⟨i, by omega, heq, fun j hj hlt => ?_⟩
      rcases Nat.eq_or_lt_of_le hj with rfl | hj
      · exact List.contains_iff_mem.mp htaken
      · exact hbefore j hj hlt
    · exact ⟨n, Nat.le_refl n, rfl, fun j hj hlt => by omega⟩

/-- If the search ends with a name that is taken, all forms that were tried are. -/
theorem taken_of_firstFree {tries n : Nat} (h : firstFree taken base tries n ∈ taken) :
    ∀ i ≤ tries, numbered base (n + i) ∈ taken := by
  induction tries generalizing n with
  | zero =>
    intro i hi
    obtain rfl : i = 0 := Nat.le_zero.mp hi
    exact h
  | succ tries ih =>
    rw [firstFree] at h
    split at h
    · rename_i hn
      intro i hi
      cases i with
      | zero => exact List.contains_iff_mem.mp hn
      | succ i =>
        rw [Nat.add_succ, ← Nat.succ_add]
        exact ih h i (Nat.le_of_succ_le_succ hi)
    · rename_i hn
      exact absurd (List.contains_iff_mem.mpr h) hn

/-- **The name that is chosen is not taken.** -/
theorem freeName_notMem (taken : List String) (base : String) : freeName taken base ∉ taken := by
  intro h
  let forms := (List.range (taken.length + 1)).map fun i => numbered base (1 + i)
  have hforms : forms.Nodup := by
    refine List.Nodup.map (fun i j heq => ?_) List.nodup_range
    have := numbered_injective (Nat.le_add_right 1 i) (Nat.le_add_right 1 j) heq
    omega
  have hsub : forms ⊆ taken := by
    intro form hform
    obtain ⟨i, hi, rfl⟩ := List.mem_map.mp hform
    exact taken_of_firstFree h i (Nat.le_of_lt_succ (List.mem_range.mp hi))
  have hlength := (List.subperm_of_subset hforms hsub).length_le
  rw [List.length_map, List.length_range] at hlength
  omega

/-- **The first form of a name that is not taken**: it is where a search through the numbered
forms ends. -/
structure IsFirstFree (taken : List String) (base name : String) : Prop where
  free : name ∉ taken
  first : ∃ n, 1 ≤ n ∧ name = numbered base n ∧
    ∀ m, 1 ≤ m → m < n → numbered base m ∈ taken

/-- **The search ends for every name**, whatever is taken, with the first form that is not. -/
theorem isFirstFree_freeName (taken : List String) (base : String) :
    IsFirstFree taken base (freeName taken base) :=
  ⟨freeName_notMem taken base, exists_firstFree taken.length 1⟩

theorem IsFirstFree.congr {taken' : List String} (h : IsFirstFree taken base name)
    (hsame : ∀ x, x ∈ taken ↔ x ∈ taken') : IsFirstFree taken' base name := by
  obtain ⟨hfree, n, hn, hname, hbefore⟩ := h
  exact ⟨fun hmem => hfree ((hsame name).mpr hmem), n, hn, hname,
    fun m hm hlt => (hsame _).mp (hbefore m hm hlt)⟩

/-- A name that is not taken keeps its form. -/
theorem IsFirstFree.eq_base_iff (h : IsFirstFree taken base name) :
    name = base ↔ base ∉ taken := by
  constructor
  · rintro rfl
    exact h.free
  · intro hbase
    obtain ⟨n, hn, rfl, hbefore⟩ := h.first
    have hone : ¬ 1 < n := fun hlt => hbase (hbefore 1 le_rfl hlt)
    rw [numbered, if_pos (by omega)]

/-! ## 3. Lists of names -/

/-- No name of the result is taken. -/
theorem notMem_of_mem_distinctFrom : ∀ {names taken : List String},
    name ∈ distinctFrom taken names → name ∉ taken
  | [], _, h => absurd h List.not_mem_nil
  | base :: rest, taken, h => by
    rcases List.mem_cons.mp h with rfl | h
    · exact freeName_notMem taken base
    · exact fun hname => notMem_of_mem_distinctFrom h (List.mem_cons_of_mem _ hname)

theorem nodup_distinctFrom : ∀ {names taken : List String}, (distinctFrom taken names).Nodup
  | [], _ => List.nodup_nil
  | _ :: _, _ => List.nodup_cons.mpr
    ⟨fun h => notMem_of_mem_distinctFrom h List.mem_cons_self, nodup_distinctFrom⟩

theorem numbers_distinctFrom : ∀ {names taken : List String},
    List.Forall₂ (fun base name => ∃ n, name = numbered base n) names (distinctFrom taken names)
  | [], _ => .nil
  | base :: _, taken => by
    obtain ⟨n, _, hname, _⟩ := (isFirstFree_freeName taken base).first
    exact .cons ⟨n, hname⟩ numbers_distinctFrom

/-- Each name is the first form that neither is taken nor stands before it. -/
theorem isFirstFree_distinctFrom (taken : List String) {i : Nat} (h : names[i]? = some base) :
    ∃ name, (distinctFrom taken names)[i]? = some name ∧
      IsFirstFree ((distinctFrom taken names).take i ++ taken) base name := by
  induction names generalizing taken i with
  | nil => cases h
  | cons first rest ih =>
    cases i with
    | zero =>
      obtain rfl : first = base := Option.some.inj h
      exact ⟨freeName taken first, rfl, isFirstFree_freeName taken first⟩
    | succ i =>
      obtain ⟨name, hname, hfree⟩ := ih (freeName taken first :: taken) h
      refine ⟨name, hname, hfree.congr fun x => ?_⟩
      rw [distinctFrom, List.take_succ_cons, List.cons_append, List.mem_append, List.mem_cons,
        List.mem_cons, List.mem_append]
      exact or_left_comm

/-- **The names of the result differ.** -/
theorem nodup_distinctNames (names : List String) : (distinctNames names).Nodup :=
  nodup_distinctFrom

/-- Each name of the result is a numbered form of the name in its place. -/
theorem numbers_distinctNames (names : List String) :
    List.Forall₂ (fun base name => ∃ n, name = numbered base n) names (distinctNames names) :=
  numbers_distinctFrom

/-- **Each name of the result is the first form that does not stand before it.** -/
theorem isFirstFree_distinctNames {i : Nat} (h : names[i]? = some base) :
    ∃ name, (distinctNames names)[i]? = some name ∧
      IsFirstFree ((distinctNames names).take i) base name := by
  obtain ⟨name, hname, hfree⟩ := isFirstFree_distinctFrom [] h
  rw [List.append_nil] at hfree
  exact ⟨name, hname, hfree⟩

example : distinctNames ["a", "a", "a_2", "a"] = ["a", "a_2", "a_2_2", "a_3"] := by cbv

end ApiTypes.Naming
