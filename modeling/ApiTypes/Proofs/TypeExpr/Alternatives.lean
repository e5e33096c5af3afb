/-
# The alternatives of a built union

A union is built from the alternatives of its parts, each shape once.  Those of normal parts are
neither empty nor unions, so the alternatives of the union are just the ones that are kept, also
where only one is.

* `TypeExpr.mem_distinct_append`: alternatives of different shapes that come first are all kept.
* `TypeExpr.Offers`: an alternative has a given shape.
* `TypeExpr.mem_alternatives_unionOf`: the alternatives of a built union.
-/
import ApiTypes.Proofs.TypeExpr.Docs
import ApiTypes.Proofs.TypeExpr.Normal

namespace ApiTypes.TypeExpr

variable {es es' kept : List TypeExpr} {x : TypeExpr}

/-- What is kept stays. -/
theorem subset_foldl_addDistinct (es kept : List TypeExpr) : kept ⊆ es.foldl addDistinct kept := by
  induction es generalizing kept with
  | nil => exact List.Subset.refl kept
  | cons e rest ih =>
    intro x hx
    refine ih _ ?_
    unfold addDistinct
    split
    · exact hx
    · exact List.mem_append_left _ hx

/-- Expressions of different shapes are all kept. -/
theorem foldl_addDistinct_of_pairwise
    (h : (kept ++ es).Pairwise fun a b => sameShape a b = false) :
    es.foldl addDistinct kept = kept ++ es := by
  induction es generalizing kept with
  | nil => rw [List.foldl_nil, List.append_nil]
  | cons e rest ih =>
    have hnew : kept.any (sameShape · e) = false := by
      rw [List.any_eq_false]
      intro a ha
      rw [(List.pairwise_append.mp h).2.2 a ha e List.mem_cons_self]
      decide
    have hadd : addDistinct kept e = kept ++ [e] := by
      rw [addDistinct, hnew]
      rfl
    rw [List.foldl_cons, hadd, ih (by simpa using h), List.append_assoc, List.singleton_append]

/-- **Alternatives of different shapes that come first are kept**, whatever follows them. -/
theorem mem_distinct_append (h : es.Pairwise fun a b => sameShape a b = false) (hx : x ∈ es) :
    x ∈ distinct (es ++ es') := by
  have hkept : es.foldl addDistinct [] = es := foldl_addDistinct_of_pairwise h
  rw [distinct, List.foldl_append, hkept]
  exact subset_foldl_addDistinct es' _ hx

theorem exists_mem_foldl_addDistinct (hx : x ∈ es) :
    ∃ a ∈ es.foldl addDistinct kept, sameShape a x = true := by
  induction es generalizing kept with
  | nil => cases hx
  | cons e rest ih =>
    rcases List.mem_cons.mp hx with rfl | hx
    · suffices h : ∃ a ∈ addDistinct kept x, sameShape a x = true by
        obtain ⟨a, ha, hsame⟩ := h
        exact ⟨a, subset_foldl_addDistinct rest _ ha, hsame⟩
      unfold addDistinct
      split
      · exact List.any_eq_true.mp ‹_›
      · exact ⟨x, List.mem_append_right _ (List.mem_singleton_self x), sameShape_self x⟩
    · exact ih hx

/-- Of each shape one expression is kept. -/
theorem exists_mem_distinct (hx : x ∈ es) : ∃ a ∈ distinct es, sameShape a x = true :=
  exists_mem_foldl_addDistinct hx

/-- An expression offers another if one of its alternatives has that shape. -/
def Offers (u x : TypeExpr) : Prop := ∃ a ∈ alternatives u, sameShape a x = true

/-- **The alternatives of a union that is built from normal parts** are the kept ones of theirs. -/
theorem mem_alternatives_unionOf (h : ∀ e ∈ es, Normal e) :
    x ∈ alternatives (unionOf es) ↔ x ∈ distinct (es.flatMap alternatives) := by
  have hparts : ∀ a ∈ distinct (es.flatMap alternatives), alternatives a = [a] := by
    intro a ha
    obtain ⟨e, he, ha⟩ := List.mem_flatMap.mp (mem_of_mem_distinct ha)
    obtain ⟨hnever, hunion⟩ := ne_of_mem_alternatives (h e he) ha
    cases a with
    | union members => exact (hunion members rfl).elim
    | never => exact (hnever rfl).elim
    | primitive | literal | reference | operation | list | record | intersection | pick
    | withHeaders | unknown | void => rfl
  rw [unionOf]
  split
  · rename_i hd
    rw [hd]
    rfl
  · rename_i e hd
    rw [hd, hparts e (by simp [hd])]
  · rfl

end ApiTypes.TypeExpr
