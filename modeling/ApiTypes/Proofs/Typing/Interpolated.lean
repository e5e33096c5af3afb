/-
# Types that stand in patterns

A parameter of a path stands in a pattern with its type if that is a single value other than null or
a union of such types, and as any text if it is not.

* `TypeExpr.Interpolated`: the types, and `PathTemplate.interpolable_iff`: they are recognised.
* `PathTemplate.interpolated_parameterType`: no other type stands in a pattern.
-/
import ApiTypes.Typing.PathTemplate

namespace ApiTypes

/-- Single values other than null, and unions of such: the types that can stand in patterns. -/
inductive TypeExpr.Interpolated : TypeExpr → Prop
  | primitive (p : Primitive) : Interpolated (.primitive p)
  | literal {l : Literal} (notNull : l ≠ .null) : Interpolated (.literal l)
  | union {es : List TypeExpr} (members : ∀ e ∈ es, Interpolated e) : Interpolated (.union es)

namespace PathTemplate

open TypeExpr (Interpolated)

mutual
theorem interpolated_of_interpolable (e : TypeExpr) (h : interpolable e = true) :
    Interpolated e := by
  cases e with
  | primitive p => exact .primitive p
  | literal l =>
    refine .literal ?_
    rintro rfl
    cases h
  | union es =>
    rw [interpolable] at h
    exact .union (interpolated_of_allInterpolable es h)
  | reference | operation | list | record | intersection | pick | withHeaders | never | unknown
  | void => exact absurd h (by simp [interpolable])

theorem interpolated_of_allInterpolable (es : List TypeExpr) (h : allInterpolable es = true) :
    ∀ e ∈ es, Interpolated e := by
  cases es with
  | nil => exact nofun
  | cons e rest =>
    simp only [allInterpolable, Bool.and_eq_true] at h
    exact List.forall_mem_cons.mpr
      ⟨interpolated_of_interpolable e h.1, interpolated_of_allInterpolable rest h.2⟩
end

theorem allInterpolable_eq_all (es : List TypeExpr) :
    allInterpolable es = es.all interpolable := by
  induction es with
  | nil => rfl
  | cons e es ih => rw [allInterpolable, ih, List.all_cons]

/-- **What can stand in a pattern is recognised.** -/
theorem interpolable_iff {e : TypeExpr} : interpolable e = true ↔ Interpolated e := by
  constructor
  · exact interpolated_of_interpolable e
  · intro h
    induction h with
    | primitive p => rfl
    | @literal l notNull =>
      cases l with
      | null => exact absurd rfl notNull
      | string | number | boolean => rfl
    | union members ih =>
      rw [interpolable, allInterpolable_eq_all, List.all_eq_true]
      exact ih

/-- **What a path puts into a pattern can stand there**, whatever is declared. -/
theorem interpolated_parameterType (declared : Option TypeExpr) :
    Interpolated (parameterType declared) := by
  unfold parameterType
  cases h : declared.filter interpolable with
  | none => exact .primitive .string
  | some e => exact interpolable_iff.mp (Option.filter_eq_some_iff.mp h).2

end PathTemplate

end ApiTypes
