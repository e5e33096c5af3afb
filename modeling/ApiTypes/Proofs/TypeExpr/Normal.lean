/-
# Normal forms of type expressions

Unions and intersections are put together by operations that open the ones of their own kind
among the parts, but only one level deep, and that look at shapes while they drop alternatives.
One level is enough where the parts have been built in the same way.

* `TypeExpr.sameShape_comm`: it does not matter which of two shapes is compared with the other.
* `TypeExpr.Normal` says what a union, an intersection and a choice of members look like.
* `TypeExpr.normal_union` and `TypeExpr.normal_intersection`: building from normal parts makes a
  normal whole.
-/
import ApiTypes.Proofs.TypeExpr.Parts
import Mathlib.Data.List.Basic

namespace ApiTypes

/-! ## 1. Comparing shapes -/

theorem Binary64.sameValue_symm {x y : Binary64} (h : x.sameValue y = true) :
    y.sameValue x = true := by
  obtain ⟨hm, hs⟩ := sameValue_iff.mp h
  exact sameValue_iff.mpr ⟨hm.symm, hs.imp Eq.symm hm.symm.trans⟩

theorem JsonNumber.sameValue_symm {m n : JsonNumber} (h : m.sameValue n = true) :
    n.sameValue m = true := by
  cases m <;> cases n <;> simp only [sameValue, decide_eq_true_eq] at h ⊢
  case int.int => exact h.symm
  case float.float => exact Binary64.sameValue_symm h
  all_goals exact absurd h (by simp)

theorem Literal.sameValue_symm {a b : Literal} (h : a.sameValue b = true) :
    b.sameValue a = true := by
  cases a <;> cases b <;> simp only [sameValue, decide_eq_true_eq] at h ⊢
  case number.number => exact JsonNumber.sameValue_symm h
  case string.string | boolean.boolean => exact h.symm
  all_goals exact absurd h (by simp)

namespace TypeExpr

mutual
theorem equal_symm (a b : TypeExpr) (h : equal a b = true) : equal b a = true := by
  cases a with
  | list a m r =>
    cases b with
    | list b n s =>
      simp only [equal, Bool.and_eq_true, decide_eq_true_eq] at h ⊢
      exact ⟨⟨h.1.1.symm, h.1.2.symm⟩, equal_symm a b h.2⟩
    | _ => exact absurd h (by simp [equal])
  | record r =>
    cases b with
    | record s =>
      rw [equal] at h ⊢
      exact equalRecord_symm r s h
    | _ => exact absurd h (by simp [equal])
  | union as =>
    cases b with
    | union bs =>
      rw [equal] at h ⊢
      exact equalAll_symm as bs h
    | _ => exact absurd h (by simp [equal])
  | intersection as =>
    cases b with
    | intersection bs =>
      rw [equal] at h ⊢
      exact equalAll_symm as bs h
    | _ => exact absurd h (by simp [equal])
  | withHeaders a h₁ =>
    cases b with
    | withHeaders b h₂ =>
      simp only [equal, Bool.and_eq_true] at h ⊢
      exact ⟨equal_symm a b h.1, equalRecord_symm h₁ h₂ h.2⟩
    | _ => exact absurd h (by simp [equal])
  | literal l =>
    cases b with
    | literal l' =>
      rw [equal] at h ⊢
      exact Literal.sameValue_symm h
    | _ => exact absurd h (by simp [equal])
  | primitive | reference | operation | pick | never | unknown | void =>
    cases b <;> simp_all [equal]

theorem equalAll_symm : ∀ as bs : List TypeExpr, equalAll as bs = true → equalAll bs as = true
  | [], [], _ => by rw [equalAll]
  | [], _ :: _, h => absurd h (by simp [equalAll])
  | _ :: _, [], h => absurd h (by simp [equalAll])
  | a :: as, b :: bs, h => by
    simp only [equalAll, Bool.and_eq_true] at h ⊢
    exact ⟨equal_symm a b h.1, equalAll_symm as bs h.2⟩

theorem equalRecord_symm : ∀ r s : Record TypeExpr, equalRecord r s = true →
    equalRecord s r = true
  | ⟨ms, c, _⟩, ⟨ns, d, _⟩, h => by
    simp only [equalRecord, Bool.and_eq_true, decide_eq_true_eq] at h ⊢
    exact ⟨⟨equalMembers_symm ms ns h.1.1, equalOption_symm c d h.1.2⟩, h.2.symm⟩

theorem equalOption_symm : ∀ c d : Option TypeExpr, equalOption c d = true →
    equalOption d c = true
  | none, none, _ => by rw [equalOption]
  | none, some _, h => absurd h (by simp [equalOption])
  | some _, none, h => absurd h (by simp [equalOption])
  | some c, some d, h => by
    rw [equalOption] at h ⊢
    exact equal_symm c d h

theorem equalMembers_symm : ∀ ms ns : List (Member TypeExpr), equalMembers ms ns = true →
    equalMembers ns ms = true
  | [], [], _ => by rw [equalMembers]
  | [], _ :: _, h => absurd h (by simp [equalMembers])
  | _ :: _, [], h => absurd h (by simp [equalMembers])
  | ⟨k, t, _, _, _⟩ :: ms, ⟨l, u, _, _, _⟩ :: ns, h => by
    simp only [equalMembers, equalMember, Bool.and_eq_true, decide_eq_true_eq] at h ⊢
    obtain ⟨⟨⟨⟨⟨hk, ht⟩, ho⟩, hr⟩, hd⟩, hms⟩ := h
    exact ⟨⟨⟨⟨⟨equalKey_symm k l hk, equal_symm t u ht⟩, ho.symm⟩, hr.symm⟩, hd.symm⟩,
      equalMembers_symm ms ns hms⟩

theorem equalKey_symm : ∀ k l : MemberKey TypeExpr, equalKey k l = true → equalKey l k = true
  | .name _, .name _, h => by
    simp only [equalKey, decide_eq_true_eq] at h ⊢
    exact h.symm
  | .name _, .template _, h => absurd h (by simp [equalKey])
  | .template _, .name _, h => absurd h (by simp [equalKey])
  | .template as, .template bs, h => by
    rw [equalKey] at h ⊢
    exact equalParts_symm as bs h

theorem equalParts_symm : ∀ as bs : List (TemplatePart TypeExpr), equalParts as bs = true →
    equalParts bs as = true
  | [], [], _ => by rw [equalParts]
  | [], _ :: _, h => absurd h (by simp [equalParts])
  | _ :: _, [], h => absurd h (by simp [equalParts])
  | .text _ :: as, .text _ :: bs, h => by
    simp only [equalParts, equalPart, Bool.and_eq_true, decide_eq_true_eq] at h ⊢
    exact ⟨h.1.symm, equalParts_symm as bs h.2⟩
  | .text _ :: _, .param _ :: _, h => absurd h (by simp [equalParts, equalPart])
  | .param _ :: _, .text _ :: _, h => absurd h (by simp [equalParts, equalPart])
  | .param a :: as, .param b :: bs, h => by
    simp only [equalParts, equalPart, Bool.and_eq_true] at h ⊢
    exact ⟨equal_symm a b h.1, equalParts_symm as bs h.2⟩
end

mutual
theorem sameShape_symm (a b : TypeExpr) (h : sameShape a b = true) : sameShape b a = true := by
  cases a with
  | list a m r =>
    cases b with
    | list b n s =>
      simp only [sameShape, Bool.and_eq_true, decide_eq_true_eq] at h ⊢
      exact ⟨⟨h.1.1.symm, h.1.2.symm⟩, sameShape_symm a b h.2⟩
    | _ => exact absurd h (by simp [sameShape, equal])
  | record r =>
    cases b with
    | record s =>
      rw [sameShape] at h ⊢
      exact sameRecord_symm r s h
    | _ => exact absurd h (by simp [sameShape, equal])
  | union as =>
    cases b with
    | union bs =>
      rw [sameShape] at h ⊢
      exact sameShapes_symm as bs h
    | _ => exact absurd h (by simp [sameShape, equal])
  | intersection as =>
    cases b with
    | intersection bs =>
      rw [sameShape] at h ⊢
      exact sameShapes_symm as bs h
    | _ => exact absurd h (by simp [sameShape, equal])
  | withHeaders a h₁ =>
    cases b with
    | withHeaders b h₂ =>
      simp only [sameShape, Bool.and_eq_true] at h ⊢
      exact ⟨sameShape_symm a b h.1, sameRecord_symm h₁ h₂ h.2⟩
    | _ => exact absurd h (by simp [sameShape, equal])
  | primitive | literal | reference | operation | pick | never | unknown | void =>
    -- Expressions without parts that are compared by shape have one only if they are equal.
    cases b <;> simp only [sameShape] at h ⊢ <;> exact equal_symm _ _ h

theorem sameShapes_symm : ∀ as bs : List TypeExpr, sameShapes as bs = true →
    sameShapes bs as = true
  | [], [], _ => by rw [sameShapes]
  | [], _ :: _, h => absurd h (by simp [sameShapes])
  | _ :: _, [], h => absurd h (by simp [sameShapes])
  | a :: as, b :: bs, h => by
    simp only [sameShapes, Bool.and_eq_true] at h ⊢
    exact ⟨sameShape_symm a b h.1, sameShapes_symm as bs h.2⟩

theorem sameRecord_symm : ∀ r s : Record TypeExpr, sameRecord r s = true → sameRecord s r = true
  | ⟨ms, c, _⟩, ⟨ns, d, _⟩, h => by
    simp only [sameRecord, Bool.and_eq_true, decide_eq_true_eq] at h ⊢
    exact ⟨⟨sameMembers_symm ms ns h.1.1, sameOption_symm c d h.1.2⟩, h.2.symm⟩

theorem sameOption_symm : ∀ c d : Option TypeExpr, sameOption c d = true → sameOption d c = true
  | none, none, _ => by rw [sameOption]
  | none, some _, h => absurd h (by simp [sameOption])
  | some _, none, h => absurd h (by simp [sameOption])
  | some c, some d, h => by
    rw [sameOption] at h ⊢
    exact sameShape_symm c d h

theorem sameMembers_symm : ∀ ms ns : List (Member TypeExpr), sameMembers ms ns = true →
    sameMembers ns ms = true
  | [], [], _ => by rw [sameMembers]
  | [], _ :: _, h => absurd h (by simp [sameMembers])
  | _ :: _, [], h => absurd h (by simp [sameMembers])
  | ⟨k, t, _, _, _⟩ :: ms, ⟨l, u, _, _, _⟩ :: ns, h => by
    simp only [sameMembers, sameMember, Bool.and_eq_true, decide_eq_true_eq] at h ⊢
    obtain ⟨⟨⟨⟨hk, ht⟩, ho⟩, hr⟩, hms⟩ := h
    exact ⟨⟨⟨⟨equalKey_symm k l hk, sameShape_symm t u ht⟩, ho.symm⟩, hr.symm⟩,
      sameMembers_symm ms ns hms⟩
end

/-- **Either of two shapes may be compared with the other.** -/
theorem sameShape_comm (a b : TypeExpr) : sameShape a b = sameShape b a :=
  Bool.eq_iff_iff.mpr ⟨sameShape_symm a b, sameShape_symm b a⟩

/-! ## 2. Normal expressions -/

/-- No two expressions of a list have one shape. -/
def DistinctShapes (es : List TypeExpr) : Prop :=
  ∀ i j : Fin es.length, i ≠ j → sameShape es[i] es[j] = false

/-- **The normal form of an expression**, its parts left aside: a union has several alternatives of
different shapes, none of them empty or a union itself; an intersection has several constituents,
none of them an intersection itself; and at least one member is picked from a collection, none of
them twice. -/
def Normal : TypeExpr → Prop
  | union members =>
    2 ≤ members.length ∧ (∀ e ∈ members, e ≠ never ∧ ∀ es, e ≠ union es) ∧ DistinctShapes members
  | intersection members => 2 ≤ members.length ∧ ∀ e ∈ members, ∀ es, e ≠ intersection es
  | pick _ keys => keys ≠ [] ∧ keys.Nodup
  | _ => True

/-! ## 3. Building -/

theorem pairwise_addDistinct {kept : List TypeExpr} {e : TypeExpr}
    (h : kept.Pairwise fun a b => sameShape a b = false) :
    (addDistinct kept e).Pairwise fun a b => sameShape a b = false := by
  unfold addDistinct
  split
  · exact h
  · rename_i hany
    refine List.pairwise_append.mpr ⟨h, List.pairwise_singleton _ _, fun a ha b hb => ?_⟩
    rw [List.mem_singleton.mp hb, Bool.eq_false_iff]
    exact fun hsame => hany (List.any_eq_true.mpr ⟨a, ha, hsame⟩)

theorem pairwise_distinct (es : List TypeExpr) :
    (distinct es).Pairwise fun a b => sameShape a b = false := by
  suffices ∀ kept : List TypeExpr, (kept.Pairwise fun a b => sameShape a b = false) →
      (es.foldl addDistinct kept).Pairwise fun a b => sameShape a b = false from this [] .nil
  induction es with
  | nil => exact fun kept h => h
  | cons e rest ih => exact fun kept h => ih _ (pairwise_addDistinct h)

/-- An alternative is compared with those before it only, which is enough. -/
theorem distinctShapes_distinct (es : List TypeExpr) : DistinctShapes (distinct es) := by
  have h := List.pairwise_iff_getElem.mp (pairwise_distinct es)
  intro i j hij
  rcases Nat.lt_or_gt_of_ne (Fin.val_ne_of_ne hij) with hlt | hlt
  · exact h i j i.2 j.2 hlt
  · rw [sameShape_comm]
    exact h j i j.2 i.2 hlt

/-- What a normal expression contributes to a union is not empty and no union. -/
theorem ne_of_mem_alternatives {e a : TypeExpr} (h : Normal e) (ha : a ∈ alternatives e) :
    a ≠ never ∧ ∀ es, a ≠ union es := by
  cases e with
  | union members => exact h.2.1 a ha
  | never => cases ha
  | primitive | literal | reference | operation | list | record | intersection | pick
  | withHeaders | unknown | void =>
    rw [List.mem_singleton.mp ha]
    exact ⟨nofun, nofun⟩

theorem ne_of_mem_constituents {e c : TypeExpr} (h : Normal e) (hc : c ∈ constituents e) :
    ∀ es, c ≠ intersection es := by
  cases e with
  | intersection members => exact h.2 c hc
  | primitive | literal | reference | operation | list | record | union | pick | withHeaders
  | never | unknown | void =>
    rw [List.mem_singleton.mp hc]
    exact nofun

/-- **A union that is built from normal expressions is normal.** -/
theorem normal_union {es members : List TypeExpr} (h : ∀ e ∈ es, Normal e)
    (hd : distinct (es.flatMap alternatives) = members) (hlength : 2 ≤ members.length) :
    Normal (union members) := by
  subst hd
  refine ⟨hlength, fun a ha => ?_, distinctShapes_distinct _⟩
  obtain ⟨e, he, ha⟩ := List.mem_flatMap.mp (mem_of_mem_distinct ha)
  exact ne_of_mem_alternatives (h e he) ha

/-- **An intersection that is built from normal expressions is normal.** -/
theorem normal_intersection {es members : List TypeExpr} (h : ∀ e ∈ es, Normal e)
    (hd : es.flatMap constituents = members) (hlength : 2 ≤ members.length) :
    Normal (intersection members) := by
  subst hd
  refine ⟨hlength, fun c hc => ?_⟩
  obtain ⟨e, he, hc⟩ := List.mem_flatMap.mp hc
  exact ne_of_mem_constituents (h e he) hc

end TypeExpr

end ApiTypes
