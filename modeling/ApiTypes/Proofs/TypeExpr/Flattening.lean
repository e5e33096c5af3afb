/-
# Building in steps

A union opens the unions among its parts and an intersection the intersections, one level deep,
and of the alternatives of a union the first of each shape is kept.  So it does not matter whether
some of the parts have been put together before, as long as they are flat themselves.

* `TypeExpr.Flat`: no union directly in a union, and no intersection directly in an intersection.
* `TypeExpr.foldl_addDistinct_distinct`: alternatives may be thinned out before they are added.
* `TypeExpr.firsts` is the first of each shape, and `TypeExpr.distinct_eq_firsts`: it is kept.
* `TypeExpr.building_laws`: unions and intersections can be built in steps.
-/
import ApiTypes.Proofs.TypeExpr.Alternatives
import ApiTypes.Proofs.TypeExpr.Shapes
import Mathlib.Data.List.Induction

namespace ApiTypes.TypeExpr

variable {es es' kept xs ys zs : List TypeExpr} {e x : TypeExpr}

/-! ## 1. Keeping one of each shape -/

/-- What has the shape of something kept is not added. -/
theorem addDistinct_of_mem {a : TypeExpr} (ha : a ∈ kept) (h : sameShape a e = true) :
    addDistinct kept e = kept :=
  if_pos (List.any_eq_true.mpr ⟨a, ha, h⟩)

theorem foldl_addDistinct_of_covered
    (h : ∀ e ∈ es, ∃ a ∈ kept, sameShape a e = true) : es.foldl addDistinct kept = kept := by
  induction es with
  | nil => rfl
  | cons e rest ih =>
    obtain ⟨a, ha, hsame⟩ := h e List.mem_cons_self
    rw [List.foldl_cons, addDistinct_of_mem ha hsame]
    exact ih fun x hx => h x (List.mem_cons_of_mem _ hx)

theorem distinct_concat (es : List TypeExpr) (e : TypeExpr) :
    distinct (es ++ [e]) = addDistinct (distinct es) e := by
  rw [distinct, List.foldl_append, List.foldl_cons, List.foldl_nil, distinct]

/-- **Alternatives may be thinned out before they are added**: what stands for the others of its
shape among them does so, by transitivity, among all that is kept. -/
theorem foldl_addDistinct_distinct (es kept : List TypeExpr) :
    (distinct es).foldl addDistinct kept = es.foldl addDistinct kept := by
  induction es using List.reverseRecOn with
  | nil => rfl
  | append_singleton es e ih =>
    rw [distinct_concat, List.foldl_append, List.foldl_cons, List.foldl_nil, ← ih]
    by_cases hany : (distinct es).any (sameShape · e) = true
    · obtain ⟨a, ha, hsame⟩ := List.any_eq_true.mp hany
      obtain ⟨b, hb, hba⟩ : ∃ b ∈ (distinct es).foldl addDistinct kept, sameShape b a = true :=
        exists_mem_foldl_addDistinct ha
      rw [addDistinct_of_mem ha hsame, addDistinct_of_mem hb (sameShape_trans hba hsame)]
    · rw [addDistinct, if_neg hany, List.foldl_append, List.foldl_cons, List.foldl_nil]

theorem distinct_append_distinct_append (as bs cs : List TypeExpr) :
    distinct (as ++ distinct bs ++ cs) = distinct (as ++ bs ++ cs) := by
  simp only [distinct, List.foldl_append]
  exact congrArg (List.foldl addDistinct · cs) (foldl_addDistinct_distinct bs _)

theorem distinct_append_self (es : List TypeExpr) : distinct (es ++ es) = distinct es := by
  rw [distinct, List.foldl_append]
  exact foldl_addDistinct_of_covered fun e he => exists_mem_distinct he

/-- **The first of each shape**, in order: those that no earlier one has the shape of. -/
def firsts (es : List TypeExpr) : List TypeExpr :=
  (es.zipIdx.filter fun (e, i) => (es.take i).all fun a => !sameShape a e).map Prod.fst

theorem firsts_concat (es : List TypeExpr) (e : TypeExpr) :
    firsts (es ++ [e]) = firsts es ++ if es.any (sameShape · e) then [] else [e] := by
  have hbefore : es.zipIdx.filter (fun p => ((es ++ [e]).take p.2).all fun a => !sameShape a p.1)
      = es.zipIdx.filter fun p => (es.take p.2).all fun a => !sameShape a p.1 := by
    refine List.filter_congr fun p hp => ?_
    have hlt : p.2 < es.length := by
      have := (List.mem_zipIdx hp).2.1
      omega
    rw [List.take_append_of_le_length (Nat.le_of_lt hlt)]
  rw [firsts, List.zipIdx_append, List.filter_append, List.map_append, hbefore]
  refine congrArg (firsts es ++ ·) ?_
  by_cases h : es.any (sameShape · e) = true
  · simp_all
  · simp_all

/-- **What is kept is the first of each shape.** -/
theorem distinct_eq_firsts (es : List TypeExpr) : distinct es = firsts es := by
  induction es using List.reverseRecOn with
  | nil => rfl
  | append_singleton es e ih =>
    -- A shape that is there at all is there among what is kept.
    have hany : (distinct es).any (sameShape · e) = es.any (sameShape · e) := by
      rw [Bool.eq_iff_iff, List.any_eq_true, List.any_eq_true]
      constructor
      · rintro ⟨a, ha, hsame⟩
        exact ⟨a, mem_of_mem_distinct ha, hsame⟩
      · rintro ⟨a, ha, hsame⟩
        obtain ⟨b, hb, hba⟩ := exists_mem_distinct ha
        exact ⟨b, hb, sameShape_trans hba hsame⟩
    rw [distinct_concat, firsts_concat, addDistinct, hany, ih]
    split
    · rw [List.append_nil]
    · rfl

/-- Of each shape exactly one is kept. -/
theorem countP_distinct (hx : x ∈ es) : (distinct es).countP (sameShape · x) = 1 := by
  obtain ⟨a, ha, hax⟩ := exists_mem_distinct hx
  obtain ⟨before, after, hsplit⟩ := List.append_of_mem ha
  have hpairs := pairwise_distinct es
  rw [hsplit] at hpairs ⊢
  obtain ⟨_, hafter, hbefore⟩ := List.pairwise_append.mp hpairs
  -- Another one of that shape would have the shape of `a`.
  have hb : before.countP (sameShape · x) = 0 := by
    refine List.countP_eq_zero.mpr fun b hb hbx => ?_
    have hba := sameShape_trans hbx (sameShape_symm _ _ hax)
    rw [hbefore b hb a List.mem_cons_self] at hba
    cases hba
  have hc : after.countP (sameShape · x) = 0 := by
    refine List.countP_eq_zero.mpr fun c hc hcx => ?_
    have hac := sameShape_trans hax (sameShape_symm _ _ hcx)
    rw [(List.pairwise_cons.mp hafter).1 c hc] at hac
    cases hac
  rw [List.countP_append, List.countP_cons, hb, hc, hax]
  rfl

/-! ## 2. Flat parts -/

/-- **An expression is flat**, its parts left aside: a union holds neither unions nor the empty
type directly, and an intersection no intersections. -/
def Flat : TypeExpr → Prop
  | union members => ∀ m ∈ members, m ≠ never ∧ ∀ ms, m ≠ union ms
  | intersection members => ∀ m ∈ members, ∀ ms, m ≠ intersection ms
  | _ => True

theorem Flat.alternatives (h : Flat e) :
    ∀ a ∈ e.alternatives, a ≠ never ∧ ∀ ms, a ≠ union ms := by
  intro a ha
  cases e with
  | union members => exact h a ha
  | never => cases ha
  | primitive | literal | reference | operation | list | record | intersection | pick
  | withHeaders | unknown | void =>
    rw [List.mem_singleton.mp ha]
    exact ⟨nofun, nofun⟩

theorem Flat.constituents (h : Flat e) : ∀ c ∈ e.constituents, ∀ ms, c ≠ intersection ms := by
  intro c hc
  cases e with
  | intersection members => exact h c hc
  | primitive | literal | reference | operation | list | record | union | pick | withHeaders
  | never | unknown | void =>
    rw [List.mem_singleton.mp hc]
    exact nofun

theorem alternatives_of_ne (h : e ≠ never ∧ ∀ ms, e ≠ union ms) : alternatives e = [e] := by
  cases e with
  | union members => exact (h.2 members rfl).elim
  | never => exact (h.1 rfl).elim
  | primitive | literal | reference | operation | list | record | intersection | pick
  | withHeaders | unknown | void => rfl

theorem constituents_of_ne (h : ∀ ms, e ≠ intersection ms) : constituents e = [e] := by
  cases e with
  | intersection members => exact (h members rfl).elim
  | primitive | literal | reference | operation | list | record | union | pick | withHeaders
  | never | unknown | void => rfl

/-- A union has the alternatives that are kept, if one that is kept alone is no union itself. -/
theorem alternatives_unionOf_eq
    (h : ∀ a, distinct (es.flatMap alternatives) = [a] → a ≠ never ∧ ∀ ms, a ≠ union ms) :
    alternatives (unionOf es) = distinct (es.flatMap alternatives) := by
  rw [unionOf]
  split
  · rename_i hd
    rw [hd]
    rfl
  · rename_i a hd
    rw [hd, alternatives_of_ne (h a hd)]
  · rfl

theorem alternatives_unionOf_of_flat (h : ∀ e ∈ es, Flat e) :
    alternatives (unionOf es) = distinct (es.flatMap alternatives) := by
  refine alternatives_unionOf_eq fun a hd => ?_
  obtain ⟨e, he, ha⟩ := List.mem_flatMap.mp (mem_of_mem_distinct (hd ▸ List.mem_singleton_self a))
  exact (h e he).alternatives a ha

/-- Null has no other expression of its shape. -/
theorem eq_null_of_sameShape {a : TypeExpr} (h : sameShape a null = true) : a = null := by
  cases a with
  | literal l => cases l <;> simp_all [null, sameShape, equal, Literal.sameValue]
  | primitive | reference | operation | list | record | union | intersection | pick | withHeaders
  | never | unknown | void => exact absurd h (by simp [null, sameShape, equal])

/-- Null is added, or an alternative is kept that has its shape. -/
theorem exists_kept_null (e : TypeExpr) :
    ∃ a ∈ distinct (alternatives e ++ [null]), sameShape a null = true :=
  exists_mem_distinct (List.mem_append_right _ (List.mem_singleton_self null))

theorem alternatives_orNull (e : TypeExpr) :
    alternatives (orNull e) = distinct (alternatives e ++ [null]) := by
  have hflat : [e, null].flatMap alternatives = alternatives e ++ [null] := rfl
  rw [orNull, alternatives_unionOf_eq, hflat]
  rw [hflat]
  intro a hd
  -- An alternative that is kept alone stands for null.
  obtain ⟨b, hb, hsame⟩ := exists_kept_null e
  rw [hd] at hb
  rw [List.mem_singleton.mp hb] at hsame
  rw [eq_null_of_sameShape hsame]
  simp [null]

theorem constituents_intersectionOf_of_flat (h : ∀ e ∈ es, Flat e)
    (hsome : ∃ e ∈ es, e ≠ intersection []) :
    constituents (intersectionOf es) = es.flatMap constituents := by
  rw [intersectionOf]
  split
  · rename_i hd
    obtain ⟨e, he, hne⟩ := hsome
    have hnil := List.flatMap_eq_nil_iff.mp hd e he
    cases e with
    | intersection members => exact (hne (congrArg intersection hnil)).elim
    | primitive | literal | reference | operation | list | record | union | pick | withHeaders
    | never | unknown | void => cases hnil
  · rename_i c hd
    obtain ⟨e, he, hc⟩ := List.mem_flatMap.mp (hd ▸ List.mem_singleton_self c)
    rw [hd, constituents_of_ne ((h e he).constituents c hc)]
  · rfl

/-! ## 3. Building in steps -/

theorem unionOf_congr
    (h : distinct (es.flatMap alternatives) = distinct (es'.flatMap alternatives)) :
    unionOf es = unionOf es' := by
  rw [unionOf, h, unionOf]

theorem intersectionOf_congr (h : es.flatMap constituents = es'.flatMap constituents) :
    intersectionOf es = intersectionOf es' := by
  rw [intersectionOf, h, intersectionOf]

/-- **Unions and intersections can be built in steps** from flat parts: some of the alternatives
can be united before the others, and some of the constituents if they are more than empty
intersections; a part that comes again adds nothing, nor does null.  The alternatives of a union
are the first of each shape among those of the parts, and each of these has exactly one of them
to stand for it. -/
theorem building_laws (h : ∀ e ∈ xs ++ ys ++ zs, Flat e) :
    unionOf (xs ++ [unionOf ys] ++ zs) = unionOf (xs ++ ys ++ zs) ∧
    unionOf (xs ++ xs) = unionOf xs ∧
    (∀ e, orNull (orNull e) = orNull e) ∧
    ((∃ y ∈ ys, y ≠ intersection []) →
      intersectionOf (xs ++ [intersectionOf ys] ++ zs) = intersectionOf (xs ++ ys ++ zs)) ∧
    alternatives (unionOf xs) = firsts (xs.flatMap alternatives) ∧
    ∀ a ∈ xs.flatMap alternatives, (a ≠ never ∧ ∀ ms, a ≠ union ms) ∧
      (alternatives (unionOf xs)).countP (sameShape · a) = 1 := by
  have hxs : ∀ e ∈ xs, Flat e := fun e he => h e (by simp [he])
  have hys : ∀ e ∈ ys, Flat e := fun e he => h e (by simp [he])
  refine ⟨?_, ?_, fun e => ?_, fun hsome => ?_, ?_, fun a ha => ⟨?_, ?_⟩⟩
  · refine unionOf_congr ?_
    simp only [List.flatMap_append, List.flatMap_cons, List.flatMap_nil, List.append_nil,
      alternatives_unionOf_of_flat hys]
    exact distinct_append_distinct_append _ _ _
  · refine unionOf_congr ?_
    rw [List.flatMap_append, distinct_append_self]
  · -- The second null has the shape of one that is kept.
    refine unionOf_congr ?_
    simp only [List.flatMap_cons, List.flatMap_nil, List.append_nil, alternatives_orNull]
    rw [show alternatives null = [null] from rfl, distinct_concat, distinct,
      foldl_addDistinct_distinct]
    obtain ⟨a, ha, hsame⟩ := exists_kept_null e
    exact addDistinct_of_mem ha hsame
  · refine intersectionOf_congr ?_
    simp only [List.flatMap_append, List.flatMap_cons, List.flatMap_nil, List.append_nil,
      constituents_intersectionOf_of_flat hys hsome]
  · rw [alternatives_unionOf_of_flat hxs, distinct_eq_firsts]
  · obtain ⟨e, he, ha⟩ := List.mem_flatMap.mp ha
    exact (hxs e he).alternatives a ha
  · rw [alternatives_unionOf_of_flat hxs]
    exact countP_distinct ha

/-- A part that is a union, and parts that come twice. -/
theorem building_laws_strings :
    let string := primitive .string
    let choice := union [string, null]
    unionOf ([string] ++ [unionOf [choice, string]] ++ [choice])
        = unionOf ([string] ++ [choice, string] ++ [choice]) ∧
      intersectionOf ([string] ++ [intersectionOf [choice, string]] ++ [choice])
        = intersectionOf ([string] ++ [choice, string] ++ [choice]) := by
  intro string choice
  have hflat : ∀ e ∈ [string] ++ [choice, string] ++ [choice], Flat e := by
    simp [string, choice, Flat, null]
  obtain ⟨hunion, _, _, hintersection, _⟩ :=
    @building_laws [string] [choice, string] [choice] hflat
  exact ⟨hunion, hintersection ⟨string, by simp, by simp [string]⟩⟩

/-- **Empty intersections cannot be put together first**: nothing in particular is an unknown
value, which stays in the intersection around it. -/
theorem intersectionOf_empty_first :
    (∀ e ∈ [primitive .string] ++ [intersection []] ++ [], Obeys Flat e) ∧
    [intersection []] ≠ [] ∧
    intersectionOf ([primitive .string] ++ [intersectionOf [intersection []]] ++ [])
      ≠ intersectionOf ([primitive .string] ++ [intersection []] ++ []) := by
  refine ⟨?_, List.cons_ne_nil _ _, ?_⟩
  · simp [Obeys, parts, listParts, Flat]
  · simp [intersectionOf, constituents]

end ApiTypes.TypeExpr
