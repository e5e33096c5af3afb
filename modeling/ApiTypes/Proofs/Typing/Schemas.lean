/-
# What the types of schemas look like

Whatever a schema says, its type is made of single values, references, lists, records of named
members, unions and intersections; nothing that stands for operations, for headers or for the
absence of a value is among them.

* `Typing.schematic_node` is the step by kinds of schemas, in mutual recursion with the lists of
  nested schemas; `Typing.schematic_schema` is what follows.
-/
import ApiTypes.Proofs.TypeExpr.Schematic
import ApiTypes.Proofs.Typing.Outcome
import ApiTypes.Typing.Schema

namespace ApiTypes.Typing

open TypeExpr

variable {env : Environment} {readonly : Bool}

/-! ## 1. Steps -/

/-- The items of a list are written out only if they are few. -/
theorem fits_boundsOf (config : Config) (least most : Option Nat) :
    (boundsOf config least most).Fits := by
  unfold boundsOf
  split
  · split
    · trivial
    · rename_i n
      split
      · trivial
      · rename_i hsmall
        have hfew : 1 ≤ n ∧ n ≤ maxTupleLength := by
          simp only [Bool.or_eq_true, decide_eq_true_eq] at hsmall
          omega
        split <;> exact hfew
  · trivial

theorem schematic_withNull {config : Config} {traits : Traits} {e : TypeExpr}
    (h : Obeys (Schematic readonly) e) :
    Obeys (Schematic readonly) (withNull config traits e) := by
  unfold withNull
  split
  · refine obeys_schematic_unionOf (List.forall_mem_cons.mpr ⟨h, ?_⟩)
    exact List.forall_mem_singleton.mpr ((obeys_leaf rfl).mpr trivial)
  · exact h

theorem schematic_ofScalar (k : ScalarKind) : Obeys (Schematic readonly) (ofScalar k) := by
  cases k <;> exact (obeys_leaf rfl).mpr trivial

theorem schematic_ofValue (v : Json) : Obeys (Schematic readonly) (ofValue v) := by
  cases v <;> exact (obeys_leaf rfl).mpr trivial

theorem schematic_arrange {config : Config} {d : Option Discriminator}
    {variants : List (Typing TypeExpr)}
    (hv : ∀ t ∈ variants, Ensures (Obeys (Schematic readonly)) t) (step : Nat × Option String) :
    Ensures (Obeys (Schematic readonly)) (arrange config d variants step) := by
  unfold arrange
  have hvariant : Ensures (Obeys (Schematic readonly)) (variants.getD step.1 (pure .never)) := by
    rw [List.getD_eq_getElem?_getD]
    cases hget : variants[step.1]? with
    | none => exact ensures_pure ((obeys_leaf rfl).mpr trivial)
    | some t => exact hv t (List.mem_of_getElem? hget)
  refine hvariant.bind fun variant h => ?_
  split
  · refine ensures_pure (obeys_schematic_intersectionOf (List.forall_mem_cons.mpr ⟨h, ?_⟩))
    -- The record of a tag has no further members, and does not say that they are read-only.
    refine List.forall_mem_singleton.mpr (obeys_schematic_record ?_ nofun nofun)
    exact List.forall_mem_singleton.mpr ⟨⟨_, rfl⟩, (obeys_leaf rfl).mpr trivial⟩
  · exact ensures_pure h

theorem schematic_alternatives {d : Option Discriminator} {members : List Schema}
    {variants : List (Typing TypeExpr)}
    (hv : ∀ t ∈ variants, Ensures (Obeys (Schematic readonly)) t) :
    Ensures (fun es => ∀ e ∈ es, Obeys (Schematic readonly) e)
      (Typing.alternatives env d members variants) := by
  unfold Typing.alternatives
  split
  · exact ensures_pure (List.forall_mem_nil _)
  · refine (Ensures.mapM fun step _ => schematic_arrange hv step).bind fun es hes => ?_
    exact ensures_pure (List.forall_mem_singleton.mpr (obeys_schematic_unionOf hes))

/-! ## 2. Schemas -/

mutual
/-- **What the type of a schema looks like.** -/
theorem schematic_node {depth : Nat} {p : Pointer} : ∀ s : Schema,
    Ensures (Obeys (Schematic env.config.immutableTypes)) (node env depth p s)
  | .reference target traits => by
    rw [node]
    exact (ensures_gives _).bind fun q _ => ensures_pure ((obeys_leaf rfl).mpr trivial)
  | .unknown traits => by
    rw [node]
    exact ensures_pure ((obeys_leaf rfl).mpr trivial)
  | .scalar kinds traits => by
    rw [node]
    refine ensures_pure (schematic_withNull (obeys_schematic_unionOf ?_))
    rw [List.forall_mem_map]
    exact fun k _ => schematic_ofScalar k
  | .enumerated values traits => by
    rw [node]
    refine ensures_pure (schematic_withNull (obeys_schematic_unionOf ?_))
    rw [List.forall_mem_map]
    exact fun v _ => schematic_ofValue v
  | .array none least most traits => by
    rw [node]
    refine ensures_pure (schematic_withNull (obeys_list_iff.mpr ⟨trivial, ?_⟩))
    exact (obeys_leaf rfl).mpr trivial
  | .array (some items) least most traits => by
    rw [node]
    refine (Ensures.within fun _ => schematic_node items).bind fun element he => ?_
    exact ensures_pure (schematic_withNull (obeys_list_iff.mpr ⟨fits_boundsOf _ _ _, he⟩))
  | .object properties required additional traits => by
    rw [node]
    refine (schematic_propertyList properties).bind fun members hm => ?_
    refine (schematic_additionalOf additional).bind fun catchAll hc => ?_
    exact ensures_pure (schematic_withNull (obeys_schematic_record hm hc id))
  | .composed allOf oneOf anyOf discriminator base traits => by
    rw [node]
    refine (Ensures.mapM fun t ht => schematic_nodes allOf t ht).bind fun all hall => ?_
    refine (schematic_alternatives (schematic_nodes oneOf)).bind fun one hone => ?_
    refine (schematic_alternatives (schematic_nodes anyOf)).bind fun any hany => ?_
    have hparts : ∀ e ∈ all ++ one ++ any, Obeys (Schematic env.config.immutableTypes) e := by
      simp only [List.forall_mem_append]
      exact ⟨⟨hall, hone⟩, hany⟩
    cases base with
    | none =>
      simp only [pure_bind, List.append_nil]
      exact ensures_pure (schematic_withNull (obeys_schematic_intersectionOf hparts))
    | some base =>
      simp only [pure_bind]
      refine (Ensures.within fun _ => schematic_node base).bind fun own hown => ?_
      refine ensures_pure (schematic_withNull (obeys_schematic_intersectionOf ?_))
      exact List.forall_mem_append.mpr ⟨hparts, List.forall_mem_singleton.mpr hown⟩

theorem schematic_nodes {depth : Nat} {p : Pointer} : ∀ (ss : List Schema) {i : Nat},
    ∀ t ∈ nodes env depth p i ss, Ensures (Obeys (Schematic env.config.immutableTypes)) t
  | [], _, t, ht => by
    rw [nodes] at ht
    cases ht
  | s :: rest, _, t, ht => by
    rw [nodes] at ht
    rcases List.mem_cons.mp ht with rfl | ht
    · exact .within fun _ => schematic_node s
    · exact schematic_nodes rest t ht

theorem schematic_propertyList {depth : Nat} {p : Pointer} {required : List String} :
    ∀ properties : List (String × Schema),
      Ensures (fun ms => ∀ m ∈ ms, (∃ name, m.key = .name name) ∧
          Obeys (Schematic env.config.immutableTypes) m.type)
        (propertyList env depth p required properties)
  | [] => by
    rw [propertyList]
    exact ensures_pure (List.forall_mem_nil _)
  | (name, s) :: rest => by
    rw [propertyList]
    refine (Ensures.within fun _ => schematic_node s).bind fun type ht => ?_
    refine (schematic_propertyList rest).bind fun ms hms => ?_
    exact ensures_pure (List.forall_mem_cons.mpr ⟨⟨⟨name, rfl⟩, ht⟩, hms⟩)

theorem schematic_additionalOf {depth : Nat} {p : Pointer} : ∀ additional : Additional Schema,
    Ensures (fun catchAll : Option TypeExpr =>
        ∀ e, catchAll = some e → Obeys (Schematic env.config.immutableTypes) e)
      (additionalOf env depth p additional)
  | .unsaid | .allowed _ => by
    rw [additionalOf]
    refine ensures_pure ?_
    split
    · exact fun e h => Option.some.inj h ▸ (obeys_leaf rfl).mpr trivial
    · exact nofun
  | .schema s => by
    rw [additionalOf]
    refine (Ensures.within fun _ => schematic_node s).bind fun type ht => ?_
    exact ensures_pure fun e h => Option.some.inj h ▸ ht
end

/-- **The type of a schema that stands at a pointer.** -/
theorem schematic_schema {depth : Nat} {p : Pointer} {s : Schema} :
    Ensures (Obeys (Schematic env.config.immutableTypes)) (schema env depth p s) :=
  .within fun _ => schematic_node s

end ApiTypes.Typing
