/-
# What the options do to the values of a type

Some options change the shape of the types of schemas.  Each of them either drops values or keeps
them all: it never trades some for others.  No option decides whether a schema has a type.

* `Config.Narrower c c'`: the options of `c` leave no value that those of `c'` drop.
* `Typing.narrower_node` is the step by kinds of schemas, in mutual recursion with the lists of
  nested schemas; `Typing.narrower_schema` is what follows for a schema that stands at a pointer.
* `Typing.narrower_switches`: what each of the options does.
-/
import ApiTypes.Proofs.Typing.Parallel
import ApiTypes.Proofs.TypeExpr.Narrower
import ApiTypes.Typing.Schema

namespace ApiTypes

/-! ## 1. Options -/

/-- **The options leave no value that others drop**, and let schemas be nested as deep.  Marks and
orders of siblings are not mentioned, so they may differ. -/
structure Config.Narrower (c c' : Config) : Prop where
  maxDepth : c.maxDepth = c'.maxDepth
  additionalProperties : c.additionalProperties = true → c'.additionalProperties = true
  defaultNonNullable : c'.defaultNonNullable = true → c.defaultNonNullable = true
  supportArrayLength : c'.supportArrayLength = true → c.supportArrayLength = true

namespace Typing

open TypeExpr

variable {c c' : Config}

/-- Without the option no list is bounded. -/
theorem narrower_boundsOf (h : c.Narrower c') (least most : Option Nat) :
    (boundsOf c least most).Narrower (boundsOf c' least most) := by
  by_cases hc' : c'.supportArrayLength = true
  · have hc : c.supportArrayLength = true := h.supportArrayLength hc'
    unfold boundsOf
    rw [if_pos hc, if_pos hc']
    exact fun _ hlength => hlength
  · unfold boundsOf
    rw [if_neg hc']
    exact fun _ _ => trivial

/-- With the option, null is added in fewer cases. -/
theorem narrower_withNull (h : c.Narrower c') (traits : Traits) {e e' : TypeExpr}
    (he : Narrower e e') : Narrower (withNull c traits e) (withNull c' traits e') := by
  unfold withNull
  by_cases hc : (traits.nullable && !(c.defaultNonNullable && traits.default.isSome)) = true
  · have hc' : (traits.nullable && !(c'.defaultNonNullable && traits.default.isSome)) = true := by
      have himp := h.defaultNonNullable
      grind
    rw [if_pos hc, if_pos hc']
    exact he.orNull
  · rw [if_neg hc]
    split
    · exact he.trans (narrower_orNull e')
    · exact he

theorem narrower_withTag (property tag : String) {e e' : TypeExpr} (he : Narrower e e') :
    Narrower (withTag c property tag e) (withTag c' property tag e') := by
  have hmember : NarrowerMember
      (.of property (.literal (.string tag)) false c.immutableTypes)
      (.of property (.literal (.string tag)) false c'.immutableTypes) :=
    ⟨rfl, rfl, .refl _⟩
  exact .intersectionOf (.cons he (.cons (.record (.cons hmember .nil) .closed _ _) .nil))

/-! ## 2. Alternatives -/

variable {resolver : Resolver}

theorem narrower_arrange (d : Option Discriminator) {ts us : List (Typing TypeExpr)}
    (h : List.Forall₂ (Parallel Narrower) ts us) (step : Nat × Option String) :
    Parallel Narrower (arrange c d ts step) (arrange c' d us step) := by
  unfold arrange
  refine (Parallel.getD (Narrower.refl never) step.1 h).bind fun e e' he => ?_
  split
  · exact parallel_pure (narrower_withTag _ _ he)
  · exact parallel_pure he

theorem narrower_alternatives {d : Option Discriminator} {members : List Schema}
    {ts us : List (Typing TypeExpr)} (h : List.Forall₂ (Parallel Narrower) ts us) :
    Parallel (List.Forall₂ Narrower) (alternatives ⟨c, resolver⟩ d members ts)
      (alternatives ⟨c', resolver⟩ d members us) := by
  unfold alternatives
  split
  · exact parallel_pure .nil
  · refine (Parallel.mapM_same fun step _ => narrower_arrange d h step).bind fun es es' hes => ?_
    exact parallel_pure (.cons (.unionOf hes) .nil)

/-! ## 3. Schemas -/

mutual
/-- **Narrower options give a narrower type**, and a schema has one if it has the other. -/
theorem narrower_node (h : c.Narrower c') {depth : Nat} {p : Pointer} : ∀ s : Schema,
    Parallel Narrower (node ⟨c, resolver⟩ depth p s) (node ⟨c', resolver⟩ depth p s)
  | .reference target traits => by
    rw [node, node]
    refine (Parallel.refl (reference ⟨c, resolver⟩ target p)).bind fun q _ hq => ?_
    exact parallel_pure (hq ▸ Narrower.refl _)
  | .unknown traits => by
    rw [node, node]
    exact parallel_pure (.refl _)
  | .scalar kinds traits => by
    rw [node, node]
    exact parallel_pure (narrower_withNull h traits (.refl _))
  | .enumerated values traits => by
    rw [node, node]
    exact parallel_pure (narrower_withNull h traits (.refl _))
  | .array none least most traits => by
    rw [node, node]
    exact parallel_pure (narrower_withNull h traits (.list (.refl _) (fun _ hn => hn) _ _))
  | .array (some items) least most traits => by
    rw [node, node]
    refine (Parallel.withinBoth h.maxDepth fun _ => narrower_node h items).bind fun e e' he => ?_
    exact parallel_pure (narrower_withNull h traits (he.list (narrower_boundsOf h _ _) _ _))
  | .object properties required additional traits => by
    rw [node, node]
    refine (narrower_propertyList h properties).bind fun ms ms' hms => ?_
    refine (narrower_additionalOf h additional).bind fun catchAll catchAll' hc => ?_
    exact parallel_pure (narrower_withNull h traits (.record hms hc _ _))
  | .composed allOf oneOf anyOf discriminator base traits => by
    rw [node, node]
    refine (Parallel.mapM (narrower_nodes h allOf)).bind fun all all' hall => ?_
    refine (narrower_alternatives (narrower_nodes h oneOf)).bind fun one one' hone => ?_
    refine (narrower_alternatives (narrower_nodes h anyOf)).bind fun any any' hany => ?_
    have hparts := List.rel_append (List.rel_append hall hone) hany
    cases base with
    | none =>
      simp only [pure_bind, List.append_nil]
      exact parallel_pure (narrower_withNull h traits (.intersectionOf hparts))
    | some base =>
      simp only [pure_bind]
      refine (Parallel.withinBoth h.maxDepth fun _ => narrower_node h base).bind
        fun own own' hown => ?_
      have hparts' := List.rel_append hparts (List.Forall₂.cons hown .nil)
      exact parallel_pure (narrower_withNull h traits (.intersectionOf hparts'))

theorem narrower_nodes (h : c.Narrower c') {depth : Nat} {p : Pointer} : ∀ (ss : List Schema)
    {i : Nat}, List.Forall₂ (Parallel Narrower) (nodes ⟨c, resolver⟩ depth p i ss)
      (nodes ⟨c', resolver⟩ depth p i ss)
  | [], _ => by
    rw [nodes, nodes]
    exact .nil
  | s :: rest, _ => by
    rw [nodes, nodes]
    exact .cons (.withinBoth h.maxDepth fun _ => narrower_node h s) (narrower_nodes h rest)

theorem narrower_propertyList (h : c.Narrower c') {depth : Nat} {p : Pointer}
    {required : List String} : ∀ properties : List (String × Schema),
      Parallel (List.Forall₂ NarrowerMember)
        (propertyList ⟨c, resolver⟩ depth p required properties)
        (propertyList ⟨c', resolver⟩ depth p required properties)
  | [] => by
    rw [propertyList, propertyList]
    exact parallel_pure .nil
  | (name, s) :: rest => by
    rw [propertyList, propertyList]
    refine (Parallel.withinBoth h.maxDepth fun _ => narrower_node h s).bind fun e e' he => ?_
    refine (narrower_propertyList h rest).bind fun ms ms' hms => ?_
    exact parallel_pure (.cons ⟨rfl, rfl, he⟩ hms)

theorem narrower_additionalOf (h : c.Narrower c') {depth : Nat} {p : Pointer} :
    ∀ additional : Additional Schema,
      Parallel NarrowerOthers (additionalOf ⟨c, resolver⟩ depth p additional)
        (additionalOf ⟨c', resolver⟩ depth p additional)
  | .unsaid => by
    rw [additionalOf, additionalOf]
    refine parallel_pure ?_
    have himp := h.additionalProperties
    cases hc : c.additionalProperties <;> cases hc' : c'.additionalProperties
    · exact .closed
    · exact .opened
    · rw [hc, hc'] at himp
      exact absurd (himp rfl) (by decide)
    · exact .typed (.refl _)
  | .allowed true => by
    rw [additionalOf, additionalOf]
    exact parallel_pure (.typed (.refl _))
  | .allowed false => by
    rw [additionalOf, additionalOf]
    exact parallel_pure .closed
  | .schema s => by
    rw [additionalOf, additionalOf]
    refine (Parallel.withinBoth h.maxDepth fun _ => narrower_node h s).bind fun e e' he => ?_
    exact parallel_pure (.typed he)
end

theorem narrower_schema (h : c.Narrower c') {depth : Nat} {p : Pointer} (s : Schema) :
    Parallel Narrower (schema ⟨c, resolver⟩ depth p s) (schema ⟨c', resolver⟩ depth p s) :=
  .withinBoth h.maxDepth fun _ => narrower_node h s

/-- Options that are narrower both ways give types with the same values. -/
theorem sameValues_schema (h : c.Narrower c') (h' : c'.Narrower c) {depth : Nat} {p : Pointer}
    (s : Schema) :
    Parallel SameValues (schema ⟨c, resolver⟩ depth p s) (schema ⟨c', resolver⟩ depth p s) :=
  (narrower_schema h s).both (narrower_schema h' s)

/-! ## 4. Single options -/

/-- **What each option does to the type of a schema.**  Runs that differ in one option fail with one
fault or give two types.  Tuples and types without null for what has a default drop values, further
members add values, and read-only marks and the order of siblings change none. -/
theorem narrower_switches (config : Config) (resolver : Resolver) (depth : Nat) (p : Pointer)
    (s : Schema) :
    Parallel Narrower (schema ⟨{ config with supportArrayLength := true }, resolver⟩ depth p s)
        (schema ⟨{ config with supportArrayLength := false }, resolver⟩ depth p s) ∧
      Parallel Narrower (schema ⟨{ config with defaultNonNullable := true }, resolver⟩ depth p s)
        (schema ⟨{ config with defaultNonNullable := false }, resolver⟩ depth p s) ∧
      Parallel Narrower
        (schema ⟨{ config with additionalProperties := false }, resolver⟩ depth p s)
        (schema ⟨{ config with additionalProperties := true }, resolver⟩ depth p s) ∧
      (∀ a b, Parallel SameValues
        (schema ⟨{ config with immutableTypes := a }, resolver⟩ depth p s)
        (schema ⟨{ config with immutableTypes := b }, resolver⟩ depth p s)) ∧
      ∀ a b, Parallel SameValues
        (schema ⟨{ config with alphabetize := a }, resolver⟩ depth p s)
        (schema ⟨{ config with alphabetize := b }, resolver⟩ depth p s) := by
  refine ⟨narrower_schema ?_ s, narrower_schema ?_ s, narrower_schema ?_ s,
    fun a b => sameValues_schema ?_ ?_ s, fun a b => sameValues_schema ?_ ?_ s⟩
  · exact ⟨rfl, id, id, fun _ => rfl⟩
  · exact ⟨rfl, id, fun _ => rfl, id⟩
  · exact ⟨rfl, fun _ => rfl, id, id⟩
  all_goals exact ⟨rfl, id, id, id⟩

/-- Lists of two texts. -/
def pairSchema : Schema := .array (some (.scalar [.string] {})) (some 2) (some 2) {}

/-- **With the option the type of pairs is narrower**: it drops the empty list. -/
theorem narrower_switches_pairSchema :
    Parallel (fun tuple list => Narrower tuple list ∧ ¬ Narrower list tuple)
      (schema ⟨{ supportArrayLength := true }, ⟨.null, none⟩⟩ 0 .root pairSchema)
      (schema ⟨{ supportArrayLength := false }, ⟨.null, none⟩⟩ 0 .root pairSchema) := by
  have hnarrower := (narrower_switches {} ⟨.null, none⟩ 0 .root pairSchema).1
  intro refs
  rcases hnarrower refs with ⟨e, refs', htuple, -⟩ | ⟨tuple, list, refs', htuple, hlist, h⟩
  · cases htuple
  · refine .inr ⟨tuple, list, refs', htuple, hlist, h, fun hback => ?_⟩
    cases htuple
    cases hlist
    have hempty : Values .strict (fun _ _ => False) (.list (.primitive .string) .unbounded false)
        (.array []) := ⟨[], rfl, trivial, by simp⟩
    obtain ⟨items, hitems, hlength, -⟩ := hback .strict _ _ hempty
    cases hitems
    cases hlength

end Typing

end ApiTypes
