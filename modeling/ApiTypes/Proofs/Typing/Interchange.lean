/-
# Schemas that may stand for each other

A schema is typed from what its parts give and from little else: of an alternative the target
counts if it is a reference, of a property whether it is read-only, and its words become a
comment.  Schemas that agree in this may be exchanged inside any other schema.

* `Schema.TypedAlike f`: both schemas have one type, once comments are rewritten by `f`.
* `Schema.Interchangeable f`: moreover they make the same property.
* `Schema.typedAlike_array`, `Schema.typedAlike_object`, `Schema.typedAlike_composed`, … : one
  lemma for each kind of schema with parts.
-/
import ApiTypes.Proofs.TypeExpr.Docs
import ApiTypes.Proofs.Typing.Parallel
import ApiTypes.Typing.Schema

namespace ApiTypes

variable {f : Option String → Option String}

/-! ## 1. Expressions -/

namespace TypeExpr

/-- Expressions that become equal when their comments are rewritten. -/
def AlikeBy (f : Option String → Option String) (e e' : TypeExpr) : Prop := mapDoc f e = mapDoc f e'

theorem AlikeBy.refl (e : TypeExpr) : AlikeBy f e e := rfl

theorem map_eq_of_alike {es es' : List TypeExpr} (h : List.Forall₂ (AlikeBy f) es es') :
    es.map (mapDoc f) = es'.map (mapDoc f) := by
  induction h with
  | nil => rfl
  | cons h _ ih => rw [List.map_cons, List.map_cons, ih, h]

theorem AlikeBy.unionOf {es es' : List TypeExpr} (h : List.Forall₂ (AlikeBy f) es es') :
    AlikeBy f (unionOf es) (unionOf es') := by
  rw [AlikeBy, ← unionOf_mapDoc, ← unionOf_mapDoc, map_eq_of_alike h]

theorem AlikeBy.intersectionOf {es es' : List TypeExpr} (h : List.Forall₂ (AlikeBy f) es es') :
    AlikeBy f (intersectionOf es) (intersectionOf es') := by
  rw [AlikeBy, ← intersectionOf_mapDoc, ← intersectionOf_mapDoc, map_eq_of_alike h]

theorem AlikeBy.list {e e' : TypeExpr} (h : AlikeBy f e e') (bounds : ListBounds)
    (readonly : Bool) : AlikeBy f (list e bounds readonly) (list e' bounds readonly) := by
  rw [AlikeBy, mapDoc_list, mapDoc_list, h]

/-- Records are alike if their members and what may stand beside them are. -/
theorem AlikeBy.record {ms ms' : List (Member TypeExpr)} {c c' : Option TypeExpr}
    (hm : ms.map (mapDocMember f) = ms'.map (mapDocMember f))
    (hc : c.map (mapDoc f) = c'.map (mapDoc f)) (readonly : Bool) :
    AlikeBy f (record ⟨ms, c, readonly⟩) (record ⟨ms', c', readonly⟩) := by
  rw [AlikeBy, mapDoc_record, mapDoc_record, hm, hc]

end TypeExpr

/-- Schemas with such traits are made nullable alike. -/
structure Traits.SameNull (t t' : Traits) : Prop where
  nullable : t.nullable = t'.nullable
  default : t.default.isSome = t'.default.isSome

namespace Typing

open TypeExpr

theorem alike_withNull {config : Config} {t t' : Traits} {e e' : TypeExpr}
    (ht : t.SameNull t') (h : AlikeBy f e e') :
    AlikeBy f (withNull config t e) (withNull config t' e') := by
  unfold withNull
  rw [ht.nullable, ht.default]
  split
  · rw [AlikeBy, ← orNull_mapDoc, ← orNull_mapDoc, h]
  · exact h

theorem alike_withTag {config : Config} {property tag : String} {e e' : TypeExpr}
    (h : AlikeBy f e e') :
    AlikeBy f (withTag config property tag e) (withTag config property tag e') :=
  .intersectionOf (.cons h (.cons rfl .nil))

end Typing

/-! ## 2. Schemas -/

/-- Two schemas that give one type, once comments are rewritten by `f`, and refer to one target
if they are references. -/
structure Schema.TypedAlike (f : Option String → Option String) (s s' : Schema) : Prop where
  node : ∀ env depth p, Typing.Parallel (TypeExpr.AlikeBy f) (Typing.node env depth p s)
    (Typing.node env depth p s')
  pointer : ∀ self, Discriminator.memberPointer? self s = Discriminator.memberPointer? self s'

/-- Two schemas that may stand for each other in any place, a property included. -/
structure Schema.Interchangeable (f : Option String → Option String) (s s' : Schema) : Prop
    extends Schema.TypedAlike f s s' where
  readOnly : s.traits.readOnly = s'.traits.readOnly
  doc : f (Comment.ofTraits s.traits) = f (Comment.ofTraits s'.traits)

/-- What may stand beside the properties is said alike. -/
inductive Additional.TypedAlike (f : Option String → Option String) :
    Additional Schema → Additional Schema → Prop
  | unsaid : TypedAlike f .unsaid .unsaid
  | allowed (b : Bool) : TypedAlike f (.allowed b) (.allowed b)
  | schema {s s' : Schema} (h : s.TypedAlike f s') : TypedAlike f (.schema s) (.schema s')

theorem Schema.Interchangeable.refl (s : Schema) : s.Interchangeable f s where
  node _ _ _ := (Typing.Parallel.refl _).mono fun _ _ h => h ▸ rfl
  pointer _ := rfl
  readOnly := rfl
  doc := rfl

theorem Additional.TypedAlike.refl : ∀ a : Additional Schema, a.TypedAlike f a
  | .unsaid => .unsaid
  | .allowed b => .allowed b
  | .schema s => .schema (Schema.Interchangeable.refl s).toTypedAlike

/-- Properties of one name that may stand for each other. -/
def Schema.SameProperty (f : Option String → Option String) (p q : String × Schema) : Prop :=
  p.1 = q.1 ∧ p.2.Interchangeable f q.2

/-! ## 3. Lists of schemas -/

namespace Typing

open TypeExpr

variable {env : Environment} {depth : Nat} {p : Pointer}

theorem parallel_nodes {ss ss' : List Schema} (h : List.Forall₂ (Schema.TypedAlike f) ss ss')
    (i : Nat) :
    List.Forall₂ (Parallel (AlikeBy f)) (nodes env depth p i ss) (nodes env depth p i ss') := by
  induction h generalizing i with
  | nil =>
    rw [nodes]
    exact .nil
  | cons h _ ih =>
    rw [nodes, nodes]
    exact .cons (.within fun depth => h.node env depth _) (ih (i + 1))

theorem parallel_arrange {config : Config} {d : Option Discriminator}
    {ts us : List (Typing TypeExpr)} (h : List.Forall₂ (Parallel (AlikeBy f)) ts us)
    (step : Nat × Option String) :
    Parallel (AlikeBy f) (arrange config d ts step) (arrange config d us step) := by
  unfold arrange
  refine (Parallel.getD (AlikeBy.refl never) step.1 h).bind fun e e' he => ?_
  split
  · exact parallel_pure (alike_withTag he)
  · exact parallel_pure he

/-- The order of the alternatives depends on their number and on the targets of references. -/
theorem memberOrder_eq {self : Option OwnAddress} {d : Option Discriminator} {ss ss' : List Schema}
    (h : List.Forall₂ (Schema.TypedAlike f) ss ss') :
    Discriminator.memberOrder self ss d = Discriminator.memberOrder self ss' d := by
  have hp : ss.map (Discriminator.memberPointer? self)
      = ss'.map (Discriminator.memberPointer? self) := by
    induction h with
    | nil => rfl
    | cons h _ ih => rw [List.map_cons, List.map_cons, ih, h.pointer self]
  unfold Discriminator.memberOrder Discriminator.taggedOrder
  rw [hp, h.length_eq]

theorem parallel_alternatives {d : Option Discriminator} {ss ss' : List Schema}
    {ts us : List (Typing TypeExpr)} (hs : List.Forall₂ (Schema.TypedAlike f) ss ss')
    (h : List.Forall₂ (Parallel (AlikeBy f)) ts us) :
    Parallel (List.Forall₂ (AlikeBy f)) (alternatives env d ss ts)
      (alternatives env d ss' us) := by
  have hempty : ss.isEmpty = ss'.isEmpty := by
    cases hs with
    | nil => rfl
    | cons _ _ => rfl
  unfold alternatives
  rw [hempty, memberOrder_eq hs]
  split
  · exact parallel_pure .nil
  · refine (Parallel.mapM_same fun step _ => parallel_arrange h step).bind fun es es' hes => ?_
    exact parallel_pure (.cons (.unionOf hes) .nil)

/-- The names that must be there do not matter to an object without properties. -/
theorem parallel_propertyList {required required' : List String}
    {properties properties' : List (String × Schema)}
    (h : List.Forall₂ (Schema.SameProperty f) properties properties')
    (hr : required = required' ∨ properties = []) :
    Parallel (fun ms ms' => ms.map (mapDocMember f) = ms'.map (mapDocMember f))
      (propertyList env depth p required properties)
      (propertyList env depth p required' properties') := by
  induction h with
  | nil =>
    rw [propertyList, propertyList]
    exact parallel_pure rfl
  | @cons prop prop' rest rest' h _ ih =>
    obtain rfl := hr.resolve_right (List.cons_ne_nil _ _)
    obtain ⟨name, s⟩ := prop
    obtain ⟨_, s'⟩ := prop'
    obtain ⟨rfl, h⟩ := h
    rw [propertyList, propertyList]
    refine (Parallel.within fun depth => h.node env depth _).bind fun e e' he => ?_
    refine (ih (.inl rfl)).bind fun ms ms' hms => parallel_pure ?_
    have hm : mapDocMember f (property env.config required name s e)
        = mapDocMember f (property env.config required name s' e') := by
      simp only [property, Member.of, mapDocMember, h.readOnly, h.doc]
      rw [he]
    rw [List.map_cons, List.map_cons, hms, hm]

theorem parallel_additionalOf {a a' : Additional Schema} (h : a.TypedAlike f a') :
    Parallel (fun c c' => c.map (mapDoc f) = c'.map (mapDoc f)) (additionalOf env depth p a)
      (additionalOf env depth p a') := by
  cases h with
  | unsaid => exact (Parallel.refl _).mono fun _ _ h => h ▸ rfl
  | allowed b => exact (Parallel.refl _).mono fun _ _ h => h ▸ rfl
  | schema h =>
    rw [additionalOf, additionalOf]
    refine (Parallel.within fun depth => h.node env depth p).bind fun e e' he => ?_
    exact parallel_pure (congrArg some he)

end Typing

/-! ## 4. Kinds of schemas -/

namespace Schema

open TypeExpr Typing

variable {t t' : Traits}

/-- Words do not matter to a reference. -/
theorem typedAlike_reference (target : String) (t t' : Traits) :
    TypedAlike f (.reference target t) (.reference target t') where
  node env depth p := by
    rw [node, node]
    exact (Parallel.refl _).mono fun _ _ h => h ▸ rfl
  pointer _ := rfl

theorem typedAlike_unknown (t t' : Traits) : TypedAlike f (.unknown t) (.unknown t') where
  node env depth p := by
    rw [node, node]
    exact parallel_pure rfl
  pointer _ := rfl

theorem typedAlike_scalar (kinds : List ScalarKind) (ht : t.SameNull t') :
    TypedAlike f (.scalar kinds t) (.scalar kinds t') where
  node env depth p := by
    rw [node, node]
    exact parallel_pure (alike_withNull ht (.refl _))
  pointer _ := rfl

theorem typedAlike_enumerated (values : List Json) (ht : t.SameNull t') :
    TypedAlike f (.enumerated values t) (.enumerated values t') where
  node env depth p := by
    rw [node, node]
    exact parallel_pure (alike_withNull ht (.refl _))
  pointer _ := rfl

theorem typedAlike_array {items items' : Option Schema} (least most : Option Nat)
    (hi : Option.Rel (TypedAlike f) items items') (ht : t.SameNull t') :
    TypedAlike f (.array items least most t) (.array items' least most t') where
  node env depth p := by
    cases hi with
    | none =>
      rw [node, node]
      exact parallel_pure (alike_withNull ht (.refl _))
    | some h =>
      rw [node, node]
      refine (Parallel.within fun depth => h.node env depth _).bind fun e e' he => ?_
      exact parallel_pure (alike_withNull ht (he.list _ _))
  pointer _ := rfl

theorem typedAlike_object {properties properties' : List (String × Schema)}
    {required required' : List String} {additional additional' : Additional Schema}
    (hp : List.Forall₂ (SameProperty f) properties properties')
    (hr : required = required' ∨ properties = []) (ha : additional.TypedAlike f additional')
    (ht : t.SameNull t') :
    TypedAlike f (.object properties required additional t)
      (.object properties' required' additional' t') where
  node env depth p := by
    rw [node, node]
    refine (parallel_propertyList hp hr).bind fun ms ms' hms => ?_
    refine (parallel_additionalOf ha).bind fun c c' hc => ?_
    exact parallel_pure (alike_withNull ht (.record hms hc _))
  pointer _ := rfl

theorem typedAlike_composed {allOf allOf' oneOf oneOf' anyOf anyOf' : List Schema}
    (d : Option Discriminator) {base base' : Option Schema}
    (hall : List.Forall₂ (TypedAlike f) allOf allOf')
    (hone : List.Forall₂ (TypedAlike f) oneOf oneOf')
    (hany : List.Forall₂ (TypedAlike f) anyOf anyOf')
    (hbase : Option.Rel (TypedAlike f) base base') (ht : t.SameNull t') :
    TypedAlike f (.composed allOf oneOf anyOf d base t)
      (.composed allOf' oneOf' anyOf' d base' t') where
  node env depth p := by
    rw [node, node]
    refine (Parallel.mapM (parallel_nodes hall 0)).bind fun all all' hall => ?_
    refine (parallel_alternatives hone (parallel_nodes hone 0)).bind fun one one' hone => ?_
    refine (parallel_alternatives hany (parallel_nodes hany 0)).bind fun any any' hany => ?_
    have hparts := List.rel_append (List.rel_append hall hone) hany
    cases hbase with
    | none =>
      exact parallel_pure (alike_withNull ht (.intersectionOf (List.rel_append hparts .nil)))
    | some h =>
      simp only [pure_bind]
      refine (Parallel.within fun depth => h.node env depth p).bind fun own own' hown => ?_
      have hown' : List.Forall₂ (AlikeBy f) [own] [own'] := .cons hown .nil
      exact parallel_pure (alike_withNull ht (.intersectionOf (List.rel_append hparts hown')))
  pointer _ := rfl

end Schema

end ApiTypes
