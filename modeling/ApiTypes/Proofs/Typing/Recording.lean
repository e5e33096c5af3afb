/-
# What typing a schema records

Typing a schema follows every reference in it, once or several times, and records where each
leads.  Some of the types are left out again, when a union keeps one of several that are alike, but
what was recorded stays.  So the pointers recorded for a schema can be read off the schema: they
are the pointers of the references in it.  `Typing.Follows` says this of any typing, with one lemma
for each kind of step, and carries along what the types name.

* `Schema.RefersTo`: the targets of the references in a schema, at any depth.
* `Typing.Follows env T Q t`: typing `t` follows just the targets in `T`, and what it gives has the
  property `Q` of the pointers that they lead to.
* `Typing.follows_node` is the step by kinds of schemas, `Typing.follows_schema` the result.
-/
import ApiTypes.Proofs.Model.Schemas
import ApiTypes.Proofs.Resolver
import ApiTypes.Proofs.TypeExpr.Parts
import ApiTypes.Proofs.Typing.Agreement
import ApiTypes.Proofs.Typing.MemberOrder
import ApiTypes.Proofs.Typing.Occurring

namespace ApiTypes

/-! ## 1. The references in a schema -/

/-- **The targets of the references in a schema**, itself or the schemas that it is made of. -/
inductive Schema.RefersTo : Schema → String → Prop
  | reference (target : String) (traits : Traits) : RefersTo (.reference target traits) target
  | inner {s part : Schema} {target : String} (mem : part ∈ s.inner)
      (refers : RefersTo part target) : RefersTo s target

/-- Some of the schemas refer to a target. -/
def Schema.SomeRefersTo (ss : List Schema) (target : String) : Prop :=
  ∃ s ∈ ss, s.RefersTo target

namespace Schema

variable {target : String}

theorem refersTo_reference {name : String} {traits : Traits} :
    RefersTo (.reference name traits) target ↔ target = name := by
  constructor
  · intro h
    cases h with
    | reference => rfl
    | inner mem _ => exact absurd mem List.not_mem_nil
  · rintro rfl
    exact .reference target traits

/-- A schema that is no reference refers to what the schemas in it refer to. -/
theorem refersTo_iff {s : Schema} (hs : ∀ name traits, s ≠ .reference name traits) :
    s.RefersTo target ↔ SomeRefersTo s.inner target := by
  constructor
  · intro h
    cases h with
    | reference => exact absurd rfl (hs _ _)
    | inner mem refers => exact ⟨_, mem, refers⟩
  · rintro ⟨part, mem, refers⟩
    exact .inner mem refers

@[simp]
theorem someRefersTo_nil : SomeRefersTo [] target ↔ False := by simp [SomeRefersTo]

@[simp]
theorem someRefersTo_cons {s : Schema} {ss : List Schema} :
    SomeRefersTo (s :: ss) target ↔ s.RefersTo target ∨ SomeRefersTo ss target := by
  simp [SomeRefersTo]

@[simp]
theorem someRefersTo_append {ss ts : List Schema} :
    SomeRefersTo (ss ++ ts) target ↔ SomeRefersTo ss target ∨ SomeRefersTo ts target := by
  simp [SomeRefersTo, or_and_right, exists_or]

theorem refersTo_object {properties : List (String × Schema)} {required : List String}
    {additional : Additional Schema} {traits : Traits} :
    RefersTo (.object properties required additional traits) target ↔
      SomeRefersTo (properties.map Prod.snd) target ∨
        ∃ s, additional = .schema s ∧ s.RefersTo target := by
  rw [refersTo_iff (by simp)]
  cases additional <;> simp [inner]

theorem refersTo_composed {allOf oneOf anyOf : List Schema} {d : Option Discriminator}
    {base : Option Schema} {traits : Traits} :
    RefersTo (.composed allOf oneOf anyOf d base traits) target ↔
      SomeRefersTo allOf target ∨ SomeRefersTo oneOf target ∨ SomeRefersTo anyOf target ∨
        SomeRefersTo base.toList target := by
  rw [refersTo_iff (by simp), inner, someRefersTo_append, someRefersTo_append,
    someRefersTo_append, or_assoc, or_assoc]

end Schema

/-- The pointers that some targets lead to. -/
def Environment.PointersOf (env : Environment) (T : String → Prop) (p : Pointer) : Prop :=
  ∃ target, T target ∧ env.resolver.canonical target .root = .ok p

/-- **The pointers that an expression names**, by itself or by what is picked from a collection,
are in a set. -/
def TypeExpr.NamesWithin (S : Pointer → Prop) : TypeExpr → Prop :=
  TypeExpr.Obeys (TypeExpr.Holds S fun _ => True)

/-- The same of a member. -/
def Member.NamesWithin (S : Pointer → Prop) (m : Member TypeExpr) : Prop :=
  TypeExpr.MemberObeys (TypeExpr.Holds S fun _ => True) m

namespace Typing

open TypeExpr

variable {α β : Type} {env : Environment} {T T' : String → Prop}

/-! ## 2. Following targets -/

/-- Whatever a typing gives, it follows just the targets in `T`: each of them leads to a pointer,
these are the pointers that are recorded, from wherever it starts, and the result has a property of
every set that contains them. -/
def Follows (env : Environment) (T : String → Prop) (Q : (Pointer → Prop) → α → Prop)
    (t : Typing α) : Prop :=
  ∀ a, Gives t a → (∀ target, T target → ∃ p, env.resolver.canonical target .root = .ok p) ∧
    Yields t a (env.PointersOf T) ∧ ∀ S, (∀ p, env.PointersOf T p → S p) → Q S a

section Steps

variable {Q : (Pointer → Prop) → α → Prop} {R : (Pointer → Prop) → β → Prop} {t : Typing α}

theorem Follows.congr (h : Follows env T Q t) (hT : ∀ target, T' target ↔ T target) :
    Follows env T' Q t := by
  obtain rfl : T' = T := funext fun target => propext (hT target)
  exact h

theorem Follows.mono {Q' : (Pointer → Prop) → α → Prop} (h : Follows env T Q t)
    (hQ : ∀ S a, Q S a → Q' S a) : Follows env T Q' t := fun a ha =>
  ⟨(h a ha).1, (h a ha).2.1, fun S hS => hQ S a ((h a ha).2.2 S hS)⟩

theorem follows_pure {a : α} (h : ∀ S, Q S a) : Follows env (fun _ => False) Q (pure a) := by
  intro b hb
  rw [hb.of_pure]
  refine ⟨fun _ h => h.elim, fun refs => ⟨refs, rfl, id, fun p => ?_⟩, fun S _ => h S⟩
  simp [Environment.PointersOf]

theorem pointersOf_or {p : Pointer} :
    env.PointersOf (fun target => T target ∨ T' target) p ↔
      env.PointersOf T p ∨ env.PointersOf T' p := by
  simp [Environment.PointersOf, or_and_right, exists_or]

/-- The targets of two steps are those of either. -/
theorem Follows.bind {f : α → Typing β} (h : Follows env T Q t)
    (hf : ∀ a, Follows env T' (fun S b => Q S a → R S b) (f a)) :
    Follows env (fun target => T target ∨ T' target) R (t >>= f) := by
  intro b hb
  obtain ⟨a, ha, hb⟩ := hb.of_bind
  obtain ⟨hresolves, hyields, hQ⟩ := h a ha
  obtain ⟨hresolves', hyields', hR⟩ := hf a b hb
  refine ⟨fun target => ?_, (hyields.bind hyields').congr fun p => pointersOf_or.symm,
    fun S hS => ?_⟩
  · rintro (hT | hT')
    · exact hresolves target hT
    · exact hresolves' target hT'
  · have hfirst := hQ S fun p hp => hS p (pointersOf_or.mpr (Or.inl hp))
    exact hR S (fun p hp => hS p (pointersOf_or.mpr (Or.inr hp))) hfirst

/-- A last step that follows nothing. -/
theorem Follows.bind_pure {f : α → β} (h : Follows env T Q t) (hf : ∀ S a, Q S a → R S (f a)) :
    Follows env T R (t >>= fun a => pure (f a)) :=
  (h.bind fun a => follows_pure fun S => hf S a).congr fun _ => (or_false _).symm.to_iff

/-- A reference follows its target and gives the pointer that it leads to. -/
theorem follows_reference {target : String} {location : Pointer} :
    Follows env (· = target) (fun S p => S p) (reference env target location) := by
  intro p hp
  have hroot := Resolver.canonical_root hp.of_reference
  have hpointers : ∀ q, env.PointersOf (· = target) q ↔ q = p := by
    intro q
    constructor
    · rintro ⟨_, rfl, hq⟩
      rw [hroot] at hq
      cases hq
      rfl
    · rintro rfl
      exact ⟨target, rfl, hroot⟩
  refine ⟨?_, fun refs => ⟨Pointer.insert p refs, ?_, Pointer.ascending_insert, fun q => ?_⟩, ?_⟩
  · rintro _ rfl
    exact ⟨p, hroot⟩
  · unfold reference
    rw [hp.of_reference]
    rfl
  · rw [Pointer.mem_insert, hpointers, or_comm]
  · exact fun S hS => hS p ((hpointers p).mpr rfl)

theorem Follows.within {depth : Nat} {location : Pointer} {inner : Nat → Typing α}
    (h : ∀ depth, Follows env T Q (inner depth)) :
    Follows env T Q (within env depth location inner) := by
  unfold Typing.within
  split
  · exact fun a ha => ha.of_throw.elim
  · exact h (depth + 1)

/-- The targets of a list of steps are those of some step. -/
theorem Follows.mapM {γ : Type} {f : α → Typing β} {targets : γ → String → Prop} {cs : List γ}
    {as : List α} (h : List.Forall₂ (fun c a => Follows env (targets c) R (f a)) cs as) :
    Follows env (fun target => ∃ c ∈ cs, targets c target) (fun S bs => ∀ b ∈ bs, R S b)
      (as.mapM f) := by
  induction h with
  | nil =>
    rw [List.mapM_nil]
    exact (follows_pure fun _ b hb => absurd hb List.not_mem_nil).congr fun _ => by simp
  | @cons c a cs as hstep _ ih =>
    rw [List.mapM_cons]
    refine (hstep.bind fun b => ih.bind_pure ?_).congr fun target => ?_
    · exact fun S bs hbs hb => List.forall_mem_cons.mpr ⟨hb, hbs⟩
    · exact List.exists_mem_cons_iff _ c cs

end Steps

/-! ## 3. Parts of schemas -/

section Names

variable {S : Pointer → Prop}

theorem namesWithin_withNull {config : Config} {traits : Traits} {e : TypeExpr}
    (h : e.NamesWithin S) : (withNull config traits e).NamesWithin S := by
  unfold withNull
  split
  · exact obeys_orNull holds_plain h
  · exact h

theorem namesWithin_withTag {config : Config} {property tag : String} {e : TypeExpr}
    (h : e.NamesWithin S) : (withTag config property tag e).NamesWithin S := by
  refine obeys_intersectionOf holds_plain (List.forall_mem_cons.mpr ⟨h, ?_⟩)
  rw [List.forall_mem_singleton]
  refine obeys_closed.mpr ⟨trivial, List.forall_mem_singleton.mpr ?_⟩
  exact (memberObeys_name rfl).mpr (obeys_literal holds_plain)

theorem namesWithin_ofScalar (k : ScalarKind) : (ofScalar k).NamesWithin S := by
  cases k with
  | null => exact obeys_null holds_plain
  | string | integer | number | boolean => exact obeys_primitive holds_plain

theorem namesWithin_ofValue (v : Json) : (ofValue v).NamesWithin S := by
  cases v with
  | null => exact obeys_null holds_plain
  | bool _ | number _ | string _ => exact obeys_literal holds_plain
  | array _ | object _ => exact obeys_unknown holds_plain

theorem namesWithin_property {config : Config} {required : List String} {name : String}
    {s : Schema} {e : TypeExpr} (h : e.NamesWithin S) :
    (property config required name s e).NamesWithin S :=
  (memberObeys_name rfl).mpr h

end Names

section Alternatives

variable {members : List Schema} {variants : List (Typing TypeExpr)}

/-- The alternative at a position; beyond them there is none. -/
theorem follows_getD
    (h : List.Forall₂ (fun s t => Follows env s.RefersTo NamesWithin t) members variants) :
    ∀ i, Follows env (fun target => ∃ s, members[i]? = some s ∧ s.RefersTo target) NamesWithin
      (variants.getD i (pure .never)) := by
  induction h with
  | nil => exact fun i => (follows_pure fun S => obeys_never holds_plain).congr fun _ => by simp
  | cons hs _ ih =>
    intro i
    cases i with
    | zero => exact hs.congr fun _ => by simp
    | succ i => exact (ih i).congr fun _ => by simp

theorem follows_arrange {config : Config} {d : Option Discriminator}
    (h : List.Forall₂ (fun s t => Follows env s.RefersTo NamesWithin t) members variants)
    (step : Nat × Option String) :
    Follows env (fun target => ∃ s, members[step.1]? = some s ∧ s.RefersTo target) NamesWithin
      (arrange config d variants step) := by
  obtain ⟨i, tag⟩ := step
  refine ((follows_getD h i).bind fun variant => ?_).congr fun _ => (or_false _).symm.to_iff
  split
  · exact follows_pure fun S => namesWithin_withTag
  · exact follows_pure fun S hvariant => hvariant

/-- Alternatives are typed once for each of their tags, and once if they have none. -/
theorem follows_alternatives {d : Option Discriminator}
    (h : List.Forall₂ (fun s t => Follows env s.RefersTo NamesWithin t) members variants) :
    Follows env (Schema.SomeRefersTo members) (fun S es => ∀ e ∈ es, e.NamesWithin S)
      (Typing.alternatives env d members variants) := by
  unfold Typing.alternatives
  split
  · rename_i hnone
    rw [List.isEmpty_iff.mp hnone]
    exact (follows_pure fun S e he => absurd he List.not_mem_nil).congr fun _ => by simp
  · refine ((Follows.mapM (List.forall₂_same.mpr fun step _ => follows_arrange h step)).bind_pure
      fun S es hes => ?_).congr fun target => ⟨?_, ?_⟩
    · exact List.forall_mem_singleton.mpr (obeys_unionOf holds_plain hes)
    · rintro ⟨s, hs, hrefers⟩
      obtain ⟨i, hi, rfl⟩ := List.getElem_of_mem hs
      obtain ⟨tag, hstep⟩ := Discriminator.exists_mem_memberOrder hi
      exact ⟨_, hstep, _, List.getElem?_eq_getElem hi, hrefers⟩
    · rintro ⟨step, _, s, hs, hrefers⟩
      exact ⟨s, List.mem_of_getElem? hs, hrefers⟩

end Alternatives

/-! ## 4. Schemas -/

mutual
/-- **Typing a schema follows just the references in it, and its type names nothing else.** -/
theorem follows_node {depth : Nat} {p : Pointer} :
    ∀ s : Schema, Follows env s.RefersTo NamesWithin (node env depth p s)
  | .reference target traits => by
    rw [node]
    refine (follows_reference.bind_pure fun S q hq => ?_).congr fun _ => Schema.refersTo_reference
    exact obeys_reference.mpr hq
  | .unknown _ => by
    rw [node]
    refine (follows_pure fun S => obeys_unknown holds_plain).congr fun _ => ?_
    simp [Schema.refersTo_iff, Schema.inner]
  | .scalar kinds traits => by
    rw [node]
    refine (follows_pure fun S => namesWithin_withNull (obeys_unionOf holds_plain ?_)).congr
      fun _ => ?_
    · exact List.forall_mem_map.mpr fun k _ => namesWithin_ofScalar k
    · simp [Schema.refersTo_iff, Schema.inner]
  | .enumerated values traits => by
    rw [node]
    refine (follows_pure fun S => namesWithin_withNull (obeys_unionOf holds_plain ?_)).congr
      fun _ => ?_
    · exact List.forall_mem_map.mpr fun v _ => namesWithin_ofValue v
    · simp [Schema.refersTo_iff, Schema.inner]
  | .array none least most traits => by
    rw [node]
    refine (follows_pure fun S => namesWithin_withNull ?_).congr fun _ => ?_
    · exact (obeys_list holds_plain).mpr (obeys_unknown holds_plain)
    · simp [Schema.refersTo_iff, Schema.inner]
  | .array (some items) least most traits => by
    rw [node]
    refine ((Follows.within fun depth => follows_node items).bind_pure fun S element hel =>
      namesWithin_withNull ((obeys_list holds_plain).mpr hel)).congr fun _ => ?_
    simp [Schema.refersTo_iff, Schema.inner]
  | .object properties required additional traits => by
    rw [node]
    refine ((follows_propertyList properties).bind fun members =>
      (follows_additionalOf additional).bind_pure fun S catchAll hall hmembers =>
        namesWithin_withNull ?_).congr fun target => ?_
    · exact obeys_record.mpr ⟨trivial, hmembers, hall⟩
    · exact Schema.refersTo_object
  | .composed allOf oneOf anyOf discriminator base traits => by
    rw [node]
    have hall : Follows env (Schema.SomeRefersTo allOf) (fun S es => ∀ e ∈ es, e.NamesWithin S)
        ((nodes env depth (p.child "allOf") 0 allOf).mapM id) :=
      Follows.mapM (follows_nodes allOf 0)
    have hones : List.Forall₂ (fun s t => Follows env s.RefersTo NamesWithin t) oneOf
        (nodes env depth (p.child "oneOf") 0 oneOf) := follows_nodes oneOf 0
    have hone := follows_alternatives (d := discriminator) hones
    have hanys : List.Forall₂ (fun s t => Follows env s.RefersTo NamesWithin t) anyOf
        (nodes env depth (p.child "anyOf") 0 anyOf) := follows_nodes anyOf 0
    have hany := follows_alternatives (d := discriminator) hanys
    refine (hall.bind fun all => hone.bind fun one => hany.bind fun any =>
      (?_ : Follows env (Schema.SomeRefersTo base.toList) _ _)).congr
        fun target => Schema.refersTo_composed
    have hbuilt : ∀ S (all one any own : List TypeExpr), (∀ e ∈ all, e.NamesWithin S) →
        (∀ e ∈ one, e.NamesWithin S) → (∀ e ∈ any, e.NamesWithin S) →
        (∀ e ∈ own, e.NamesWithin S) →
        (withNull env.config traits (.intersectionOf (all ++ one ++ any ++ own))).NamesWithin S := by
      intro S all one any own hall hone hany hown
      refine namesWithin_withNull (obeys_intersectionOf holds_plain ?_)
      simp only [List.forall_mem_append]
      exact ⟨⟨⟨hall, hone⟩, hany⟩, hown⟩
    cases base with
    | none =>
      refine (follows_pure fun S hany hone hall => ?_).congr fun _ => Schema.someRefersTo_nil
      exact hbuilt S _ _ _ [] hall hone hany (List.forall_mem_nil _)
    | some base =>
      refine ((Follows.within fun depth => follows_node base).bind_pure
        fun S own hown hany hone hall => ?_).congr fun _ => by simp
      exact hbuilt S _ _ _ [own] hall hone hany (List.forall_mem_singleton.mpr hown)

theorem follows_nodes {depth : Nat} {p : Pointer} : ∀ (ss : List Schema) (i : Nat),
    List.Forall₂ (fun s t => Follows env s.RefersTo NamesWithin t) ss (nodes env depth p i ss)
  | [], _ => by
    rw [nodes]
    exact .nil
  | s :: rest, i => by
    rw [nodes]
    exact .cons (Follows.within fun depth => follows_node s) (follows_nodes rest (i + 1))

theorem follows_propertyList {depth : Nat} {p : Pointer} {required : List String} :
    ∀ properties : List (String × Schema),
      Follows env (Schema.SomeRefersTo (properties.map Prod.snd))
        (fun S ms => ∀ m ∈ ms, m.NamesWithin S) (propertyList env depth p required properties)
  | [] => by
    rw [propertyList]
    exact (follows_pure fun S m hm => absurd hm List.not_mem_nil).congr fun _ => by simp
  | (name, s) :: rest => by
    rw [propertyList]
    refine ((Follows.within fun depth => follows_node s).bind fun type =>
      (follows_propertyList rest).bind_pure fun S ms hms htype => ?_).congr fun target => ?_
    · exact List.forall_mem_cons.mpr ⟨namesWithin_property htype, hms⟩
    · exact Schema.someRefersTo_cons

theorem follows_additionalOf {depth : Nat} {p : Pointer} : ∀ additional : Additional Schema,
    Follows env (fun target => ∃ s, additional = .schema s ∧ s.RefersTo target)
      (fun S catchAll => ∀ e, catchAll = some e → e.NamesWithin S)
      (additionalOf env depth p additional)
  | .unsaid => by
    rw [additionalOf]
    refine (follows_pure fun S e he => ?_).congr fun _ => by simp
    split at he
    · cases he
      exact obeys_unknown holds_plain
    · cases he
  | .allowed _ => by
    rw [additionalOf]
    refine (follows_pure fun S e he => ?_).congr fun _ => by simp
    split at he
    · cases he
      exact obeys_unknown holds_plain
    · cases he
  | .schema s => by
    rw [additionalOf]
    refine ((Follows.within fun depth => follows_node s).bind_pure
      fun S type htype e he => ?_).congr fun _ => by simp
    cases he
    exact htype
end

/-- **Typing a schema records just the pointers of the references in it**, whatever was recorded
before, and its type names nothing else. -/
theorem follows_schema {depth : Nat} {p : Pointer} (s : Schema) :
    Follows env s.RefersTo NamesWithin (schema env depth p s) :=
  Follows.within fun _ => follows_node s

end Typing

end ApiTypes
