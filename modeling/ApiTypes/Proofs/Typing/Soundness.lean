/-
# The type of a schema rejects no value of the schema

The type expression that a schema is given has every value that the schema accepts, whatever
the named types stand for.  It may have more: a type does not say how long a list is beyond a
small least length, that a number is whole, or that exactly one alternative applies.

* `Typing.admits_node` is the step by kinds of sorted schemas, in mutual recursion with the
  lists of nested schemas.
* `Typing.admits_of_satisfies` puts it together with sorting (`Proofs.Schema.Sorting`).
-/
import ApiTypes.Proofs.Resolver
import ApiTypes.Proofs.Schema.Sorting
import ApiTypes.Proofs.TypeExpr.Meaning
import ApiTypes.Proofs.Typing.Outcome
import ApiTypes.Typing.Schema
import Mathlib

namespace ApiTypes

/-! ## 1. References and null -/

/-- What a reference means, when the types that stand at pointers have the values `ρ`: the
values of the node it leads to. -/
def Environment.Named (env : Environment) (ρ : Pointer → Json → Prop) (target : String)
    (v : Json) : Prop :=
  ∃ p, env.resolver.canonical target .root = .ok p ∧ ρ p v

namespace Typing

open Schema TypeExpr

section Parts

variable {env : Environment} {ρ : Pointer → Json → Prop} {v : Json} {traits : Traits}

/-- A nullable type has null, if defaults do not stand for it. -/
theorem admits_withNull (hd : env.config.defaultNonNullable = false) {e : TypeExpr} :
    Admits ρ (withNull env.config traits e) v ↔
      Admits ρ e v ∨ (v = .null ∧ traits.nullable = true) := by
  rw [withNull, hd]
  cases hn : traits.nullable
  · simp
  · simp [admits_orNull]

/-! ## 2. Single values -/

theorem admits_ofScalar {k : ScalarKind} (h : v.HasType k.name) : Admits ρ (ofScalar k) v := by
  cases k with
  | string => exact h
  | integer => exact h.number_of_integer rfl
  | number => exact h
  | boolean => exact h
  | null => exact h.eq_null rfl

theorem admits_ofValue {w : Json} (h : v.Equal w) : Admits ρ (ofValue w) v := by
  cases w with
  | null =>
    cases v with
    | null => rfl
    | _ => exact h.elim
  | bool b =>
    cases v with
    | bool a => exact congrArg Json.bool h
    | _ => exact h.elim
  | number n =>
    cases v with
    | number m => exact ⟨m, rfl, h⟩
    | _ => exact h.elim
  | string t =>
    cases v with
    | string s => exact congrArg Json.string h
    | _ => exact h.elim
  | array | object => trivial

/-! ## 3. Lists -/

/-- The bounds that a list type shows are bounds of the list. -/
theorem admits_boundsOf {config : Config} {least most : Option Nat} {length : Nat}
    (hleast : ∀ n, least = some n → n ≤ length) (hmost : ∀ n, most = some n → length ≤ n) :
    (boundsOf config least most).Admits length := by
  unfold boundsOf
  split_ifs
  · cases least with
    | none => trivial
    | some n =>
      simp only
      split_ifs with h1 h2
      · trivial
      · exact Nat.le_antisymm (hmost n h2) (hleast n rfl)
      · exact hleast n rfl
  · trivial

/-! ## 4. Alternatives -/

/-- Without a discriminator the alternatives keep their order and have no tags. -/
theorem memberOrder_none (self : Option OwnAddress) (members : List Schema) :
    Discriminator.memberOrder self members none
      = (List.range members.length).map fun i => (i, none) := by
  simp [Discriminator.memberOrder, Discriminator.placed]

/-- Without a discriminator the alternatives are typed one by one. -/
theorem Gives.of_alternatives {members : List Schema} {variants : List (Typing TypeExpr)}
    {es : List TypeExpr} (hlen : variants.length = members.length)
    (h : Gives (alternatives env none members variants) es) :
    (members = [] ∧ es = []) ∨
      (members ≠ [] ∧ ∃ vs, es = [unionOf vs] ∧ List.Forall₂ Gives variants vs) := by
  by_cases hne : members = []
  · subst hne
    exact Or.inl ⟨rfl, h.of_pure⟩
  · obtain ⟨vs, rfl, hsteps⟩ := h.exists_arranged hne
    refine Or.inr ⟨hne, vs, rfl, ?_⟩
    rw [memberOrder_none, List.forall₂_map_left_iff, ← hlen] at hsteps
    have hvariants : (List.range variants.length).map (fun i => variants.getD i (pure .never))
        = variants := by
      refine List.ext_getElem (by simp) ?_
      intro i h1 h2
      simp [h2]
    rw [← hvariants, List.forall₂_map_left_iff]
    refine hsteps.imp ?_
    intro i e h
    obtain ⟨_, he, h⟩ := h.of_bind
    rw [h.of_pure]
    exact he

/-- `P` says of `v` what the types that `t` gives have. -/
def Keeps (ρ : Pointer → Json → Prop) (v : Json) (P : Json → Prop) (t : Typing TypeExpr) : Prop :=
  P v → ∀ e, Gives t e → Admits ρ e v

theorem admits_all {conditions : List (Json → Prop)} {ts : List (Typing TypeExpr)}
    {es : List TypeExpr} (hk : List.Forall₂ (Keeps ρ v) conditions ts)
    (hg : List.Forall₂ Gives ts es) (h : ∀ P ∈ conditions, P v) : ∀ e ∈ es, Admits ρ e v := by
  induction hk generalizing es with
  | nil =>
    cases hg
    simp
  | cons hP _ ih =>
    cases hg with
    | cons he hrest =>
      intro e hmem
      rcases List.mem_cons.mp hmem with rfl | hmem
      · exact hP (h _ List.mem_cons_self) _ he
      · exact ih hrest (fun P hP => h P (List.mem_cons_of_mem _ hP)) e hmem

theorem admits_any {conditions : List (Json → Prop)} {ts : List (Typing TypeExpr)}
    {es : List TypeExpr} (hk : List.Forall₂ (Keeps ρ v) conditions ts)
    (hg : List.Forall₂ Gives ts es) (h : ∃ P ∈ conditions, P v) : ∃ e ∈ es, Admits ρ e v := by
  induction hk generalizing es with
  | nil => exact absurd h (by simp)
  | cons hP _ ih =>
    cases hg with
    | cons he hrest =>
      obtain ⟨P, hmem, hv⟩ := h
      rcases List.mem_cons.mp hmem with rfl | hmem
      · exact ⟨_, List.mem_cons_self, hP hv _ he⟩
      · obtain ⟨e, he, hadm⟩ := ih hrest ⟨P, hmem, hv⟩
        exact ⟨e, List.mem_cons_of_mem _ he, hadm⟩

/-- The union of the alternatives has the value, if one of them accepts it. -/
theorem admits_alternatives {members : List Schema} {conditions : List (Json → Prop)}
    {variants : List (Typing TypeExpr)} {es : List TypeExpr}
    (hlen : variants.length = members.length)
    (hk : List.Forall₂ (Keeps ρ v) conditions variants)
    (hg : Gives (alternatives env none members variants) es)
    (h : members = [] ∨ ∃ P ∈ conditions, P v) : ∀ e ∈ es, Admits ρ e v := by
  rcases hg.of_alternatives hlen with ⟨_, rfl⟩ | ⟨hne, vs, rfl, hvs⟩
  · simp
  · rcases h with hnil | h
    · exact absurd hnil hne
    · intro e he
      rw [List.mem_singleton.mp he, admits_unionOf]
      exact admits_any hk hvs h

/-! ## 5. Objects -/

/-- The member of a property asks of an object what the schema of the property does. -/
theorem memberAdmits_property {config : Config} {required : List String} {name : String}
    {s : Schema} {type : TypeExpr} {fields : List (String × Json)}
    (htype : ∀ w, Json.lookup name fields = some w → Admits ρ type w)
    (hrequired : ∀ n ∈ required, n ∈ fields.map Prod.fst) :
    MemberAdmits ρ (property config required name s type) fields := by
  refine ⟨htype, ?_⟩
  intro hnone
  by_contra hneed
  have hmem : name ∈ required := by simpa using hneed
  exact (Json.lookup_eq_none_iff fields).mp hnone (hrequired name hmem)

/-- The members of properties have the names of the properties. -/
theorem names_of_propertyList {depth : Nat} {p : Pointer} {required : List String} :
    ∀ (properties : List (String × Schema)) {members : List (Member TypeExpr)},
      Gives (propertyList env depth p required properties) members →
      members.filterMap Member.name? = properties.map Prod.fst
  | [], _, h => by
    rw [propertyList] at h
    rw [h.of_pure]
    rfl
  | (name, s) :: rest, _, h => by
    rw [propertyList] at h
    obtain ⟨type, _, h⟩ := h.of_bind
    obtain ⟨members, hm, h⟩ := h.of_bind
    rw [h.of_pure, List.map_cons, ← names_of_propertyList rest hm]
    rfl

end Parts

/-! ## 6. Schemas -/

section Schemas

variable {env : Environment} {ρ : Pointer → Json → Prop}

/-- As many types are asked for as there are schemas. -/
theorem length_nodes {depth : Nat} {p : Pointer} (ss : List Schema) {i : Nat} :
    (nodes env depth p i ss).length = ss.length := by
  induction ss generalizing i with
  | nil => rw [nodes, List.length_nil, List.length_nil]
  | cons s rest ih => rw [nodes, List.length_cons, List.length_cons, ih]

mutual
/-- **The type of a sorted schema rejects no value that the schema accepts.** -/
theorem admits_node (ha : env.config.additionalProperties = true)
    (hd : env.config.defaultNonNullable = false) {depth : Nat} {p : Pointer} {e : TypeExpr}
    {v : Json} : ∀ (s : Schema), Gives (node env depth p s) e → Accepts (env.Named ρ) s v →
      Admits ρ e v
  | .reference target traits, h, hv => by
    rw [node] at h
    obtain ⟨q, hq, h⟩ := h.of_bind
    rw [h.of_pure]
    obtain ⟨q', hq', hv⟩ := hv
    rw [Resolver.canonical_root hq.of_reference, Except.ok.injEq] at hq'
    exact hq' ▸ hv
  | .unknown _, h, _ => by
    rw [node] at h
    rw [h.of_pure]
    trivial
  | .scalar kinds traits, h, hv => by
    rw [node] at h
    rw [h.of_pure, admits_withNull hd, admits_unionOf]
    rcases hv with hnull | ⟨k, hk, hv⟩
    · exact Or.inr hnull
    · exact Or.inl ⟨_, List.mem_map.mpr ⟨k, hk, rfl⟩, admits_ofScalar hv⟩
  | .enumerated values traits, h, hv => by
    rw [node] at h
    rw [h.of_pure, admits_withNull hd, admits_unionOf]
    rcases hv with hnull | ⟨w, hw, hv⟩
    · exact Or.inr hnull
    · exact Or.inl ⟨_, List.mem_map.mpr ⟨w, hw, rfl⟩, admits_ofValue hv⟩
  | .array none least most traits, h, hv => by
    rw [node] at h
    rw [h.of_pure, admits_withNull hd]
    rcases hv with hnull | ⟨ws, rfl, _⟩
    · exact Or.inr hnull
    · exact Or.inl ⟨ws, rfl, trivial, fun _ _ => trivial⟩
  | .array (some items) least most traits, h, hv => by
    rw [node] at h
    obtain ⟨element, hel, h⟩ := h.of_bind
    rw [h.of_pure, admits_withNull hd]
    rcases hv with hnull | ⟨ws, rfl, hleast, hmost, hitems⟩
    · exact Or.inr hnull
    · refine Or.inl ⟨ws, rfl, admits_boundsOf hleast hmost, ?_⟩
      intro w hw
      exact admits_node ha hd items hel.of_within (hitems w hw)
  | .object properties required additional traits, h, hv => by
    rw [node] at h
    obtain ⟨members, hmembers, h⟩ := h.of_bind
    obtain ⟨catchAll, hall, h⟩ := h.of_bind
    rw [h.of_pure, admits_withNull hd]
    rcases hv with hnull | ⟨fields, rfl, hrequired, hproperties, hfurther⟩
    · exact Or.inr hnull
    · refine Or.inl ⟨fields, rfl, ?_, ?_⟩
      · rw [memberAdmissions_eq_map, List.forall_mem_map]
        exact memberAdmits_propertyList ha hd properties hmembers hproperties hrequired
      · rw [names_of_propertyList properties hmembers]
        intro field hf hn
        exact optionAdmits_additionalOf ha hd additional hall (hfurther field hf hn)
  | .composed allOf oneOf anyOf discriminator base traits, h, hv => by
    rw [node] at h
    obtain ⟨all, hall, h⟩ := h.of_bind
    obtain ⟨one, hone, h⟩ := h.of_bind
    obtain ⟨any, hany, h⟩ := h.of_bind
    obtain ⟨own, hown, rfl⟩ : ∃ own, (AcceptsOption (env.Named ρ) base v →
        ∀ e ∈ own, Admits ρ e v) ∧
        e = withNull env.config traits (.intersectionOf (all ++ one ++ any ++ own)) := by
      cases base with
      | none => exact ⟨[], fun _ _ he => absurd he (by simp), h.of_pure⟩
      | some base =>
        obtain ⟨b, hb, h⟩ := h.of_bind
        refine ⟨[b], fun hv e he => ?_, h.of_pure⟩
        rw [List.mem_singleton.mp he]
        exact admits_node ha hd base hb.of_within hv
    rw [admits_withNull hd]
    rcases hv with hnull | ⟨rfl, hv, hv', hv'', hbase⟩
    · exact Or.inr hnull
    · refine Or.inl (admits_intersectionOf.mpr ?_)
      intro e he
      rw [List.mem_append, List.mem_append, List.mem_append, or_assoc, or_assoc] at he
      rcases he with he | he | he | he
      · exact admits_all (keeps_nodes ha hd allOf) hall.of_mapM hv e he
      · exact admits_alternatives (length_nodes oneOf) (keeps_nodes ha hd oneOf) hone hv' e he
      · exact admits_alternatives (length_nodes anyOf) (keeps_nodes ha hd anyOf) hany hv'' e he
      · exact hown hbase e he

theorem keeps_nodes (ha : env.config.additionalProperties = true)
    (hd : env.config.defaultNonNullable = false) {depth : Nat} {p : Pointer} {v : Json} :
    ∀ (ss : List Schema) {i : Nat},
      List.Forall₂ (Keeps ρ v) (acceptances (env.Named ρ) ss) (nodes env depth p i ss)
  | [], _ => by
    rw [acceptances, nodes]
    exact .nil
  | s :: rest, _ => by
    rw [acceptances, nodes]
    refine .cons ?_ (keeps_nodes ha hd rest)
    intro hv e he
    exact admits_node ha hd s he.of_within hv

theorem memberAdmits_propertyList (ha : env.config.additionalProperties = true)
    (hd : env.config.defaultNonNullable = false) {depth : Nat} {p : Pointer}
    {required : List String} {fields : List (String × Json)} :
    ∀ (properties : List (String × Schema)) {members : List (Member TypeExpr)},
      Gives (propertyList env depth p required properties) members →
      (∀ P ∈ propertyAcceptances (env.Named ρ) properties,
        ∀ w, Json.lookup P.1 fields = some w → P.2 w) →
      (∀ name ∈ required, name ∈ fields.map Prod.fst) →
      ∀ m ∈ members, MemberAdmits ρ m fields
  | [], _, h, _, _ => by
    rw [propertyList] at h
    rw [h.of_pure]
    simp
  | (name, s) :: rest, _, h, hv, hrequired => by
    rw [propertyList] at h
    obtain ⟨type, htype, h⟩ := h.of_bind
    obtain ⟨members, hm, h⟩ := h.of_bind
    rw [h.of_pure]
    rw [propertyAcceptances] at hv
    intro m hmem
    rcases List.mem_cons.mp hmem with rfl | hmem
    · refine memberAdmits_property ?_ hrequired
      intro w hw
      exact admits_node ha hd s htype.of_within (hv _ List.mem_cons_self w hw)
    · exact memberAdmits_propertyList ha hd rest hm
        (fun P hP => hv P (List.mem_cons_of_mem _ hP)) hrequired m hmem

theorem optionAdmits_additionalOf (ha : env.config.additionalProperties = true)
    (hd : env.config.defaultNonNullable = false) {depth : Nat} {p : Pointer} {v : Json}
    {catchAll : Option TypeExpr} : ∀ (additional : Additional Schema),
      Gives (additionalOf env depth p additional) catchAll →
      AcceptsAdditional (env.Named ρ) additional v → OptionAdmits ρ catchAll v
  | .unsaid, h, _ => by
    rw [additionalOf] at h
    rw [h.of_pure, if_pos ha]
    trivial
  | .allowed allowed, h, hv => by
    rw [additionalOf] at h
    rw [AcceptsAdditional] at hv
    rw [h.of_pure, if_pos hv]
    trivial
  | .schema s, h, hv => by
    rw [additionalOf] at h
    obtain ⟨e, he, h⟩ := h.of_bind
    rw [h.of_pure]
    exact admits_node ha hd s he.of_within hv
end

/-- **The type of a schema rejects no value that satisfies the schema**: the options add
further members to objects that do not exclude them and leave null to nullable types, the other
options, the document and the meaning of its named types being arbitrary. -/
theorem admits_of_satisfies (ha : env.config.additionalProperties = true)
    (hd : env.config.defaultNonNullable = false) {S : Json} (plain : Plain S) {depth : Nat}
    {p : Pointer} {e : TypeExpr} (h : Gives (schema env depth p (Schema.ofJson S)) e) {v : Json}
    (hv : Satisfies (env.Named ρ) S v) : Admits ρ e v :=
  admits_node ha hd (Schema.ofJson S) h.of_within (accepts_ofJson (env.Named ρ) S plain v hv)

end Schemas

/-! ## 7. An instance -/

/-- A schema of lists of tags. -/
def tagsSchema : Json :=
  .object [("type", .string "array"), ("minItems", .number (.int 1)),
    ("items", .object [("$ref", .string "#/components/schemas/Tag")])]

/-- A nullable schema of texts and of objects that hold tags. -/
def taggedSchema : Json :=
  .object [("type", .array [.string "object", .string "string"]), ("nullable", .bool true),
    ("properties", .object [("tags", tagsSchema)]), ("required", .array [.string "tags"])]

/-- A document that describes tags. -/
def tagEnvironment : Environment where
  config := { additionalProperties := true, supportArrayLength := true }
  resolver := ⟨.object [("components", .object [("schemas", .object [("Tag", .bool true)])])], none⟩

/-- The pointer of the description of tags. -/
def tagPointer : Pointer := ⟨["components", "schemas", "Tag"]⟩

/-- The type of the schema: a record with a list of at least one tag, a text, or null. -/
def taggedType : TypeExpr :=
  .union [
    .record {
      members := [.of "tags" (.list (.reference tagPointer) (.atLeast 1) false)]
      catchAll := some .unknown },
    .primitive .string, .null]

theorem plain_taggedSchema : Plain taggedSchema := by
  refine Plain.object ⟨rfl, fun w h => absurd h (by simp [Json.lookup]), fun _ => by decide⟩ ?_
  rintro s (_ | ⟨_, ⟨⟩⟩)
  refine Plain.object ⟨rfl, fun w h => absurd h (by simp [Json.lookup]), fun _ => by decide⟩ ?_
  rintro s (_ | ⟨_, ⟨⟩⟩)
  refine Plain.object ⟨rfl, fun w h => absurd h (by simp [Json.lookup]), ?_⟩ ?_
  · simp [hasKey, Json.lookup]
  · rintro s ⟨⟩

/-- Only the text `new` is a tag. -/
def tagValues (p : Pointer) (v : Json) : Prop := p = tagPointer ∧ v = .string "new"

theorem satisfies_tagsSchema :
    Satisfies (tagEnvironment.Named tagValues) tagsSchema (.array [.string "new"]) := by
  refine Or.inr ⟨⟨?_, ?_, ?_, ?_, ?_, ?_⟩, ?_⟩
  · exact fun _ => ⟨"array", by decide, .array _⟩
  · intro values h
    simp [Json.lookup] at h
  · intro w h
    simp [Json.lookup] at h
  · intro fields h
    cases h
  · intro items n hv h
    cases hv
    cases h
    decide
  · intro items n _ h
    simp [Json.lookup] at h
  · have htag : tagEnvironment.Named tagValues "#/components/schemas/Tag" (.string "new") :=
      ⟨tagPointer, by cbv, rfl, rfl⟩
    simpa [Meets, Satisfies, textAt, Json.lookup, Json.asString?] using htag

theorem admits_tagged : Satisfies (tagEnvironment.Named tagValues) taggedSchema
      (.object [("tags", .array [.string "new"])]) ∧
    Admits tagValues taggedType (.object [("tags", .array [.string "new"])]) := by
  have hv : Satisfies (tagEnvironment.Named tagValues) taggedSchema
      (.object [("tags", .array [.string "new"])]) := by
    refine Or.inr ⟨⟨?_, ?_, ?_, ?_, ?_, ?_⟩, ?_⟩
    · exact fun _ => ⟨"object", by decide, .object _⟩
    · intro values h
      simp [Json.lookup] at h
    · intro w h
      simp [Json.lookup] at h
    · intro fields h name hname
      cases h
      exact hname
    · intro items n hv
      cases hv
    · intro items n hv
      cases hv
    · simpa [Meets, propertyMeanings, fieldMeanings, Json.lookup] using satisfies_tagsSchema
  have htype : Gives (schema tagEnvironment 0 .root (Schema.ofJson taggedSchema)) taggedType :=
    ⟨[], [tagPointer], by cbv⟩
  exact ⟨hv, admits_of_satisfies rfl rfl plain_taggedSchema htype hv⟩

end Typing

end ApiTypes
