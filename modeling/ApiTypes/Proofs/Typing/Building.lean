/-
# The types of schemas and payloads are built

Typing makes types by the operations that `TypeExpr.Built` lists, and marks members, lists and
records as the options say.  One thing may add a mark: the schema of a named member that is
read-only itself.  `Sources` says which schemas are typed, so that such a member can be traced to
its schema.

* `Sources.SetsReadOnly`: a member is marked by its own schema.
* `Typing.builds_node` is the step by kinds of schemas, in mutual recursion with the lists of nested
  schemas.
* `Typing.builds_content` and `Typing.builds_response` are the payloads.
-/
import ApiTypes.Proofs.Model.Schemas
import ApiTypes.Proofs.TypeExpr.Built
import ApiTypes.Proofs.Typing.Outcome
import ApiTypes.Typing.Content

namespace ApiTypes

open TypeExpr

/-! ## 1. Sources -/

/-- Schemas that are closed under going into the schemas in them, and those with a name, which
include the properties of objects. -/
structure Sources where
  Has : Schema → Prop
  Names : String → Schema → Prop
  inner : ∀ {S s}, Has S → s ∈ S.inner → Has s
  property : ∀ {properties required additional traits name s},
    Has (.object properties required additional traits) → (name, s) ∈ properties → Names name s

/-- **A member is marked by its own schema**: that of a name, which is read-only and gives the
member its type and its comment. -/
structure Sources.SetsReadOnly (src : Sources) (env : Environment) (m : Member TypeExpr) :
    Prop where
  readonly : m.readonly = true
  schema : ∃ name s, src.Names name s ∧ s.traits.readOnly = true ∧ m.key = .name name ∧
    m.doc = Comment.ofTraits s.traits ∧ ∃ depth p, Typing.Gives (Typing.schema env depth p s) m.type

/-- An expression that is built as the options say. -/
abbrev Sources.Builds (src : Sources) (env : Environment) : TypeExpr → Prop :=
  Built env.config.immutableTypes (src.SetsReadOnly env)

/-- A member that may stand in such an expression. -/
abbrev Sources.BuildsMember (src : Sources) (env : Environment) : Member TypeExpr → Prop :=
  BuiltMember env.config.immutableTypes (src.SetsReadOnly env)

namespace Typing

variable {env : Environment} {src : Sources}

/-! ## 2. Schemas -/

theorem builds_withNull {traits : Traits} {e : TypeExpr} (h : src.Builds env e) :
    src.Builds env (withNull env.config traits e) := by
  unfold withNull
  split
  · exact h.orNull
  · exact h

theorem builds_ofScalar (k : ScalarKind) : src.Builds env (ofScalar k) := by
  cases k with
  | null => exact .literal _
  | string | integer | number | boolean => exact .primitive _

theorem builds_ofValue (v : Json) : src.Builds env (ofValue v) := by
  cases v with
  | null | bool _ | number _ | string _ => exact .literal _
  | array _ | object _ => exact .unknown

theorem builds_arrange {d : Option Discriminator} {variants : List (Typing TypeExpr)}
    (hv : ∀ t ∈ variants, Ensures (src.Builds env) t) (step : Nat × Option String) :
    Ensures (src.Builds env) (arrange env.config d variants step) := by
  unfold arrange
  have hvariant : Ensures (src.Builds env) (variants.getD step.1 (pure .never)) := by
    rw [List.getD_eq_getElem?_getD]
    cases hget : variants[step.1]? with
    | none => exact ensures_pure .never
    | some t => exact hv t (List.mem_of_getElem? hget)
  refine hvariant.bind fun variant h => ?_
  split
  · refine ensures_pure (.intersectionOf (List.forall_mem_cons.mpr ⟨h, ?_⟩))
    refine List.forall_mem_singleton.mpr (.closed (List.forall_mem_singleton.mpr ?_))
    exact builtMember_of (.literal _)
  · exact ensures_pure h

theorem builds_alternatives {d : Option Discriminator} {members : List Schema}
    {variants : List (Typing TypeExpr)} (hv : ∀ t ∈ variants, Ensures (src.Builds env) t) :
    Ensures (fun es => ∀ e ∈ es, src.Builds env e)
      (Typing.alternatives env d members variants) := by
  unfold Typing.alternatives
  split
  · exact ensures_pure (List.forall_mem_nil _)
  · refine (Ensures.mapM fun step _ => builds_arrange hv step).bind fun es hes => ?_
    exact ensures_pure (List.forall_mem_singleton.mpr (.unionOf hes))

/-- A property is marked by the options or by its own schema. -/
theorem buildsMember_property {required : List String} {name : String} {s : Schema}
    {type : TypeExpr} {depth : Nat} {p : Pointer} (hn : src.Names name s)
    (hg : Gives (schema env depth p s) type) (h : src.Builds env type) :
    src.BuildsMember env (property env.config required name s type) := by
  refine ⟨?_, h, nofun⟩
  by_cases hr : s.traits.readOnly = true
  · exact Or.inr ⟨by simp [property, Member.of, hr], name, s, hn, hr, rfl, rfl, depth, p, hg⟩
  · exact Or.inl (by simp [property, Member.of, hr])

mutual
/-- **The type of a schema is built.** -/
theorem builds_node {depth : Nat} {p : Pointer} : ∀ s : Schema, src.Has s →
    Ensures (src.Builds env) (node env depth p s)
  | .reference target traits, _ => by
    rw [node]
    exact (ensures_gives _).bind fun q _ => ensures_pure (.reference q)
  | .unknown traits, _ => by
    rw [node]
    exact ensures_pure .unknown
  | .scalar kinds traits, _ => by
    rw [node]
    refine ensures_pure (builds_withNull (.unionOf ?_))
    rw [List.forall_mem_map]
    exact fun k _ => builds_ofScalar k
  | .enumerated values traits, _ => by
    rw [node]
    refine ensures_pure (builds_withNull (.unionOf ?_))
    rw [List.forall_mem_map]
    exact fun v _ => builds_ofValue v
  | .array none least most traits, _ => by
    rw [node]
    exact ensures_pure (builds_withNull (.list _ .unknown))
  | .array (some items) least most traits, hs => by
    rw [node]
    have hitems : src.Has items := src.inner hs (List.mem_singleton_self _)
    refine (Ensures.within fun _ => builds_node items hitems).bind fun element he => ?_
    exact ensures_pure (builds_withNull (.list _ he))
  | .object properties required additional traits, hs => by
    rw [node]
    refine (builds_propertyList properties fun q hq => ⟨?_, src.property hs hq⟩).bind
      fun members hm => ?_
    · exact src.inner hs (List.mem_append_left _ (List.mem_map_of_mem hq))
    refine (builds_additionalOf additional fun s h => ?_).bind fun catchAll hc => ?_
    · subst h
      exact src.inner hs (List.mem_append_right _ (List.mem_singleton_self s))
    refine ensures_pure (builds_withNull (.record ⟨?_, fun _ _ => rfl⟩ ?_ ?_ hc))
    · exact fun m h => (hm m h).mark
    · exact fun m h => (hm m h).type
    · exact fun m h => (hm m h).pattern
  | .composed allOf oneOf anyOf discriminator base traits, hs => by
    rw [node]
    have hinner : ∀ s ∈ allOf ++ oneOf ++ anyOf ++ base.toList, src.Has s := fun s => src.inner hs
    simp only [List.forall_mem_append] at hinner
    obtain ⟨⟨⟨hallOf, honeOf⟩, hanyOf⟩, hbase⟩ := hinner
    refine (Ensures.mapM fun t ht => builds_nodes allOf hallOf t ht).bind fun all hall => ?_
    refine (builds_alternatives (builds_nodes oneOf honeOf)).bind fun one hone => ?_
    refine (builds_alternatives (builds_nodes anyOf hanyOf)).bind fun any hany => ?_
    have hparts : ∀ e ∈ all ++ one ++ any, src.Builds env e := by
      simp only [List.forall_mem_append]
      exact ⟨⟨hall, hone⟩, hany⟩
    cases base with
    | none =>
      simp only [pure_bind, List.append_nil]
      exact ensures_pure (builds_withNull (.intersectionOf hparts))
    | some base =>
      simp only [pure_bind]
      have hb : src.Has base := hbase base (List.mem_singleton_self _)
      refine (Ensures.within fun _ => builds_node base hb).bind fun own hown => ?_
      refine ensures_pure (builds_withNull (.intersectionOf ?_))
      exact List.forall_mem_append.mpr ⟨hparts, List.forall_mem_singleton.mpr hown⟩

theorem builds_nodes {depth : Nat} {p : Pointer} : ∀ (ss : List Schema) {i : Nat},
    (∀ s ∈ ss, src.Has s) → ∀ t ∈ nodes env depth p i ss, Ensures (src.Builds env) t
  | [], _, _, t, ht => by
    rw [nodes] at ht
    cases ht
  | s :: rest, _, hs, t, ht => by
    rw [nodes] at ht
    rcases List.mem_cons.mp ht with rfl | ht
    · exact .within fun _ => builds_node s (hs s List.mem_cons_self)
    · exact builds_nodes rest (fun s h => hs s (List.mem_cons_of_mem _ h)) t ht

theorem builds_propertyList {depth : Nat} {p : Pointer} {required : List String} :
    ∀ properties : List (String × Schema),
      (∀ q ∈ properties, src.Has q.2 ∧ src.Names q.1 q.2) →
      Ensures (fun ms => ∀ m ∈ ms, src.BuildsMember env m)
        (propertyList env depth p required properties)
  | [], _ => by
    rw [propertyList]
    exact ensures_pure (List.forall_mem_nil _)
  | (name, s) :: rest, hs => by
    rw [propertyList]
    obtain ⟨hhas, hn⟩ := hs _ List.mem_cons_self
    refine (Ensures.within fun _ => builds_node s hhas).gives.bind fun type ⟨hg, ht⟩ => ?_
    refine (builds_propertyList rest fun q h => hs q (List.mem_cons_of_mem _ h)).bind
      fun ms hms => ?_
    exact ensures_pure (List.forall_mem_cons.mpr ⟨buildsMember_property hn hg ht, hms⟩)

theorem builds_additionalOf {depth : Nat} {p : Pointer} : ∀ additional : Additional Schema,
    (∀ s, additional = .schema s → src.Has s) →
    Ensures (fun catchAll : Option TypeExpr => ∀ e, catchAll = some e → src.Builds env e)
      (additionalOf env depth p additional)
  | .unsaid, _ => by
    rw [additionalOf]
    refine ensures_pure ?_
    split
    · exact fun e h => Option.some.inj h ▸ .unknown
    · exact nofun
  | .allowed allowed, _ => by
    rw [additionalOf]
    refine ensures_pure ?_
    split
    · exact fun e h => Option.some.inj h ▸ .unknown
    · exact nofun
  | .schema s, hs => by
    rw [additionalOf]
    refine (Ensures.within fun _ => builds_node s (hs s rfl)).bind fun type ht => ?_
    exact ensures_pure fun e h => Option.some.inj h ▸ ht
end

theorem builds_schema {depth : Nat} {p : Pointer} {s : Schema} (hs : src.Has s) :
    Ensures (src.Builds env) (schema env depth p s) :=
  .within fun _ => builds_node s hs

/-! ## 3. Collections of parts -/

section Collections

variable {α β : Type} {R : β → Prop}

theorem Ensures.eachItem {base : Pointer} {type : Pointer → α → Typing β} {items : List α}
    (h : ∀ a ∈ items, ∀ p, Ensures R (type p a)) :
    Ensures (fun bs => ∀ b ∈ bs, R b) (eachItem base type items) :=
  .mapM fun ai hai => h ai.1 (List.fst_mem_of_mem_zipIdx hai) _

theorem Ensures.eachNamed {base : Pointer} {type : String → Pointer → α → Typing β}
    {entries : List (String × α)} (h : ∀ e ∈ entries, ∀ p, Ensures R (type e.1 p e.2)) :
    Ensures (fun bs => ∀ b ∈ bs, R b) (eachNamed env base type entries) :=
  .mapM fun e he => h e (mem_ordered.mp he) _

end Collections

theorem buildsMember_reference {name target : String} {p : Pointer} {doc : Option String} :
    Ensures (src.BuildsMember env) (referenceMember env name p target doc) :=
  (ensures_gives _).bind fun q _ => ensures_pure (builtMember_of (.reference q))

/-! ## 4. Payloads -/

theorem builds_mediaType {p : Pointer} {m : MediaType} (hm : ∀ s ∈ m.schema.toList, src.Has s) :
    Ensures (src.Builds env) (mediaType env p m) := by
  unfold mediaType
  split
  · rename_i s hs
    exact builds_schema (hm s (by simp [hs]))
  · exact ensures_pure .unknown

theorem has_mediaType {c : Content} (hc : ∀ s ∈ Content.schemaParts c, src.Has s)
    {e : String × MediaType} (he : e ∈ c) : ∀ s ∈ e.2.schema.toList, src.Has s :=
  fun s hs => hc s (List.mem_flatMap.mpr ⟨e, he, hs⟩)

theorem builds_content {role : ContentRole} {p : Pointer} {c : Content}
    (hc : ∀ s ∈ Content.schemaParts c, src.Has s) :
    Ensures (src.Builds env) (content env role p c) := by
  unfold content
  split
  · exact ensures_pure .never
  · split
    · exact ensures_pure .void
    · refine (Ensures.mapM fun e he => builds_mediaType (has_mediaType hc he)).bind
        fun es hes => ?_
      exact ensures_pure (.unionOf hes)

theorem builds_schemaOrContent {p : Pointer} {schema : Option Schema} {c : Option Content}
    {byContent : Content → Typing TypeExpr} {otherwise : TypeExpr}
    (hv : ∀ s ∈ valueSchemas schema c, src.Has s)
    (hc : ∀ c, (∀ s ∈ Content.schemaParts c, src.Has s) → Ensures (src.Builds env) (byContent c))
    (ho : src.Builds env otherwise) :
    Ensures (src.Builds env) (schemaOrContent env p schema c byContent otherwise) := by
  cases schema with
  | some s => exact builds_schema (hv s List.mem_cons_self)
  | none =>
    cases c with
    | some c => exact hc c hv
    | none => exact ensures_pure ho

theorem builds_header {p : Pointer} {hd : Header} (hh : ∀ s ∈ hd.schemaParts, src.Has s) :
    Ensures (src.Builds env) (header env p hd) := by
  refine builds_schemaOrContent hh (fun c hc => ?_) .unknown
  refine (Ensures.eachNamed fun e he p => ?_).bind fun ms hms => ensures_pure (.closed hms)
  refine (builds_mediaType (has_mediaType hc he)).bind fun type ht => ?_
  exact ensures_pure (builtMember_of ht)

theorem buildsMember_header {name : String} {p : Pointer} {part : OrRef Header}
    (hh : ∀ s ∈ part.schemaParts Header.schemaParts, src.Has s) :
    Ensures (src.BuildsMember env) (headerMember env name p part) := by
  cases part with
  | ref r => exact buildsMember_reference
  | item hd => exact (builds_header hh).bind fun type ht => ensures_pure (builtMember_of ht)

/-- **The type of a response is built.** -/
theorem builds_response {p : Pointer} {r : Response} (hr : ∀ s ∈ r.schemaParts, src.Has s) :
    Ensures (src.Builds env) (response env p r) := by
  obtain ⟨hheaders, hcontent⟩ := List.forall_mem_append.mp hr
  unfold response
  split
  · exact ensures_pure .never
  · rename_i c hc
    rw [hc] at hcontent
    refine (builds_content hcontent).bind fun body hbody => ?_
    split
    · exact ensures_pure hbody
    · refine (Ensures.eachNamed fun e he p => buildsMember_header fun s hs => ?_).bind
        fun ms hms => ensures_pure (.withHeaders hbody (.closed hms))
      exact hheaders s (List.mem_flatMap.mpr ⟨e, he, hs⟩)

end Typing

end ApiTypes
