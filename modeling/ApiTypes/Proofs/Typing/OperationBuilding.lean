/-
# The types of operations and components are built

Parameters are the one kind of part whose schemas may come from elsewhere: a reference to a
parameter is followed, and the schemas are those of the parameter that it leads to.  What is picked
from a collection is gathered name by name, so that no choice is empty or has a name twice.

* `Sources.HasParameter` and `Sources.HasPathItem` say that the schemas of a parameter, or of a path
  item, are among the sources.
* `Typing.builds_parameters`, `Typing.builds_operation`, `Typing.builds_pathRecord` and
  `Typing.builds_components` are the steps.
-/
import ApiTypes.Proofs.Typing.Building
import ApiTypes.Typing.Document

namespace ApiTypes

open TypeExpr

/-- The schemas of a parameter are among the sources; a reference is followed. -/
def Sources.HasParameter (src : Sources) (r : Resolver) : OrRef Parameter → Prop
  | .item param => ∀ s ∈ param.schemaParts, src.Has s
  | .ref ref => ∀ location p param,
      r.resolveAs Decode.parameter ref.target location = .ok (p, param) →
        ∀ s ∈ param.schemaParts, src.Has s

/-- The schemas of a path item and of its operations are among the sources. -/
structure Sources.HasPathItem (src : Sources) (r : Resolver) (item : PathItem) : Prop where
  schemas : ∀ s ∈ item.schemaParts, src.Has s
  parameters : ∀ part ∈ item.parameterParts, src.HasParameter r part

/-- The types of an operation and of its path parameters are built. -/
structure Sources.BuildsOperation (src : Sources) (env : Environment) (o : TypedOperation) :
    Prop where
  type : src.Builds env o.type
  pathParams : ∀ q ∈ o.pathParams, src.Builds env q.2

namespace Typing

variable {env : Environment} {src : Sources}

/-! ## 1. Parameters -/

theorem has_effective {p : Pointer} {part : OrRef Parameter}
    (h : src.HasParameter env.resolver part) :
    Ensures (fun e => ∀ s ∈ e.parameter.schemaParts, src.Has s) (effective env p part) := by
  cases part with
  | item param => exact ensures_pure h
  | ref r =>
    refine (ensures_gives _).bind fun target _ => ?_
    have hlift : Ensures (fun x : Pointer × Parameter => ∀ s ∈ x.2.schemaParts, src.Has s)
        (lift (env.resolver.resolveAs Decode.parameter r.target p)) :=
      ensures_lift fun x hx => h p x.1 x.2 hx
    exact hlift.bind fun x hx => ensures_pure hx

theorem has_effectiveParameters {site : Site} {location : Pointer} {o : Operation}
    (ho : ∀ part ∈ o.parameters, src.HasParameter env.resolver part)
    (hs : ∀ part ∈ site.shared, src.HasParameter env.resolver part) :
    Ensures (fun es => ∀ e ∈ es, ∀ s ∈ e.parameter.schemaParts, src.Has s)
      (effectiveParameters env site location o) := by
  refine (Ensures.eachItem fun part hpart p => has_effective (ho part hpart)).bind
    fun own hown => ?_
  refine (Ensures.eachItem fun part hpart p => has_effective (hs part hpart)).bind
    fun shared hshared => ?_
  refine ensures_pure (List.forall_mem_append.mpr ⟨hown, fun e he => ?_⟩)
  exact hshared e (List.mem_of_mem_filter he)

theorem builds_parameter {p : Pointer} {param : Parameter}
    (h : ∀ s ∈ param.schemaParts, src.Has s) : Ensures (src.Builds env) (parameter env p param) :=
  builds_schemaOrContent h (fun _ hc => builds_content hc) (.primitive _)

/-- Names that are picked from a collection are not none, and each is picked once. -/
def Picked (pick : Pointer × List String) : Prop := pick.2 ≠ [] ∧ pick.2.Nodup

theorem picked_addPick (pick : Pointer × String) : ∀ {groups : List (Pointer × List String)},
    (∀ g ∈ groups, Picked g) → ∀ g ∈ addPick groups pick, Picked g
  | [], _, g, hg => by
    rw [addPick, List.mem_singleton] at hg
    rw [hg]
    exact ⟨List.cons_ne_nil _ _, List.pairwise_singleton _ _⟩
  | (group, keys) :: rest, h, g, hg => by
    obtain ⟨⟨hsome, honce⟩, hrest⟩ := List.forall_mem_cons.mp h
    rw [addPick] at hg
    split at hg
    · rcases List.mem_cons.mp hg with rfl | hg
      · by_cases hc : keys.contains pick.2 = true
        · rw [if_pos hc]
          exact ⟨hsome, honce⟩
        · have hnot : pick.2 ∉ keys := by simpa using hc
          rw [if_neg hc]
          refine ⟨by simp, List.nodup_append.mpr ⟨honce, List.pairwise_singleton _ _, ?_⟩⟩
          intro a ha b hb
          rw [List.mem_singleton.mp hb]
          exact ne_of_mem_of_not_mem ha hnot
      · exact hrest g hg
    · rcases List.mem_cons.mp hg with rfl | hg
      · exact ⟨hsome, honce⟩
      · exact picked_addPick pick hrest g hg

theorem picked_picks : ∀ (picks : List (Pointer × String)) {groups : List (Pointer × List String)},
    (∀ g ∈ groups, Picked g) → ∀ g ∈ picks.foldl addPick groups, Picked g
  | [], _, h => h
  | first :: rest, _, h => picked_picks rest (picked_addPick first h)

/-- **The type of parameters is built.** -/
theorem builds_parameters {es : List EffectiveParameter}
    (h : ∀ e ∈ es, ∀ s ∈ e.parameter.schemaParts, src.Has s) :
    Ensures (src.Builds env) (parameters env es) := by
  have hmember : ∀ e ∈ es.filter (·.group.isNone),
      Ensures (src.BuildsMember env) (parameterMember env e) := fun e he =>
    (builds_parameter (h e (List.mem_of_mem_filter he))).bind
      fun type ht => ensures_pure (builtMember_of ht)
  unfold parameters
  refine (Ensures.mapM hmember).bind fun ms hms => ?_
  simp only
  split
  · exact ensures_pure .void
  · refine ensures_pure (.intersectionOf (List.forall_mem_append.mpr ⟨?_, ?_⟩))
    · split
      · exact List.forall_mem_nil _
      · exact List.forall_mem_singleton.mpr (.closed hms)
    · rw [List.forall_mem_map]
      intro g hg
      obtain ⟨hsome, honce⟩ := picked_picks _ (List.forall_mem_nil _) g hg
      exact .pick g.1 hsome honce

/-! ## 2. Operations -/

theorem buildsMember_body {p : Pointer} {body : Option (OrRef RequestBody)}
    (hb : ∀ s ∈ body.toList.flatMap (·.schemaParts RequestBody.schemaParts), src.Has s) :
    Ensures (src.BuildsMember env) (bodyMember env p body) := by
  unfold bodyMember
  split
  · exact ensures_pure (builtMember_of .void)
  · refine (ensures_gives _).bind fun target _ => (ensures_gives _).bind fun found _ => ?_
    exact ensures_pure (builtMember_of (.reference target))
  · refine (builds_content fun s hs => hb s ?_).bind fun type ht => ensures_pure (builtMember_of ht)
    exact List.mem_flatMap.mpr ⟨_, List.mem_singleton_self _, hs⟩

theorem buildsMember_response {code : String} {p : Pointer} {part : OrRef Response}
    (hr : ∀ s ∈ part.schemaParts Response.schemaParts, src.Has s) :
    Ensures (src.BuildsMember env) (responseMember env code p part) := by
  cases part with
  | ref r => exact buildsMember_reference
  | item r => exact (builds_response hr).bind fun type ht => ensures_pure (builtMember_of ht)

/-- **The types of an operation are built.** -/
theorem builds_operation {site : Site} {method : Method} {o : Operation}
    (hs : ∀ s ∈ o.schemaParts, src.Has s)
    (ho : ∀ part ∈ o.parameters, src.HasParameter env.resolver part)
    (hshared : ∀ part ∈ site.shared, src.HasParameter env.resolver part) :
    Ensures (src.BuildsOperation env) (operation env site method o) := by
  obtain ⟨hbody, hresponses⟩ := List.forall_mem_append.mp hs
  unfold operation
  refine (has_effectiveParameters ho hshared).bind fun es hes => ?_
  have hpath : ∀ e ∈ es.filter (·.parameter.place = .path),
      Ensures (fun q : String × TypeExpr => src.Builds env q.2)
        (do return (e.parameter.name, ← parameter env e.pointer e.parameter)) := fun e he =>
    (builds_parameter (hes e (List.mem_of_mem_filter he))).bind fun type ht => ensures_pure ht
  refine (Ensures.mapM hpath).bind fun pathParams hpathParams => ?_
  refine (builds_parameters hes).bind fun params hparams => ?_
  refine (buildsMember_body hbody).bind fun body hbody => ?_
  have hresponse : ∀ e ∈ o.responses, ∀ p,
      Ensures (src.BuildsMember env) (responseMember env e.1 p e.2) := fun e he p =>
    buildsMember_response fun s hs => hresponses s (List.mem_flatMap.mpr ⟨e, he, hs⟩)
  refine (Ensures.eachNamed hresponse).bind fun responses hres => ?_
  have hsome : ∀ keep : Member TypeExpr → Bool, src.Builds env (.closed (responses.filter keep)) :=
    fun keep => .closed fun m hm => hres m (List.mem_of_mem_filter hm)
  refine ensures_pure ⟨.closed ?_, hpathParams⟩
  simp only [List.forall_mem_cons, List.not_mem_nil, false_implies, implies_true, and_true]
  exact ⟨builtMember_of hparams, hbody, builtMember_of (hsome _), builtMember_of (hsome _)⟩

/-! ## 3. Path items -/

variable {item : PathItem} (hitem : src.HasPathItem env.resolver item)

include hitem

theorem builds_operationsOf {kind : RouteKind} {path : String} {p : Pointer} :
    Ensures (fun os => ∀ o ∈ os, src.BuildsOperation env o)
      (operationsOf env kind path p item) := by
  obtain ⟨hshared, hown⟩ := List.forall_mem_append.mp hitem.parameters
  refine .mapM fun o ho => builds_operation (fun s hs => ?_) (fun part hpart => ?_) hshared
  · exact hitem.schemas s (List.mem_flatMap.mpr ⟨o, ho, hs⟩)
  · exact hown part (List.mem_flatMap.mpr ⟨o, ho, hpart⟩)

/-- **The record of a path item is built**, if what it shows of the operations is. -/
theorem builds_pathRecord {p : Pointer} {os : List TypedOperation}
    {shown : TypedOperation → TypeExpr} (hshown : ∀ o ∈ os, src.Builds env (shown o)) :
    Ensures (src.Builds env) (pathRecord env p item os shown) := by
  have hmembers : ∀ m ∈ os.map fun o => memberFor env (.name o.method.name) (shown o) o.doc,
      src.BuildsMember env m := by
    rw [List.forall_mem_map]
    exact fun o ho => builtMember_of (hshown o ho)
  obtain ⟨hshared, _⟩ := List.forall_mem_append.mp hitem.parameters
  unfold pathRecord
  split
  · exact ensures_pure (.closed hmembers)
  · have hes : Ensures (src.Builds env) (sharedParameters env p item.parameters) :=
      (Ensures.eachItem fun part hpart p => has_effective (hshared part hpart)).bind
        fun es hes => builds_parameters hes
    refine hes.bind fun shared hshared => ensures_pure (.closed ?_)
    exact List.forall_mem_append.mpr
      ⟨hmembers, List.forall_mem_singleton.mpr (builtMember_of hshared)⟩

theorem buildsMember_pathItem {name : String} {p : Pointer} :
    Ensures (src.BuildsMember env) (pathItemComponent env name p item) := by
  refine (builds_operationsOf hitem).bind fun os hos => ?_
  refine (builds_pathRecord hitem fun o ho => (hos o ho).type).bind fun type ht => ?_
  exact ensures_pure (builtMember_of ht)

omit hitem

/-! ## 4. Components -/

section Collections

variable {α : Type} {type : String → Pointer → α → Typing (Member TypeExpr)}

theorem buildsMember_collection {name : String} {entries : Option (List (String × α))}
    (h : ∀ e ∈ entries.getD [], ∀ p, Ensures (src.BuildsMember env) (type e.1 p e.2)) :
    Ensures (src.BuildsMember env) (collection env name type entries) := by
  cases entries with
  | none => exact ensures_pure (builtMember_of .never)
  | some entries =>
    exact (Ensures.eachNamed h).bind fun ms hms => ensures_pure (builtMember_of (.closed hms))

theorem buildsMember_componentOrRef {name : String} {p : Pointer} {part : OrRef α}
    (h : ∀ a, part = .item a → Ensures (src.BuildsMember env) (type name p a)) :
    Ensures (src.BuildsMember env) (componentOrRef env type name p part) := by
  cases part with
  | ref r => exact buildsMember_reference
  | item a => exact h a rfl

/-- A collection of parts with schemas, or of references to such parts. -/
theorem buildsMember_partCollection {name : String} {entries : Option (List (String × OrRef α))}
    {schemas : α → List Schema} (hs : ∀ s ∈ collectionSchemas schemas entries, src.Has s)
    (h : ∀ name p a, (∀ s ∈ schemas a, src.Has s) →
      Ensures (src.BuildsMember env) (type name p a)) :
    Ensures (src.BuildsMember env) (collection env name (componentOrRef env type) entries) := by
  refine buildsMember_collection fun e he p => buildsMember_componentOrRef fun a ha => ?_
  refine h e.1 p a fun s hmem => hs s (List.mem_flatMap.mpr ⟨e, he, ?_⟩)
  rw [ha]
  exact hmem

end Collections

/-- A schema among the components is marked by the options or by itself. -/
theorem buildsMember_schema {name : String} {p : Pointer} {s : Schema} (hs : src.Has s)
    (hn : src.Names name s) : Ensures (src.BuildsMember env) (schemaComponent env name p s) := by
  refine (builds_schema hs).gives.bind fun type ⟨hg, ht⟩ => ensures_pure ⟨?_, ht, nofun⟩
  by_cases hr : s.traits.readOnly = true
  · exact Or.inr ⟨by simp [Member.of, hr], name, s, hn, hr, rfl, rfl, 0, p, hg⟩
  · exact Or.inl (by simp [Member.of, hr])

/-- **The type of the components is built.** -/
theorem builds_components {c : Components} (hs : ∀ s ∈ c.schemaParts, src.Has s)
    (hn : ∀ e ∈ c.schemas.getD [], src.Names e.1 e.2)
    (hi : ∀ e ∈ c.pathItems.getD [], ∀ item, e.2 = .item item →
      src.HasPathItem env.resolver item) :
    Ensures (src.Builds env) (components env c) := by
  simp only [Components.schemaParts, List.forall_mem_append, List.forall_mem_map] at hs
  obtain ⟨hschemas, hresponses, hparameters, hbodies, hheaders⟩ := hs
  have schemas : Ensures (src.BuildsMember env)
      (collection env "schemas" (schemaComponent env) c.schemas) :=
    buildsMember_collection fun e he p => buildsMember_schema (hschemas e he) (hn e he)
  have pathItems : Ensures (src.BuildsMember env)
      (collection env "pathItems" (componentOrRef env (pathItemComponent env)) c.pathItems) :=
    buildsMember_collection fun e he p =>
      buildsMember_componentOrRef fun item h => buildsMember_pathItem (hi e he item h)
  unfold components
  refine schemas.bind fun m1 h1 => ?_
  refine (buildsMember_partCollection hresponses fun name p r hr => ?_).bind fun m2 h2 => ?_
  · exact (builds_response hr).bind fun type ht => ensures_pure (builtMember_of ht)
  refine (buildsMember_partCollection hparameters fun name p param hp => ?_).bind fun m3 h3 => ?_
  · exact (builds_parameter hp).bind fun type ht => ensures_pure (builtMember_of ht)
  refine (buildsMember_partCollection hbodies fun name p b hb => ?_).bind fun m4 h4 => ?_
  · exact (builds_content hb).bind fun type ht => ensures_pure (builtMember_of ht)
  refine (buildsMember_partCollection hheaders fun name p hd hh => ?_).bind fun m5 h5 => ?_
  · exact (builds_header hh).bind fun type ht => ensures_pure (builtMember_of ht)
  refine pathItems.bind fun m6 h6 => ensures_pure (.closed ?_)
  simp only [List.forall_mem_cons, List.not_mem_nil, false_implies, implies_true, and_true]
  exact ⟨h1, h2, h3, h4, h5, h6⟩

end Typing

end ApiTypes
