/-
# Levels of schemas in documents

How many levels the options allow decides whether a document has types, and nothing else: a document
that has types keeps them if more levels are allowed.

* `Typing.persists_spec`: the typing of a description persists if more levels are allowed.
* `Document.typed_of_deeper`: so do the types of a document.
* `typed_iff_levels`: which schemas have a type at all, what is wrong with the others, and that the
  levels which are entered are left again.
-/
import ApiTypes.Proofs.Document.Building
import ApiTypes.Proofs.Typing.Counter
import ApiTypes.Proofs.Typing.Deeper
import ApiTypes.Proofs.Typing.Levels

namespace ApiTypes

namespace Typing

variable {α : Type} {env : Environment} {m : Nat}

/-! ## 1. Path items -/

theorem persists_operationsOf (hm : env.config.maxDepth ≤ m) {kind : RouteKind} {path : String}
    {p : Pointer} {item : PathItem} :
    Persists (operationsOf env kind path p item) (operationsOf (env.deeper m) kind path p item) :=
  .mapM fun _ _ => persists_operation hm

theorem persists_pathRecord (hm : env.config.maxDepth ≤ m) {p : Pointer} {item : PathItem}
    {os : List TypedOperation} {shown : TypedOperation → TypeExpr} :
    Persists (pathRecord env p item os shown) (pathRecord (env.deeper m) p item os shown) := by
  unfold pathRecord
  dsimp only
  split
  · exact .refl _
  · exact (persists_sharedParameters hm).bind_same

theorem persists_route (hm : env.config.maxDepth ≤ m) {kind : RouteKind} {name : String}
    {p : Pointer} {item : PathItem} {keyOf : List TypedOperation → MemberKey TypeExpr}
    {registry : Registry} :
    Persists (route env kind name p item keyOf registry)
      (route (env.deeper m) kind name p item keyOf registry) := by
  refine (persists_operationsOf hm).bind fun os => ?_
  exact (persists_pathRecord hm).bind_same

theorem persists_path (hm : env.config.maxDepth ≤ m) {url : String} {p : Pointer}
    {item : PathItem} {registry : Registry} :
    Persists (path env url p item registry) (path (env.deeper m) url p item registry) :=
  (Persists.refl (followed env p item)).bind fun _ => persists_route hm

theorem persists_webhook (hm : env.config.maxDepth ≤ m) {name : String} {p : Pointer}
    {source : OrRef PathItem} {registry : Registry} :
    Persists (webhook env name p source registry)
      (webhook (env.deeper m) name p source registry) := by
  cases source with
  | ref r => exact (Persists.refl (pathItemAt env r.target p)).bind fun _ => persists_route hm
  | item item => exact (Persists.refl (followed env p item)).bind fun _ => persists_route hm

theorem persists_routes {type type' : String → Pointer → α → Registry →
      Typing (Member TypeExpr × Registry)} {base : Pointer}
    (h : ∀ name p part registry, Persists (type name p part registry) (type' name p part registry))
    (entries : List (String × α)) (registry : Registry) :
    Persists (routes type base entries registry) (routes type' base entries registry) := by
  induction entries generalizing registry with
  | nil => exact .refl _
  | cons e rest ih => exact (h _ _ _ _).bind fun _ => (ih _).bind_same

theorem persists_sectionOf {name : String} {type type' : String → Pointer → α → Registry →
      Typing (Member TypeExpr × Registry)} {entries : Option (List (String × α))}
    {registry : Registry}
    (h : ∀ name p part registry,
      Persists (type name p part registry) (type' name p part registry)) :
    Persists (sectionOf env name type entries registry)
      (sectionOf (env.deeper m) name type' entries registry) :=
  (persists_routes h _ _).bind_same

/-! ## 2. Components -/

theorem persists_collection {name : String} {type type' : String → Pointer → α →
      Typing (Member TypeExpr)} {entries : Option (List (String × α))}
    (h : ∀ name p part, Persists (type name p part) (type' name p part)) :
    Persists (collection env name type entries) (collection (env.deeper m) name type' entries) := by
  cases entries with
  | none => exact .refl _
  | some entries => exact (persists_eachNamed h).bind_same

theorem persists_componentOrRef {type type' : String → Pointer → α → Typing (Member TypeExpr)}
    (h : ∀ name p part, Persists (type name p part) (type' name p part)) (name : String)
    (p : Pointer) (part : OrRef α) :
    Persists (componentOrRef env type name p part)
      (componentOrRef (env.deeper m) type' name p part) := by
  cases part with
  | ref r => exact .refl _
  | item part => exact h name p part

theorem persists_pathItemComponent (hm : env.config.maxDepth ≤ m) (name : String) (p : Pointer)
    (item : PathItem) :
    Persists (pathItemComponent env name p item)
      (pathItemComponent (env.deeper m) name p item) := by
  refine (persists_operationsOf hm).bind fun os => ?_
  exact (persists_pathRecord hm).bind_same

theorem persists_components (hm : env.config.maxDepth ≤ m) (c : Components) :
    Persists (components env c) (components (env.deeper m) c) := by
  have hschemas (name : String) (p : Pointer) (s : Schema) :
      Persists (schemaComponent env name p s) (schemaComponent (env.deeper m) name p s) :=
    (persists_schema hm s).bind_same
  have hresponses (name : String) (p : Pointer) (r : Response) :
      Persists (responseComponent env name p r) (responseComponent (env.deeper m) name p r) :=
    (persists_response hm).bind_same
  have hparameters (name : String) (p : Pointer) (param : Parameter) :
      Persists (parameterComponent env name p param)
        (parameterComponent (env.deeper m) name p param) :=
    (persists_parameter hm).bind_same
  have hbodies (name : String) (p : Pointer) (b : RequestBody) :
      Persists (bodyComponent env name p b) (bodyComponent (env.deeper m) name p b) :=
    (persists_requestBody hm).bind_same
  have hheaders (name : String) (p : Pointer) (h : Header) :
      Persists (headerComponent env name p h) (headerComponent (env.deeper m) name p h) :=
    (persists_header hm).bind_same
  refine (persists_collection hschemas).bind fun _ => ?_
  refine (persists_collection (persists_componentOrRef hresponses)).bind fun _ => ?_
  refine (persists_collection (persists_componentOrRef hparameters)).bind fun _ => ?_
  refine (persists_collection (persists_componentOrRef hbodies)).bind fun _ => ?_
  refine (persists_collection (persists_componentOrRef hheaders)).bind fun _ => ?_
  exact (persists_collection (persists_componentOrRef (persists_pathItemComponent hm))).bind_same

/-! ## 3. Documents -/

theorem persists_spec (hm : env.config.maxDepth ≤ m) (s : Spec) :
    Persists (spec env s) (spec (env.deeper m) s) := by
  refine (persists_sectionOf fun _ _ _ _ => persists_path hm).bind fun _ => ?_
  refine (persists_sectionOf fun _ _ _ _ => persists_webhook hm).bind fun _ => ?_
  exact (persists_components hm _).bind_same

end Typing

namespace Document

/-- **A document keeps its types if more levels are allowed.** -/
theorem typed_of_deeper {d : Document} {config : Config} {m : Nat} {t : TypedDocument}
    (hm : config.maxDepth ≤ m) (h : d.typed config = .ok t) :
    d.typed { config with maxDepth := m } = .ok t := by
  unfold typed at h ⊢
  cases hrun : Typing.run (Typing.spec ⟨config, d.resolver⟩ d.spec) with
  | mk result refs =>
    rw [hrun] at h
    cases result with
    | error e => cases h
    | ok parts =>
      have hdeeper : Typing.run (Typing.spec ⟨{ config with maxDepth := m }, d.resolver⟩ d.spec) =
          (.ok parts, refs) :=
        (show Typing.Persists (Typing.spec ⟨config, d.resolver⟩ d.spec) _ from
          Typing.persists_spec hm d.spec) [] parts refs hrun
      rw [hdeeper]
      exact h

end Document

/-! ## 4. Levels that suffice -/

/-- **When levels suffice.**  A schema is typed just if the references in it resolve and the levels
below its depth are as many as it is high; otherwise the fault is that of the first schema met in it
that has one.  A run that keeps the depth itself does the same and ends at the depth at which it
began.  A document with types keeps them if more levels are allowed. -/
theorem typed_iff_levels :
    (∀ (env : Environment) (depth : Nat) (p : Pointer) (s : Schema) (refs : List Pointer),
      ((∃ type refs', ExceptT.run (Typing.schema env depth p s) refs = (.ok type, refs')) ↔
        (∀ target, s.RefersTo target → ∃ q, env.resolver.canonical target .root = .ok q) ∧
          depth + s.height ≤ env.config.maxDepth) ∧
      (∀ e refs', ExceptT.run (Typing.schema env depth p s) refs = (.error e, refs') →
        (s.visits env.resolver.self depth p).findSome? (Visit.fault? env) = some e) ∧
      ExceptT.run (Counting.schema env p s) ⟨depth, refs⟩ =
        ((ExceptT.run (Typing.schema env depth p s) refs).1,
          ⟨depth, (ExceptT.run (Typing.schema env depth p s) refs).2⟩)) ∧
    ∀ (d : Document) (config : Config) (t : TypedDocument) (m : Nat),
      d.typed config = .ok t → config.maxDepth ≤ m →
        d.typed { config with maxDepth := m } = .ok t := by
  refine ⟨fun env depth p s refs => ⟨?_, ?_, Counting.tracks_schema s depth refs⟩,
    fun d config t m h hm => Document.typed_of_deeper hm h⟩
  · rw [← Schema.faultless_iff p, ← Typing.through_schema s refs]
    cases hrun : ExceptT.run (Typing.schema env depth p s) refs with
    | mk result refs' =>
      cases result with
      | ok type => exact iff_of_true ⟨type, refs', rfl⟩ rfl
      | error e => exact iff_of_false (by rintro ⟨_, _, h⟩; cases h) nofun
  · intro e refs' hrun
    rw [← Typing.through_schema s refs, hrun]
    rfl

/-- A union of a list of lists and of a reference that leads nowhere, which comes first by its
tag. -/
def strayUnion : Schema :=
  .composed [] [.array (some (.array none none none {})) none none {}, .reference "#/stray" {}] []
    (some ⟨"kind", [("stray", "#/stray")]⟩) none {}

/-- Two levels are too few for the union, but its reference is met first; three levels are enough
for the document. -/
theorem typed_iff_levels_stray :
    (strayUnion.visits none 0 .root).findSome? (Visit.fault? ⟨{ maxDepth := 2 }, ⟨.null, none⟩⟩) =
        some (.unresolvable "#/stray" ⟨["oneOf", "1"]⟩) ∧
      petsDocument.typed { maxDepth := 256 } = .ok (petsTypes false) := by
  constructor
  · exact (typed_iff_levels.1 ⟨{ maxDepth := 2 }, ⟨.null, none⟩⟩ 0 .root strayUnion []).2.1 _ []
      (by cbv)
  · exact typed_iff_levels.2 petsDocument { maxDepth := 3 } (petsTypes false) 256 (by cbv)
      (by decide)

end ApiTypes
