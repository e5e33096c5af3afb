/-
# How the alternatives of a document are written

A union keeps one expression of each shape, and what is read of it is its text.  The two agree as
long as all that a shape has is written.  There are two exceptions: the mark on further members
that a record does not have, which the types of schemas carry if the options ask for it and the
records of tags never do, and a reference to the whole document.

* `Document.obeys_of_unionProperty`: what holds of unions in the types of schemas and of content
  holds of all unions in a document.
* `Document.writtenApart_of_typed` is the statement.
* `not_written_apart`: a document in which a union has one alternative twice.
-/
import ApiTypes.Proofs.Document.Building
import ApiTypes.Proofs.Typing.Schemas
import ApiTypes.Proofs.Typing.Unions

namespace ApiTypes

open TypeExpr Typing

/-! ## 1. Entries -/

namespace UnionProperty

variable {env : Environment} {P : TypeExpr → Prop}

/-- The key of an entry is a name, or a pattern of the types of path parameters. -/
theorem routeKey (hp : UnionProperty env P) {kind : RouteKind} {name : String}
    {os : List TypedOperation} (hos : ∀ o ∈ os, o.Obeys P)
    {stretches : List (TemplatePart TypeExpr)}
    (h : routeKey env kind name os = .template stretches) :
    ∀ e, .param e ∈ stretches → Obeys P e := by
  intro e he
  rcases param_of_routeKey h he with rfl | ⟨o, ho, q, hq, rfl⟩
  · exact hp.leaf rfl nofun
  · exact (hos o ho).2 q hq

/-- **The member of an entry and its operations.** -/
theorem entry (hp : UnionProperty env P) {kind : RouteKind} {name : String}
    {part : OrRef PathItem} :
    Ensures (fun x => MemberObeys P x.1 ∧ ∀ o ∈ x.2, o.Obeys P) (entry env kind name part) := by
  refine (ensures_gives _).bind fun ⟨p, item⟩ _ => ?_
  refine hp.operationsOf.bind fun os hos => ?_
  have hshown : ∀ o ∈ os, Obeys P (.operation o.name) := fun o _ => hp.leaf rfl nofun
  refine (hp.pathRecord hshown).bind fun type ht => ?_
  exact ensures_pure ⟨memberObeys_of ht fun _ hkey => hp.routeKey hos hkey, hos⟩

end UnionProperty

/-! ## 2. Documents -/

namespace Document

variable {d : Document} {config : Config} {t : TypedDocument}

/-- **A property of unions goes through a document.** -/
theorem obeys_of_unionProperty {P : TypeExpr → Prop} (ht : d.typed config = .ok t)
    (hp : UnionProperty ⟨config, d.resolver⟩ P) :
    t.Obeys P ∧ ∀ o ∈ t.operations, o.Obeys P := by
  obtain ⟨paths, webhooks, hmade⟩ := of_typed ht
  have hentry : ∀ {kind : RouteKind}, ∀ x ∈ kind.of paths webhooks,
      MemberObeys P x.1 ∧ ∀ o ∈ x.2, o.Obeys P := by
    intro kind x hx
    obtain ⟨name, part, _, hgives⟩ := hmade.exists_part hx
    exact hp.entry x hgives
  have hsection : ∀ kind : RouteKind, TypeExpr.Obeys P (kind.of t.paths t.webhooks) := by
    intro kind
    rw [hmade.sectionRecord]
    exact hp.closed (List.forall_mem_map.mpr fun x hx => (hentry x hx).1)
  have hoperations : ∀ o ∈ t.operations, o.Obeys P := by
    intro o ho
    obtain ⟨x, hx, ho⟩ := List.mem_flatMap.mp (Registry.mem_of_registered hmade.registered ho)
    obtain ⟨kind, hx⟩ := RouteKind.exists_of_mem_append hx
    exact (hentry x hx).2 o ho
  refine ⟨TypedDocument.obeys_iff.mpr ⟨hsection .path, hsection .webhook, ?_, ?_⟩, hoperations⟩
  · exact hp.components _ hmade.components
  · exact fun o ho => (hoperations o ho).1

end Document

/-! ## 3. Alternatives -/

/-- A union in the types of a document is a part of the type of a schema, or of types of schemas
for several media types. -/
theorem unionProperty_schematic (env : Environment) :
    UnionProperty env fun x =>
      ∀ ms, x = union ms → Obeys (Schematic env.config.immutableTypes) x where
  other e h ms hms := absurd hms (h ms)
  schema depth p s e he x hx ms _ := (schematic_schema e he).of_mem hx
  content role p c := by
    unfold Typing.content
    split
    · exact ensures_pure ((obeys_leaf rfl).mpr nofun)
    · split
      · exact ensures_pure ((obeys_leaf rfl).mpr nofun)
      · -- What is put together for several media types are types of schemas, or unknown.
        have hmedia : ∀ e : String × MediaType,
            Ensures (Obeys (Schematic env.config.immutableTypes))
              (mediaType env ((p.child "content").child e.1) e.2) := by
          intro e
          unfold mediaType
          split
          · exact schematic_schema
          · exact ensures_pure ((obeys_leaf rfl).mpr trivial)
        refine (Ensures.mapM fun e _ => hmedia e).bind fun es hes => ?_
        exact ensures_pure fun x hx ms _ => (obeys_schematic_unionOf hes).of_mem hx

/-- **Two alternatives of a union are written alike, comments aside, just if they differ in
nothing that is written**, provided that no node that is referred to has the name of another type.
If the options leave everything mutable and the whole document is not referred to, no two are. -/
theorem Document.writtenApart_of_typed {d : Document} {config : Config} {t : TypedDocument}
    (ht : d.typed config = .ok t) :
    (t.Obeys fun x => ∀ ms, x = union ms → WrittenApart config.immutableTypes ms) ∧
      ∀ o ∈ t.operations,
        o.Obeys fun x => ∀ ms, x = union ms → WrittenApart config.immutableTypes ms := by
  obtain ⟨hdocument, hoperations⟩ := obeys_of_unionProperty ht (unionProperty_schematic _)
  have hunion : ∀ x : TypeExpr,
      (∀ ms, x = union ms → TypeExpr.Obeys (Schematic config.immutableTypes) x) →
      ∀ ms, x = union ms → WrittenApart config.immutableTypes ms := by
    rintro x hx ms rfl
    exact writtenApart_of_schematic (hx ms rfl)
  exact ⟨fun x hx => hunion x (hdocument x hx), fun o ho =>
    ⟨fun x hx => hunion x ((hoperations o ho).1 x hx),
      fun q hq x hx => hunion x ((hoperations o ho).2 q hq x hx)⟩⟩

/-! ## 4. One alternative twice -/

/-- A value that spells a document with two schemas; the one is an alternative of the other, once
with a tag and once with the same property written out. -/
def catsRaw : Json := .object [("openapi", .string "3.1.0"),
  ("components", .object [("schemas", .object [
    ("Cat", .object [("type", .string "object")]),
    ("Pet", .object [
      ("oneOf", .array [
        .object [("$ref", .string "#/components/schemas/Cat")],
        .object [("allOf", .array [
          .object [("$ref", .string "#/components/schemas/Cat")],
          .object [("type", .string "object"),
            ("properties", .object [("kind", .object [("const", .string "cat")])]),
            ("required", .array [.string "kind"])]])]]),
      ("discriminator", .object [("propertyName", .string "kind"),
        ("mapping", .object [("cat", .string "Cat")])])])])])]

/-- The document that the value spells. -/
def catsDocument : Document where
  raw := catsRaw
  spec := {
    openapi := "3.1.0"
    components := some { schemas := some [
      ("Cat", .object [] [] .unsaid {}),
      ("Pet", .composed []
        [.reference "#/components/schemas/Cat" {},
          .composed [.reference "#/components/schemas/Cat" {},
            .object [("kind", .enumerated [.string "cat"] {})] ["kind"] .unsaid {}]
            [] [] none none {}]
        [] (some { property := "kind", mapping := [("cat", "Cat")] }) none {})] } }

/-- The cats of a kind, as a tag or as a schema says it. -/
def catsOfKind (marked : Bool) : TypeExpr :=
  .intersection [.reference ⟨["components", "schemas", "Cat"]⟩,
    .record { members := [.of "kind" (.literal (.string "cat")) false true]
              catchAllReadonly := marked }]

/-- The types of the document, with the mark. -/
def catsTypes : TypedDocument where
  paths := .closed []
  webhooks := .closed []
  components := .closed [
    .of "schemas" (.closed [
      .of "Cat" (.record { members := [], catchAllReadonly := true }) false true,
      .of "Pet" (.union [catsOfKind false, catsOfKind true]) false true]) false true,
    .of "responses" .never false true, .of "parameters" .never false true,
    .of "requestBodies" .never false true, .of "headers" .never false true,
    .of "pathItems" .never false true]
  operations := []
  referenced := [⟨["components", "schemas", "Cat"]⟩]

theorem loaded_catsDocument : catsDocument.Loaded :=
  ⟨catsRaw, Json.uniqueKeys_of_distinct (by cbv), rfl⟩

theorem typed_catsDocument : catsDocument.typed { immutableTypes := true } = .ok catsTypes := by
  cbv

/-- The node that is referred to is called by its section. -/
theorem wellNamed_catsOfKind (marked : Bool) : Obeys WellNamed (catsOfKind marked) := by
  refine (obeys_intersection holds_plain).mpr (List.forall_mem_cons.mpr ⟨?_, ?_⟩)
  · exact obeys_reference.mpr (.inr (by decide))
  · refine List.forall_mem_singleton.mpr (obeys_record.mpr ⟨trivial, ?_, nofun⟩)
    exact List.forall_mem_singleton.mpr ((memberObeys_name rfl).mpr (obeys_literal holds_plain))

/-- Both alternatives stand in the types, and are written alike; a text and null are not. -/
theorem writtenApart_catsTypes :
    (catsDocument.typed { immutableTypes := true } = .ok catsTypes ∧ ∀ level,
      renderAt level (bare (catsOfKind false)) = renderAt level (bare (catsOfKind true))) ∧
    (petsDocument.typed {} = .ok (petsTypes false) ∧ ∀ level,
      renderAt level (bare (primitive .string)) ≠ renderAt level (bare null)) := by
  have hpets : petsDocument.typed {} = .ok (petsTypes false) := by cbv
  refine ⟨⟨typed_catsDocument, fun level => ?_⟩, hpets, fun level => ?_⟩
  · have happlies := (Document.writtenApart_of_typed typed_catsDocument).1
      (.union [catsOfKind false, catsOfKind true]) (List.mem_of_getElem? (i := 5) rfl) _ rfl
    refine (happlies.alike ((obeys_union holds_plain).mpr ?_) _ ?_ _ ?_ level).mpr rfl
    · simp [wellNamed_catsOfKind]
    · exact List.mem_cons_self
    · exact List.mem_cons_of_mem _ List.mem_cons_self
  · have happlies := (Document.writtenApart_of_typed hpets).1
      (.union [.primitive .string, .null]) (List.mem_of_getElem? (i := 9) rfl) _ rfl
    have hapart := happlies.apart rfl <| (obeys_union holds_plain).mpr <| by
      simp [obeys_primitive holds_plain, obeys_null holds_plain]
    exact List.rel_of_pairwise_cons hapart List.mem_cons_self level

/-- **A union may have one alternative twice**: a tag and a schema that says the same differ in a
mark that is not written. -/
theorem not_written_apart : ¬ ∀ (d : Document) (config : Config) (t : TypedDocument),
    d.Loaded → d.typed config = .ok t → t.Obeys fun x => ∀ ms, x = union ms →
      ms.Pairwise fun e f => render (bare e) ≠ render (bare f) := by
  intro hall
  have hobeys := hall _ _ _ loaded_catsDocument typed_catsDocument
  have hmem : .union [catsOfKind false, catsOfKind true] ∈ catsTypes.parts :=
    List.mem_of_getElem? (i := 5) rfl
  refine List.rel_of_pairwise_cons (hobeys _ hmem _ rfl) List.mem_cons_self ?_
  -- The mark that tells them apart is not written.
  have hvisible : visible (bare (catsOfKind false)) = visible (bare (catsOfKind true)) := rfl
  rw [render, render, ← renderAt_visible, ← renderAt_visible 0 (bare _)]
  exact congrArg (renderAt 0) hvisible

end ApiTypes
