/-
# The types of a document are built

Every type in a document is made by the operations of `TypeExpr.Built`, with the one mark that the
options ask for.  So everything that occurs in the types is in normal form, and everything is
read-only or nothing is, but for the members whose own schemas are.

* `Document.HasSchema`: the schemas of a document at any depth; `Document.NamesSchema`: those that
  have a name, as properties of objects or among the components.
* `Document.built_typed` puts the steps together.
* `Document.normal_of_typed` and `Document.marked_of_typed` are what follows.
-/
import ApiTypes.Proofs.Document.Parts
import ApiTypes.Proofs.Typing.OperationBuilding
import Mathlib

namespace ApiTypes

open TypeExpr Typing

/-! ## 1. The schemas of a document -/

/-- The path items that are typed: those that stand in the place of an entry, those that an entry
refers to, and those among the components. -/
inductive Document.HasPathItem (d : Document) (item : PathItem) : Prop
  | entry {kind : RouteKind} {name : String} (h : d.spec.Entry kind name (.item item))
      (own : item.reference = none)
  | followed {kind : RouteKind} {name target : String} {part : OrRef PathItem} {p : Pointer}
      (h : d.spec.Entry kind name part) (reference : part.pathTarget? = some target)
      (leads : d.resolver.resolveAs Decode.pathItem target (kind.place name) = .ok (p, item))
  | component {name : String}
      (h : (name, .item item) ∈ (d.spec.components.getD {}).pathItems.getD [])

/-- **The schemas of a document**: those of the components, those of the bodies and responses of
path items, those of their parameters, which may be references, and the schemas in them. -/
inductive Document.HasSchema (d : Document) : Schema → Prop
  | component {s : Schema} (h : s ∈ (d.spec.components.getD {}).schemaParts) : HasSchema d s
  | payload {s : Schema} {item : PathItem} (h : d.HasPathItem item) (hs : s ∈ item.schemaParts) :
      HasSchema d s
  | parameter {s : Schema} {item : PathItem} {param : Parameter} (h : d.HasPathItem item)
      (hp : .item param ∈ item.parameterParts) (hs : s ∈ param.schemaParts) : HasSchema d s
  | followed {s : Schema} {item : PathItem} {ref : RefObject} {location p : Pointer}
      {param : Parameter} (h : d.HasPathItem item) (hp : .ref ref ∈ item.parameterParts)
      (leads : d.resolver.resolveAs Decode.parameter ref.target location = .ok (p, param))
      (hs : s ∈ param.schemaParts) : HasSchema d s
  | inner {S s : Schema} (h : HasSchema d S) (hs : s ∈ S.inner) : HasSchema d s

/-- A schema of a document that has a name: a property of an object, or a component. -/
inductive Document.NamesSchema (d : Document) (name : String) (s : Schema) : Prop
  | property {properties : List (String × Schema)} {required : List String}
      {additional : Additional Schema} {traits : Traits}
      (h : d.HasSchema (.object properties required additional traits))
      (hs : (name, s) ∈ properties)
  | component (hs : (name, s) ∈ (d.spec.components.getD {}).schemas.getD [])

namespace Document

/-- The schemas of a document, as the sources of its types. -/
def sources (d : Document) : Sources where
  Has := d.HasSchema
  Names := d.NamesSchema
  inner := .inner
  property := .property

variable {d : Document} {config : Config} {t : TypedDocument}

theorem HasPathItem.sources {item : PathItem} (h : d.HasPathItem item) :
    d.sources.HasPathItem d.resolver item := by
  refine ⟨fun s hs => .payload h hs, fun part hpart => ?_⟩
  cases part with
  | item param => exact fun s hs => .parameter h hpart hs
  | ref r => exact fun location p param hparam s hs => .followed h hpart hparam hs

theorem hasPathItem_of_itemOf {kind : RouteKind} {name : String} {part : OrRef PathItem}
    (h : d.spec.Entry kind name part) :
    Ensures (fun x => d.HasPathItem x.2) (itemOf ⟨config, d.resolver⟩ (kind.place name) part) := by
  have hfollowed : ∀ target, part.pathTarget? = some target →
      Ensures (fun x => d.HasPathItem x.2)
        (pathItemAt ⟨config, d.resolver⟩ target (kind.place name)) := fun target ht =>
    (ensures_gives _).bind fun _ _ => ensures_lift fun x hx => .followed h ht hx
  cases part with
  | ref r => exact hfollowed r.target rfl
  | item own =>
    change Ensures _ (Typing.followed _ _ own)
    unfold Typing.followed
    split
    · rename_i target ht
      exact hfollowed target ht
    · rename_i hown
      exact ensures_pure (HasPathItem.entry h hown)

/-! ## 2. Entries -/

/-- The key of an entry is a name, or a pattern of the types of path parameters. -/
theorem builds_routeKey {src : Sources} {env : Environment} {kind : RouteKind} {name : String}
    {os : List TypedOperation} (hos : ∀ o ∈ os, src.BuildsOperation env o)
    {stretches : List (TemplatePart TypeExpr)}
    (h : routeKey env kind name os = .template stretches) :
    ∀ e, .param e ∈ stretches → src.Builds env e := by
  intro e he
  rcases param_of_routeKey h he with rfl | ⟨o, ho, q, hq, rfl⟩
  · exact .primitive _
  · exact (hos o ho).pathParams q hq

/-- **The member of an entry and its operations are built.** -/
theorem builds_entry {kind : RouteKind} {name : String} {part : OrRef PathItem}
    (h : d.spec.Entry kind name part) :
    Ensures (fun x => d.sources.BuildsMember ⟨config, d.resolver⟩ x.1 ∧
        ∀ o ∈ x.2, d.sources.BuildsOperation ⟨config, d.resolver⟩ o)
      (entry ⟨config, d.resolver⟩ kind name part) := by
  refine (hasPathItem_of_itemOf h).bind fun ⟨p, item⟩ hitem => ?_
  have hsources : d.sources.HasPathItem d.resolver item := hitem.sources
  refine (builds_operationsOf hsources).bind fun os hos => ?_
  refine (builds_pathRecord hsources fun o _ => .operation o.name).bind fun type ht => ?_
  exact ensures_pure ⟨⟨Or.inl rfl, ht, fun stretches hkey => builds_routeKey hos hkey⟩, hos⟩

/-! ## 3. Documents -/

/-- The entries of a section. -/
theorem Made.builds_entries {paths webhooks : List (Member TypeExpr × List TypedOperation)}
    (hmade : d.Made config t paths webhooks) {kind : RouteKind}
    {x : Member TypeExpr × List TypedOperation} (hx : x ∈ kind.of paths webhooks) :
    d.sources.BuildsMember ⟨config, d.resolver⟩ x.1 ∧
      ∀ o ∈ x.2, d.sources.BuildsOperation ⟨config, d.resolver⟩ o := by
  obtain ⟨name, part, he, hgives⟩ := hmade.exists_part hx
  exact builds_entry he x hgives

theorem Made.builds_section {paths webhooks : List (Member TypeExpr × List TypedOperation)}
    (hmade : d.Made config t paths webhooks) (kind : RouteKind) :
    d.sources.Builds ⟨config, d.resolver⟩ (kind.of t.paths t.webhooks) := by
  rw [hmade.sectionRecord]
  refine .closed (List.forall_mem_map.mpr fun x hx => ?_)
  exact (hmade.builds_entries hx).1

theorem Made.builds_components {paths webhooks : List (Member TypeExpr × List TypedOperation)}
    (hmade : d.Made config t paths webhooks) :
    d.sources.Builds ⟨config, d.resolver⟩ t.components := by
  have hitems : ∀ e ∈ (d.spec.components.getD {}).pathItems.getD [], ∀ item, e.2 = .item item →
      d.sources.HasPathItem d.resolver item := by
    rintro ⟨name, part⟩ he item rfl
    exact (HasPathItem.component he).sources
  exact Typing.builds_components (fun s hs => HasSchema.component hs)
    (fun e he => NamesSchema.component he) hitems t.components hmade.components

theorem Made.builds_operations {paths webhooks : List (Member TypeExpr × List TypedOperation)}
    (hmade : d.Made config t paths webhooks) :
    ∀ o ∈ t.operations, d.sources.BuildsOperation ⟨config, d.resolver⟩ o := by
  intro o ho
  obtain ⟨x, hx, ho⟩ := List.mem_flatMap.mp (Registry.mem_of_registered hmade.registered ho)
  obtain ⟨kind, hx⟩ := RouteKind.exists_of_mem_append hx
  exact (hmade.builds_entries hx).2 o ho

/-- **The types of a document are built**, so everything that occurs in them is normal and
marked. -/
theorem built_typed (ht : d.typed config = .ok t) {P : TypeExpr → Prop}
    (hP : ∀ x, Normal x →
      Marked config.immutableTypes (d.sources.SetsReadOnly ⟨config, d.resolver⟩) x → P x) :
    t.Obeys P ∧ ∀ o ∈ t.operations, o.Obeys P := by
  obtain ⟨paths, webhooks, hmade⟩ := of_typed ht
  have hobeys : ∀ {e}, d.sources.Builds ⟨config, d.resolver⟩ e → TypeExpr.Obeys P e :=
    fun h x hx => hP x (h.obeys x hx).1 (h.obeys x hx).2
  have hoperations := hmade.builds_operations
  refine ⟨TypedDocument.obeys_iff.mpr ⟨?_, ?_, ?_, fun o ho => ?_⟩,
    fun o ho => ⟨?_, fun q hq => ?_⟩⟩
  · exact hobeys (hmade.builds_section .path)
  · exact hobeys (hmade.builds_section .webhook)
  · exact hobeys hmade.builds_components
  · exact hobeys (hoperations o ho).type
  · exact hobeys (hoperations o ho).type
  · exact hobeys ((hoperations o ho).pathParams q hq)

end Document

/-! ## 4. Normal forms and marks -/

/-- A value that spells a document with a parameter and with a schema that has a read-only property
and a list of texts or null. -/
def petsRaw : Json := .object [("openapi", .string "3.1.0"),
  ("paths", .object [("/pets", .object [("get", .object [("operationId", .string "list"),
    ("parameters", .array [.object [("name", .string "limit"), ("in", .string "query"),
      ("schema", .object [("type", .string "integer")])]])])])]),
  ("components", .object [("schemas", .object [("Pet", .object [("type", .string "object"),
    ("properties", .object [
      ("id", .object [("type", .string "string"), ("readOnly", .bool true)]),
      ("tags", .object [("type", .string "array"), ("items", .object [
        ("type", .array [.string "string", .string "null"])])])])])])])]

/-- The document that the value spells. -/
def petsDocument : Document where
  raw := petsRaw
  spec := {
    openapi := "3.1.0"
    paths := some [("/pets", { get := some {
      operationId := some "list"
      parameters := [.item {
        name := "limit", place := .query, schema := some (.scalar [.integer] {}) }] } })]
    components := some { schemas := some [("Pet", .object
      [("id", .scalar [.string] { readOnly := true }),
        ("tags", .array (some (.scalar [.string] { nullable := true })) none none {})]
      [] .unsaid {})] } }

theorem loaded_petsDocument : petsDocument.Loaded :=
  ⟨petsRaw, Json.uniqueKeys_of_distinct (by cbv), by cbv⟩

/-- The types of the document, with a mark. -/
def petsTypes (readonly : Bool) : TypedDocument where
  paths := .closed [
    .of "/pets" (.closed [.of "get" (.operation "list") false readonly]) false readonly]
  webhooks := .closed []
  components := .closed [
    .of "schemas" (.closed [.of "Pet" (.record {
      members := [
        .of "id" (.primitive .string) true true,
        .of "tags" (.list (.union [.primitive .string, .null]) .unbounded readonly) true readonly]
      catchAllReadonly := readonly }) false readonly]) false readonly,
    .of "responses" .never false readonly, .of "parameters" .never false readonly,
    .of "requestBodies" .never false readonly, .of "headers" .never false readonly,
    .of "pathItems" .never false readonly]
  operations := [{
    name := "list", location := ⟨["paths", "/pets", "get"]⟩, kind := .path, method := .get
    path := "/pets", tags := [], pathParams := [], headerParams := [], cookieParams := []
    doc := none
    type := .closed [
      .of "parameters" (.closed [.of "limit" (.primitive .number) true readonly]) false readonly,
      .of "content" .void false readonly, .of "responses" (.closed []) false readonly,
      .of "exceptions" (.closed []) false readonly] }]
  referenced := []

namespace Document

variable {d : Document} {config : Config} {t : TypedDocument}

/-- **Everything that occurs in the types of a document is in normal form**, in the types of path
parameters too. -/
theorem normal_of_typed (ht : d.typed config = .ok t) :
    t.Obeys Normal ∧ ∀ o ∈ t.operations, o.Obeys Normal :=
  built_typed ht fun _ h _ => h

/-- The list of texts or null is normal. -/
theorem normal_petsTypes : petsDocument.Loaded ∧ petsDocument.typed {} = .ok (petsTypes false) ∧
    (petsTypes false).Obeys Normal ∧ ∀ o ∈ (petsTypes false).operations, o.Obeys Normal := by
  have htyped : petsDocument.typed {} = .ok (petsTypes false) := by cbv
  exact ⟨loaded_petsDocument, htyped, normal_of_typed htyped⟩

/-- **If the options ask for it, every member, every list and every catch-all is read-only.**  If
they do not, no list and no catch-all is, and a member only if its own schema is, which is a
property of an object or a component. -/
theorem marked_of_typed (ht : d.typed config = .ok t) :
    (config.immutableTypes = true →
      t.Obeys (Marked true fun _ => False) ∧
        ∀ o ∈ t.operations, o.Obeys (Marked true fun _ => False)) ∧
    (config.immutableTypes = false →
      t.Obeys (Marked false (d.sources.SetsReadOnly ⟨config, d.resolver⟩)) ∧
        ∀ o ∈ t.operations,
          o.Obeys (Marked false (d.sources.SetsReadOnly ⟨config, d.resolver⟩))) := by
  constructor
  · intro hconfig
    refine built_typed ht fun x _ h => ?_
    rw [hconfig] at h
    exact h.all fun m hm => hm.readonly
  · intro hconfig
    refine built_typed ht fun x _ h => ?_
    rwa [hconfig] at h

/-- With and without the option the read-only property is, and without it nothing else. -/
theorem marked_petsTypes :
    (petsDocument.typed { immutableTypes := true } = .ok (petsTypes true) ∧
      (petsTypes true).Obeys (Marked true fun _ => False)) ∧
    (petsDocument.typed {} = .ok (petsTypes false) ∧
      (petsTypes false).Obeys
        (Marked false (petsDocument.sources.SetsReadOnly ⟨{}, petsDocument.resolver⟩))) := by
  have hmarked : petsDocument.typed { immutableTypes := true } = .ok (petsTypes true) := by cbv
  have hplain : petsDocument.typed {} = .ok (petsTypes false) := by cbv
  exact ⟨⟨hmarked, ((marked_of_typed hmarked).1 rfl).1⟩, hplain, ((marked_of_typed hplain).2 rfl).1⟩

end Document

end ApiTypes
