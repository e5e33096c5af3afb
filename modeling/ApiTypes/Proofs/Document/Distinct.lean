/-
# Records whose members have names of their own

The records of a document are made from entries, properties, codes and other things that have
names of their own.  The records of parameters are the exception: parameters are known by names
and places together, and the places are lost.  So all records have distinct names just if no
request has two parameters of one name in different places, both declared on the spot.

* `Document.distinct_iff` is the statement.
* `not_distinct_request` is a request that breaks it.
-/
import ApiTypes.Proofs.Document.Parts
import ApiTypes.Proofs.Typing.ParameterNames
import Mathlib

namespace ApiTypes

open TypeExpr Typing

variable {d : Document} {config : Config} {t : TypedDocument} {Q : Pointer → Prop}
  {p : Pointer} {item : PathItem}

/-! ## 1. The records of parameters -/

/-- The member of an entry brings in its path item. -/
theorem Document.Made.obeys_entry {P : TypeExpr → Prop}
    {paths webhooks : List (Member TypeExpr × List TypedOperation)}
    (hmade : d.Made config t paths webhooks) (ht : t.Obeys P)
    {x : Member TypeExpr × List TypedOperation} (hx : x ∈ paths ++ webhooks) :
    MemberObeys P x.1 := by
  obtain ⟨hpaths, hwebhooks, _, _⟩ := TypedDocument.obeys_iff.mp ht
  rw [hmade.pathRecord] at hpaths
  rw [hmade.webhookRecord] at hwebhooks
  rcases List.mem_append.mp hx with hx | hx
  · exact (obeys_closed.mp hpaths).2 _ (List.mem_map.mpr ⟨x, hx, rfl⟩)
  · exact (obeys_closed.mp hwebhooks).2 _ (List.mem_map.mpr ⟨x, hx, rfl⟩)

namespace Document

/-- The lists of parameters of a path item that an entry leads to. -/
theorem lists_of_entry (h : d.Loaded) (ht : d.typed config = .ok t)
    (hobeys : t.Obeys (Holds Q Record.Distinct)) (hstands : d.StandsAt p item) {kind : RouteKind}
    {name : String} (hleads : d.Leads kind name p) :
    ParameterLists ⟨config, d.resolver⟩ (fun es => (inlineNames es).Nodup) p item := by
  obtain ⟨paths, webhooks, hmade⟩ := of_typed ht
  constructor
  · obtain ⟨part, he, hunique⟩ := h.eq_of_itemOf hstands hleads
    obtain ⟨x, hx, hgives⟩ := hmade.exists_entry he
    obtain ⟨y, hy, hgives⟩ := hgives.of_bind
    rw [hunique y hy] at hgives
    obtain ⟨os, _, hgives⟩ := hgives.of_bind
    obtain ⟨type, htype, hgives⟩ := hgives.of_bind
    have hmember := obeys_of_memberObeys (hmade.obeys_entry hobeys (RouteKind.mem_append hx))
    rw [hgives.of_pure] at hmember
    exact (nodup_of_pathRecord htype hmember).2
  · intro o ho es hes
    obtain ⟨s, hs, hmethod, hdescribes⟩ := hmade.exists_described h hstands hleads ho
    obtain ⟨_, _, _, hoperations⟩ := TypedDocument.obeys_iff.mp hobeys
    refine nodup_of_operation hdescribes.gives (hoperations s hs) ?_
    rw [effectiveParameters_site, hmethod]
    exact hes

/-- The lists of parameters of a path item among the components. -/
theorem lists_of_component (ht : d.typed config = .ok t)
    (hobeys : t.Obeys (Holds Q Record.Distinct)) {name : String}
    (hitem : (name, .item item) ∈ (d.spec.components.getD {}).pathItems.getD []) :
    ParameterLists ⟨config, d.resolver⟩ (fun es => (inlineNames es).Nodup)
      (((Pointer.root.child "components").child "pathItems").child name) item := by
  obtain ⟨paths, webhooks, hmade⟩ := of_typed ht
  obtain ⟨_, _, hcomponents, _⟩ := TypedDocument.obeys_iff.mp hobeys
  obtain ⟨m, hm, hmember⟩ := exists_pathItemComponent (P := Holds Q Record.Distinct)
    hmade.components hitem
  obtain ⟨os, hos, hm⟩ := hm.of_bind
  obtain ⟨type, htype, hm⟩ := hm.of_bind
  have hmember := obeys_of_memberObeys (hmember hcomponents)
  rw [hm.of_pure] at hmember
  obtain ⟨hshown, hshared⟩ := nodup_of_pathRecord htype hmember
  refine ⟨hshared, fun o ho es hes => ?_⟩
  obtain ⟨s, hs, hoperation⟩ := exists_of_forall₂ (R := flip _) hos.of_mapM.flip ho
  refine nodup_of_operation hoperation (hshown s hs) ?_
  rw [effectiveParameters_site]
  exact hes

end Document

/-! ## 2. Documents -/

/-- All records that occur in a typed document have members with names of their own. -/
def TypedDocument.Distinct (t : TypedDocument) : Prop :=
  ∀ r, .record r ∈ t.parts → r.names.Nodup

theorem TypedDocument.distinct_iff_obeys :
    t.Distinct ↔ t.Obeys (Holds (fun _ => True) Record.Distinct) := by
  constructor
  · intro h x hx
    cases x with
    | record r => exact h r hx
    | pick group keys => exact fun _ _ => trivial
    | primitive | literal | reference | operation | list | union | intersection | withHeaders
    | never | unknown | void => trivial
  · exact fun h r hr => h _ hr

namespace Document

/-- All records are distinct just if the names that come together in records of parameters are. -/
theorem distinct_iff_nodup (h : d.Loaded) (ht : d.typed config = .ok t) :
    t.Distinct ↔ ∀ p item, d.Visits p item →
      ParameterLists ⟨config, d.resolver⟩ (fun es => (inlineNames es).Nodup) p item := by
  rw [TypedDocument.distinct_iff_obeys]
  constructor
  · rintro hobeys p item (⟨hstands, kind, name, hleads⟩ | ⟨name, hitem, rfl⟩)
    · exact lists_of_entry h ht hobeys hstands hleads
    · exact lists_of_component ht hobeys hitem
  · intro hlists
    have hpermits : Permits ⟨config, d.resolver⟩ (Holds (fun _ => True) Record.Distinct) :=
      permits_holds (fun _ _ => trivial) fun _ hr => hr
    refine obeys_typed hpermits h (fun p item hvisits => ?_) ht fun _ _ => trivial
    exact (hlists p item hvisits).mono fun es => fits_distinct_iff.mpr

/-- **All records in the types of a document have members with names of their own just if no two
parameters that come together in a record have one name in different places.** -/
theorem distinct_iff (h : d.Loaded)
    (hknown : ∀ p item, d.Visits p item → DeclaredLists ⟨config, d.resolver⟩ KnownApart p item)
    (ht : d.typed config = .ok t) :
    t.Distinct ↔ ∀ p item, d.Visits p item →
      ParameterLists ⟨config, d.resolver⟩ NamedApart p item := by
  rw [distinct_iff_nodup h ht]
  refine forall_congr' fun p => forall_congr' fun item => forall_congr' fun hvisits => ?_
  exact (hknown p item hvisits).parameterLists.congr fun es => nodup_inlineNames_iff

end Document

/-! ## 3. A request with one name in two places -/

/-- A parameter in the query, and one in the header. -/
def requestParameters (name : String) : List Parameter :=
  [{ name := "id", place := .query }, { name, place := .header }]

/-- The path item of a request with these parameters. -/
def requestItem (name : String) : PathItem :=
  { get := some { operationId := some "list", parameters := (requestParameters name).map .item } }

/-- A value that spells a document with the request. -/
def requestRaw (name : String) : Json := .object [("openapi", .string "3.1.0"),
  ("paths", .object [("/pets", .object [("get", .object [("operationId", .string "list"),
    ("parameters", .array [
      .object [("name", .string "id"), ("in", .string "query")],
      .object [("name", .string name), ("in", .string "header")]])])])])]

/-- The document that the value spells. -/
def requestDocument (name : String) : Document where
  raw := requestRaw name
  spec := { openapi := "3.1.0", paths := some [("/pets", requestItem name)] }

theorem visits_requestDocument {name : String} (h : (requestDocument name).Loaded)
    (hvisits : (requestDocument name).Visits p item) : item = requestItem name := by
  have hentry : ∀ {kind url part}, (requestDocument name).spec.Entry kind url part →
      kind = .path ∧ part = .item (requestItem name) := by
    intro kind url part he
    cases kind with
    | webhook => cases he
    | path =>
      cases part with
      | ref r => cases he
      | item own =>
        cases List.mem_singleton.mp he
        exact ⟨rfl, rfl⟩
  rcases hvisits with ⟨hstands, kind, url, hleads⟩ | ⟨_, hitem, _⟩
  · rcases hleads with ⟨part, target, _, he, htarget, _⟩ | ⟨rfl, part, he, _⟩
    · rw [(hentry he).2] at htarget
      cases htarget
    · rw [(hentry he).2] at he
      exact hstands.unique (h.standsAt_place he)
  · cases hitem

/-- The parameters in effect, if the list of the parameters stands at a pointer. -/
def requestEffective (base : Pointer) (name : String) : List EffectiveParameter :=
  [{ parameter := { name := "id", place := .query }, pointer := base.item 0 },
    { parameter := { name, place := .header }, pointer := base.item 1 }]

theorem of_requestParameters {env : Environment} {base : Pointer} {name : String}
    {es : List EffectiveParameter}
    (h : Gives (eachItem base (effective env) ((requestParameters name).map .item)) es) :
    es = requestEffective base name :=
  Gives.of_pure h

theorem declaredLists_requestItem {env : Environment} {name : String} :
    DeclaredLists env KnownApart p (requestItem name) := by
  constructor
  · intro es hes
    rw [Gives.of_pure hes]
    exact List.nodup_nil
  · intro o ho es hes
    cases List.mem_singleton.mp ho
    rw [of_requestParameters hes]
    simp [KnownApart, requestEffective, EffectiveParameter.key]

theorem of_effectiveParameters_request {env : Environment} {location : Pointer} {name : String}
    {site : Site} (hsite : site.shared = []) {es : List EffectiveParameter}
    (h : Gives (effectiveParameters env site location
      { operationId := some "list", parameters := (requestParameters name).map .item }) es) :
    es = requestEffective (location.child "parameters") name := by
  obtain ⟨own, hown, h⟩ := h.of_bind
  obtain ⟨shared, hshared, h⟩ := h.of_bind
  rw [hsite] at hshared
  rw [h.of_pure, of_requestParameters hown, Gives.of_pure hshared]
  rfl

/-- Different names keep the records of the request distinct. -/
theorem distinct_request : (requestDocument "trace").Loaded ∧
    (∀ p item, (requestDocument "trace").Visits p item →
      DeclaredLists ⟨{}, (requestDocument "trace").resolver⟩ KnownApart p item) ∧
    ∃ t, (requestDocument "trace").typed {} = .ok t ∧ t.Distinct := by
  have hloaded : (requestDocument "trace").Loaded :=
    ⟨requestRaw _, Json.uniqueKeys_of_distinct (by cbv), by cbv⟩
  obtain ⟨t, ht⟩ : ∃ t, (requestDocument "trace").typed {} = .ok t := ⟨_, by cbv⟩
  have hknown : ∀ p item, (requestDocument "trace").Visits p item →
      DeclaredLists ⟨{}, (requestDocument "trace").resolver⟩ KnownApart p item := by
    intro p item hvisits
    rw [visits_requestDocument hloaded hvisits]
    exact declaredLists_requestItem
  refine ⟨hloaded, hknown, t, ht, (Document.distinct_iff hloaded hknown ht).mpr ?_⟩
  intro p item hvisits
  rw [visits_requestDocument hloaded hvisits]
  constructor
  · intro es hes
    rw [Gives.of_pure hes]
    exact fun a ha => absurd ha List.not_mem_nil
  · intro o ho es hes
    cases List.mem_singleton.mp ho
    rw [of_effectiveParameters_request rfl hes]
    simp [NamedApart, requestEffective]

/-- **One name in two places breaks the record of the parameters**, though each list of parameters
has no parameter twice. -/
theorem not_distinct_request : ¬ ∀ (d : Document) (config : Config) (t : TypedDocument),
    d.Loaded → config.pathParamsAsTypes = false →
    (∀ p item, d.Visits p item → DeclaredLists ⟨config, d.resolver⟩ KnownApart p item) →
    d.typed config = .ok t → t.Distinct := by
  intro hall
  have hloaded : (requestDocument "id").Loaded :=
    ⟨requestRaw _, Json.uniqueKeys_of_distinct (by cbv), by cbv⟩
  obtain ⟨t, ht⟩ : ∃ t, (requestDocument "id").typed {} = .ok t := ⟨_, by cbv⟩
  have hdistinct := hall _ _ t hloaded rfl (fun p item hvisits => by
    rw [visits_requestDocument hloaded hvisits]
    exact declaredLists_requestItem) ht
  have hentry : (requestDocument "id").spec.Entry .path "/pets" (.item (requestItem "id")) :=
    List.mem_singleton_self _
  have hlists := (Document.distinct_iff_nodup hloaded ht).mp hdistinct _ _
    (Or.inl ⟨hloaded.standsAt_place hentry, .path, "/pets", Or.inr ⟨rfl, _, hentry, rfl⟩⟩)
  have hnames := hlists.operations _ (List.mem_singleton_self _) _ ⟨[], [], rfl⟩
  exact absurd hnames (by decide)

end ApiTypes
