/-
# The operations of a document

The records of the paths and of the webhooks name operations, and the registry has the operations
themselves.  The two belong together: what is named is registered, what is registered is named,
and every operation that an entry leads to is both, with the type that it has in its place.  A name
stands for one location; a document with two locations of one name has no types.

* `Document.Declares` says that an operation of a name stands at a location.
* `TypedDocument.Shows` says that the record of a section names an operation under an entry.
* `Document.Registers` puts together what holds of a typed document, and
  `Document.registers_of_loaded` is the statement.
-/
import ApiTypes.Proofs.Document.Faults
import ApiTypes.Proofs.Document.Order
import ApiTypes.Proofs.Document.Parts

namespace ApiTypes

open TypeExpr Typing

/-! ## 1. Declared and shown operations -/

/-- The name of an operation of a path item for an entry that leads to it. -/
def operationKey (kind : RouteKind) (path : String) (p : Pointer) (item : PathItem)
    (o : Method × Operation) : String :=
  operationName ⟨kind, path, p, item.parameters⟩ o.1 o.2

/-- An operation of a name stands at a location, in a path item that an entry leads to. -/
def Document.Declares (d : Document) (name : String) (location : Pointer) : Prop :=
  ∃ kind path p item o, d.Leads kind path p ∧ d.StandsAt p item ∧ o ∈ item.operations ∧
    operationKey kind path p item o = name ∧ p.child o.1.name = location

/-- The record of a section has an entry, and there an operation of a name under a method. -/
def TypedDocument.Shows (t : TypedDocument) (env : Environment) (kind : RouteKind) (path : String)
    (method : Method) (name : String) : Prop :=
  ∃ ms, kind.of t.paths t.webhooks = .closed ms ∧
    ∃ m ∈ ms, (∃ os, m.key = routeKey env kind path os) ∧
      ∃ r, m.type = .record r ∧ ∃ m' ∈ r.members, m'.key = .name method.name ∧
        m'.type = .operation name

/-- The types in a document beside the records of its paths and webhooks. -/
def TypedDocument.innerTypes (t : TypedDocument) : List TypeExpr :=
  t.components :: t.operations.flatMap fun o => o.type :: o.pathParams.map Prod.snd

/-- The operations that a typed document names are those that it has registered, and those that
its entries lead to. -/
structure Document.Registers (d : Document) (config : Config) (t : TypedDocument) : Prop where
  /-- Operations are named in the records of the paths and of the webhooks only. -/
  inner : ∀ e ∈ t.innerTypes, ∀ name, .operation name ∉ e.parts
  /-- What is named is registered under its name. -/
  registered : ∀ name, (∃ kind : RouteKind, .operation name ∈ (kind.of t.paths t.webhooks).parts) →
    ∃ o, t.operations.find? name = some o ∧ o.name = name
  /-- What is registered is named. -/
  named : ∀ o ∈ t.operations, ∃ kind : RouteKind,
    .operation o.name ∈ (kind.of t.paths t.webhooks).parts
  /-- What is registered is declared. -/
  declared : ∀ o ∈ t.operations, d.Declares o.name o.location
  /-- Every entry leads to a path item. -/
  leads : ∀ kind path part, d.spec.Entry kind path part →
    ∃ p item, d.Leads kind path p ∧ d.StandsAt p item
  /-- Every operation that an entry leads to is named under the entry, and registered with its
  location and its type; only the entry for which it is registered may be another one. -/
  shown : ∀ kind path p item, d.Leads kind path p → d.StandsAt p item → ∀ o ∈ item.operations,
    t.Shows ⟨config, d.resolver⟩ kind path o.1 (operationKey kind path p item o) ∧
      ∃ known typed, t.operations.find? (operationKey kind path p item o) = some known ∧
        Gives (operation ⟨config, d.resolver⟩ ⟨kind, path, p, item.parameters⟩ o.1 o.2) typed ∧
        typed.location = p.child o.1.name ∧
        known = { typed with kind := known.kind, path := known.path }
  /-- No name is registered twice. -/
  nodup : (t.operations.map (·.name)).Nodup
  /-- Operations of one name stand in one place. -/
  location : ∀ name p q, d.Declares name p → d.Declares name q → p = q

/-! ## 2. Operations in the records -/

/-- Where an expression is an operation, its name has a property. -/
def OperationsIn (N : String → Prop) (x : TypeExpr) : Prop := ∀ name, x = .operation name → N name

/-- Only the entries of the sections name operations. -/
theorem permits_operationsIn {env : Environment} (N : String → Prop) :
    Permits env (OperationsIn N) where
  reference _ _ _ h := by cases h
  pick _ _ _ _ h := by cases h
  record _ _ _ h := by cases h
  plain _ hplain _ heq := by
    subst heq
    exact hplain.elim

theorem lists_operationsIn {env : Environment} {N : String → Prop} {p : Pointer}
    {item : PathItem} : ParameterLists env (Fits (OperationsIn N)) p item where
  shared _ _ _ _ _ h := by cases h
  operations _ _ _ _ _ _ _ h := by cases h

/-- What a section shows occurs in its record. -/
theorem TypedDocument.Shows.mem_parts {t : TypedDocument} {env : Environment} {kind : RouteKind}
    {path name : String} {method : Method} (h : t.Shows env kind path method name) :
    .operation name ∈ (kind.of t.paths t.webhooks).parts := by
  obtain ⟨ms, hsection, m, hm, _, r, htype, m', hm', _, htype'⟩ := h
  by_contra hno
  have hobeys : TypeExpr.Obeys (· ≠ .operation name) (.closed ms) := by
    rintro x hx rfl
    exact hno (hsection ▸ hx)
  have hentry := obeys_of_memberObeys ((obeys_closed.mp hobeys).2 m hm)
  rw [htype] at hentry
  have hmember := obeys_of_memberObeys ((obeys_record.mp hentry).2.1 m' hm')
  rw [htype'] at hmember
  exact TypeExpr.obeys_operation.mp hmember rfl

namespace Document

variable {d : Document} {config : Config} {t : TypedDocument}
  {paths webhooks : List (Member TypeExpr × List TypedOperation)} {kind : RouteKind}
  {path : String}

/-- The member of a typed entry names its operations. -/
theorem Made.shows (hmade : d.Made config t paths webhooks) {part : OrRef PathItem}
    {x : Member TypeExpr × List TypedOperation} (hx : x ∈ kind.of paths webhooks)
    (hgives : Gives (entry ⟨config, d.resolver⟩ kind path part) x) {o : TypedOperation}
    (ho : o ∈ x.2) : t.Shows ⟨config, d.resolver⟩ kind path o.method o.name := by
  refine ⟨_, hmade.sectionRecord, x.1, List.mem_map.mpr ⟨x, hx, rfl⟩, key_of_entry hgives, ?_⟩
  obtain ⟨⟨p, item⟩, _, hgives⟩ := hgives.of_bind
  obtain ⟨os, _, hgives⟩ := hgives.of_bind
  obtain ⟨type, htype, hgives⟩ := hgives.of_bind
  rw [hgives.of_pure] at ho ⊢
  have hmember : memberFor ⟨config, d.resolver⟩ (.name o.method.name) (.operation o.name) o.doc ∈
      os.map fun o => memberFor ⟨config, d.resolver⟩ (.name o.method.name) (.operation o.name)
        o.doc :=
    List.mem_map.mpr ⟨o, ho, rfl⟩
  unfold Typing.pathRecord at htype
  split at htype
  · exact ⟨_, htype.of_pure, _, hmember, rfl, rfl⟩
  · obtain ⟨shared, _, htype⟩ := htype.of_bind
    exact ⟨_, htype.of_pure, _, List.mem_append_left _ hmember, rfl, rfl⟩

/-- What an operation is typed from is declared. -/
theorem declares_of_describes {p : Pointer} {item : PathItem} {op : Operation} {o : TypedOperation}
    (h : d.Describes config p item op o) : d.Declares o.name o.location :=
  ⟨o.kind, o.path, p, item, (o.method, op), h.leads, h.stands, h.declared,
    h.gives.of_operation.1.symm, h.location.symm⟩

/-! ## 3. The properties one by one -/

section Typed

variable (h : d.Loaded) (ht : d.typed config = .ok t)

include h ht

/-- Operations are named in the records of the paths and of the webhooks only. -/
theorem operation_not_mem_inner : ∀ e ∈ t.innerTypes, ∀ name, .operation name ∉ e.parts := by
  obtain ⟨hcomponents, hoperations⟩ :=
    obeys_inner (permits_operationsIn fun _ => False) h (fun _ _ _ => lists_operationsIn) ht
  intro e he name hname
  rcases List.mem_cons.mp he with rfl | he
  · exact hcomponents _ hname name rfl
  · obtain ⟨o, ho, he⟩ := List.mem_flatMap.mp he
    rcases List.mem_cons.mp he with rfl | he
    · exact (hoperations o ho).1 _ hname name rfl
    · obtain ⟨q, hq, rfl⟩ := List.mem_map.mp he
      exact (hoperations o ho).2 q hq _ hname name rfl

/-- What is named is registered under its name. -/
theorem exists_registered_of_mem {name : String}
    (hname : .operation name ∈ (kind.of t.paths t.webhooks).parts) :
    ∃ o, t.operations.find? name = some o ∧ o.name = name := by
  have hobeys := obeys_typed
    (permits_operationsIn fun name => ∃ o, t.operations.find? name = some o) h
    (fun _ _ _ => lists_operationsIn) ht fun o ho _ heq => by
      cases heq
      exact Registry.find?_isSome_of_mem ho
  obtain ⟨hpaths, hwebhooks, _⟩ := TypedDocument.obeys_iff.mp hobeys
  obtain ⟨o, ho⟩ : ∃ o, t.operations.find? name = some o := by
    cases kind with
    | path => exact hpaths _ hname name rfl
    | webhook => exact hwebhooks _ hname name rfl
  exact ⟨o, ho, (Registry.mem_of_find? ho).2⟩

omit h in
/-- What is registered is named. -/
theorem exists_mem_of_registered {o : TypedOperation} (ho : o ∈ t.operations) :
    ∃ kind : RouteKind, .operation o.name ∈ (kind.of t.paths t.webhooks).parts := by
  obtain ⟨paths, webhooks, hmade⟩ := of_typed ht
  obtain ⟨x, hx, hox⟩ := List.mem_flatMap.mp (Registry.mem_of_registered hmade.registered ho)
  obtain ⟨kind, hx⟩ := RouteKind.exists_of_mem_append hx
  obtain ⟨name, part, _, hgives⟩ := hmade.exists_part hx
  exact ⟨kind, (hmade.shows hx hgives hox).mem_parts⟩

/-- What is registered is declared. -/
theorem declares_of_registered {o : TypedOperation} (ho : o ∈ t.operations) :
    d.Declares o.name o.location := by
  obtain ⟨paths, webhooks, hmade⟩ := of_typed ht
  obtain ⟨p, item, op, hdescribes⟩ :=
    hmade.exists_describes h (Registry.mem_of_registered hmade.registered ho)
  exact declares_of_describes hdescribes

/-- Every entry leads to a path item. -/
theorem exists_leads {part : OrRef PathItem} (he : d.spec.Entry kind path part) :
    ∃ p item, d.Leads kind path p ∧ d.StandsAt p item := by
  obtain ⟨paths, webhooks, hmade⟩ := of_typed ht
  obtain ⟨x, _, hgives⟩ := hmade.exists_entry he
  obtain ⟨⟨p, item⟩, hitem, _⟩ := hgives.of_bind
  obtain ⟨hstands, hleads⟩ := h.of_itemOf he hitem
  exact ⟨p, item, hleads, hstands⟩

/-- An operation that an entry leads to is named under the entry, and registered with its location
and its type. -/
theorem shows_of_leads {p : Pointer} {item : PathItem} (hleads : d.Leads kind path p)
    (hstands : d.StandsAt p item) {o : Method × Operation} (ho : o ∈ item.operations) :
    t.Shows ⟨config, d.resolver⟩ kind path o.1 (operationKey kind path p item o) ∧
      ∃ known typed, t.operations.find? (operationKey kind path p item o) = some known ∧
        Gives (operation ⟨config, d.resolver⟩ ⟨kind, path, p, item.parameters⟩ o.1 o.2) typed ∧
        typed.location = p.child o.1.name ∧
        known = { typed with kind := known.kind, path := known.path } := by
  obtain ⟨paths, webhooks, hmade⟩ := of_typed ht
  obtain ⟨part, he, x, hx, hgives, s, hs, hoperation⟩ := hmade.exists_typed h hstands hleads ho
  obtain ⟨hname, hlocation, _, hmethod, _⟩ := hoperation.of_operation
  have hname : s.name = operationKey kind path p item o := hname
  have hdescribes := describes_of_gives hstands hleads ho hoperation
  constructor
  · rw [← hmethod, ← hname]
    exact hmade.shows hx hgives hs
  · have hmem : s ∈ (paths ++ webhooks).flatMap Prod.snd :=
      List.mem_flatMap.mpr ⟨x, RouteKind.mem_append hx, hs⟩
    obtain ⟨known, hknown, hplace, _, hdescribes'⟩ := hmade.exists_registered h hmem hdescribes
    refine ⟨known, s, hname ▸ hknown, hoperation, hlocation, ?_⟩
    have heq := hdescribes.eq_of_location hdescribes' hplace.symm
    rw [(Registry.mem_of_find? hknown).2] at heq
    exact heq

/-- Operations of one name stand in one place. -/
theorem location_unique {name : String} {p q : Pointer} (hp : d.Declares name p)
    (hq : d.Declares name q) : p = q := by
  obtain ⟨kind, path, p', item, o, hleads, hstands, ho, hname, rfl⟩ := hp
  obtain ⟨kind', path', q', item', o', hleads', hstands', ho', hname', rfl⟩ := hq
  obtain ⟨_, known, typed, hknown, _, hplace, heq⟩ := shows_of_leads h ht hleads hstands ho
  obtain ⟨_, known', typed', hknown', _, hplace', heq'⟩ := shows_of_leads h ht hleads' hstands' ho'
  rw [hname] at hknown
  rw [hname', hknown] at hknown'
  cases hknown'
  have hlocation : known.location = typed.location := by rw [heq]
  have hlocation' : known.location = typed'.location := by rw [heq']
  rw [← hplace, ← hplace', ← hlocation, ← hlocation']

end Typed

/-- Operations of the entries are declared. -/
theorem declares_of_ofEntry (h : d.Loaded) {o : TypedOperation}
    (ho : OfEntry ⟨config, d.resolver⟩ d.spec o) : d.Declares o.name o.location := by
  obtain ⟨kind, name, part, x, he, hgives, ho⟩ := ho
  obtain ⟨p, item, op, hdescribes⟩ := describes_of_entry h he hgives ho
  exact declares_of_describes hdescribes

/-! ## 4. Documents -/

/-- **The registry is closed and exact, and a document is refused for a duplicate only if it has
one.** -/
theorem registers_of_loaded (d : Document) (h : d.Loaded) (config : Config) :
    (∀ t, d.typed config = .ok t → d.Registers config t) ∧
      ∀ name first second, d.typed config = .error (.duplicateOperation name first second) →
        first ≠ second ∧ d.Declares name first ∧ d.Declares name second := by
  constructor
  · intro t ht
    obtain ⟨paths, webhooks, hmade⟩ := of_typed ht
    exact
      { inner := operation_not_mem_inner h ht
        registered := fun _ ⟨_, hname⟩ => exists_registered_of_mem h ht hname
        named := fun _ ho => exists_mem_of_registered ht ho
        declared := fun _ ho => declares_of_registered h ht ho
        leads := fun _ _ _ he => exists_leads h ht he
        shown := fun _ _ _ _ hleads hstands _ ho => shows_of_leads h ht hleads hstands ho
        nodup := Registry.nodup_registered hmade.operations
        location := fun _ _ _ hp hq => location_unique h ht hp hq }
  · intro name first second he
    have hentries : ∀ kind name part, d.spec.Entry kind name part →
        PlacedEntry ⟨config, d.resolver⟩ (fun _ _ => True) kind name part := fun _ _ _ _ =>
      ⟨fun _ _ => trivial, fun _ item _ => item.placed_of_all fun _ _ => trivial⟩
    rcases placed_of_typed (fun _ _ _ _ _ => trivial) hentries
      (Components.placed_of_all (fun _ _ => trivial) _) he with
      hplaced | ⟨known, o, hknown, ho, hname, hne, heq⟩
    · exact hplaced.elim
    · cases heq
      refine ⟨hne, ?_, declares_of_ofEntry h ho⟩
      rw [← hname]
      exact declares_of_ofEntry h hknown

end Document

/-- A value that spells a document with two operations of one name. -/
def clashingRaw : Json := .object [("openapi", .string "3.1.0"),
  ("paths", .object [("/a", .object [("get", .object [("operationId", .string "list")])]),
    ("/b", .object [("get", .object [("operationId", .string "list")])])])]

/-- The document that the value spells. -/
def clashingDocument : Document where
  raw := clashingRaw
  spec := {
    openapi := "3.1.0"
    paths := some [("/a", { get := some { operationId := some "list" } }),
      ("/b", { get := some { operationId := some "list" } })] }

theorem loaded_clashingDocument : clashingDocument.Loaded :=
  ⟨clashingRaw, Json.uniqueKeys_of_distinct (by cbv), by cbv⟩

/-- An operation that two paths share is registered once; two operations of one name are refused. -/
theorem registers_sharedDocument : sharedDocument.Loaded ∧ clashingDocument.Loaded ∧
    (∃ t, sharedDocument.typed {} = .ok t ∧ sharedDocument.Registers {} t) ∧
    clashingDocument.typed {} =
      .error (.duplicateOperation "list" ⟨["paths", "/a", "get"]⟩ ⟨["paths", "/b", "get"]⟩) ∧
    clashingDocument.Declares "list" ⟨["paths", "/a", "get"]⟩ ∧
    clashingDocument.Declares "list" ⟨["paths", "/b", "get"]⟩ := by
  obtain ⟨t, ht⟩ : ∃ t, sharedDocument.typed {} = .ok t := ⟨_, by cbv⟩
  have hclash : clashingDocument.typed {} =
      .error (.duplicateOperation "list" ⟨["paths", "/a", "get"]⟩ ⟨["paths", "/b", "get"]⟩) := by
    cbv
  have hregisters := (sharedDocument.registers_of_loaded loaded_sharedDocument {}).1 t ht
  have hdeclares := (clashingDocument.registers_of_loaded loaded_clashingDocument {}).2 _ _ _ hclash
  exact ⟨loaded_sharedDocument, loaded_clashingDocument, ⟨t, ht, hregisters⟩, hclash, hdeclares.2⟩

end ApiTypes
