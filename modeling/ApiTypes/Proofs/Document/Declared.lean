/-
# What the names in the types of a document name

A reference is typed by the pointer of the node that it leads to, and that pointer is written as
a chain of names: the name of a section and then the names of members.  The node is looked up in
the value of the document, which has other parts than the records that are declared.  So every
pointer names a node, but only the pointers of the sections, of their entries and of the
components are sure to name something that is declared.

* `TypeExpr.declares` and `TypedDocument.declares` follow a chain of names through records.
* `Pointer.isEntry` says which pointers name a section, an entry or a component.
* `Document.declares_of_mentions` is the statement.
* `exists_mentions_undeclared` is a document with a pointer that leads into a component.
-/
import ApiTypes.Proofs.Document.Parts
import Mathlib

namespace ApiTypes

open Typing

/-! ## 1. Chains of names -/

namespace TypeExpr

/-- The members of a record; other types have none. -/
def members : TypeExpr → List (Member TypeExpr)
  | record r => r.members
  | _ => []

/-- The types that a chain of names leads to, from a record to the type of a member. -/
def reached (e : TypeExpr) : List String → List TypeExpr
  | [] => [e]
  | name :: rest => (e.members.filter (·.name? = some name)).flatMap fun m => m.type.reached rest

/-- Whether a chain of names leads anywhere. -/
def declares (e : TypeExpr) (names : List String) : Bool := !(e.reached names).isEmpty

theorem declares_iff {e : TypeExpr} {names : List String} :
    e.declares names = true ↔ ∃ x, x ∈ e.reached names := by
  rw [declares, Bool.not_eq_true', List.isEmpty_eq_false_iff_exists_mem]

theorem declares_cons {e : TypeExpr} {name : String} {rest : List String} :
    e.declares (name :: rest) = true ↔
      ∃ m ∈ e.members, m.name? = some name ∧ m.type.declares rest = true := by
  simp only [declares_iff, reached, List.mem_flatMap, List.mem_filter, decide_eq_true_eq]
  constructor
  · rintro ⟨x, m, ⟨hm, hname⟩, hx⟩
    exact ⟨m, hm, hname, x, hx⟩
  · rintro ⟨m, hm, hname, x, hx⟩
    exact ⟨x, m, ⟨hm, hname⟩, hx⟩

theorem reached_append {names rest : List String} :
    ∀ {e : TypeExpr}, e.reached (names ++ rest) = (e.reached names).flatMap (·.reached rest) := by
  induction names with
  | nil => simp [reached]
  | cons name names ih =>
    intro e
    rw [List.cons_append, reached, reached, List.flatMap_assoc]
    exact List.flatMap_congr fun m _ => ih

/-- A chain leads on from what it has reached. -/
theorem declares_append {e : TypeExpr} {names rest : List String} :
    e.declares (names ++ rest) = true ↔ ∃ x ∈ e.reached names, x.declares rest = true := by
  simp only [declares_iff, reached_append, List.mem_flatMap]
  exact ⟨fun ⟨y, x, hx, hy⟩ => ⟨x, hx, y, hy⟩, fun ⟨x, hx, y, hy⟩ => ⟨y, x, hx, hy⟩⟩

end TypeExpr

namespace TypedDocument

/-- The declarations of the sections as one record. -/
def sections (t : TypedDocument) : TypeExpr :=
  .closed [.of "paths" t.paths, .of "webhooks" t.webhooks, .of "components" t.components]

/-- The types that the chain of a pointer leads to. -/
def reached (t : TypedDocument) (p : Pointer) : List TypeExpr := t.sections.reached p.segments

/-- Whether the chain of a pointer names something that is declared: a section, or a member that
is reached from one. -/
def declares (t : TypedDocument) (p : Pointer) : Bool := !p.isRoot && t.sections.declares p.segments

/-- The pointers that are written in the types: those of references, and those of the members
that are picked from a collection. -/
def Mentions (t : TypedDocument) (p : Pointer) : Prop :=
  .reference p ∈ t.parts ∨
    ∃ group keys key, .pick group keys ∈ t.parts ∧ key ∈ keys ∧ p = group.child key

end TypedDocument

/-! ## 2. Pointers of entries -/

namespace Pointer

/-- Whether a pointer is that of a section, of an entry that stands under its name in a section,
of a collection of components or of a component. -/
def isEntry (config : Config) (p : Pointer) : Bool :=
  match p.segments with
  | ["paths"] | ["webhooks"] | ["components"] => true
  | ["paths", url] => !Decoder.isExtension url && !config.patternKey .path url
  | ["webhooks", name] => !Decoder.isExtension name
  | ["components", kind] | ["components", kind, _] => Components.kinds.contains kind
  | _ => false

/-- The number of segments of an entry in the section that a segment names. -/
def entryDepth : List String → Nat
  | "components" :: _ => 3
  | _ => 2

/-- The part of a pointer that leads to an entry, or to less. -/
def entryPart (p : Pointer) : Pointer := ⟨p.segments.take (entryDepth p.segments)⟩

/-- The part of a pointer that leads on from an entry. -/
def innerPart (p : Pointer) : List String := p.segments.drop (entryDepth p.segments)

theorem descend_entryPart (p : Pointer) : p.entryPart.descend p.innerPart = p := by
  simp [descend, entryPart, innerPart]

end Pointer

/-! ## 3. Names in records -/

namespace TypeExpr

variable {ms : List (Member TypeExpr)} {name : String}

/-- A closed record declares the names of its members. -/
theorem declares_singleton :
    (closed ms).declares [name] = true ↔ name ∈ ms.filterMap Member.name? := by
  rw [declares_cons, List.mem_filterMap]
  refine exists_congr fun m => and_congr_right fun _ => ?_
  simp [declares, reached]

/-- The first name of a chain leads somewhere. -/
theorem declares_head {e : TypeExpr} {rest : List String}
    (h : e.declares (name :: rest) = true) : e.declares [name] = true := by
  obtain ⟨m, hm, hname, _⟩ := declares_cons.mp h
  refine declares_cons.mpr ⟨m, hm, hname, ?_⟩
  rw [declares_iff]
  exact ⟨_, List.mem_singleton_self _⟩

end TypeExpr

variable {d : Document} {config : Config} {t : TypedDocument} {segment : String}
  {rest : List String}

/-- A chain of names leads through one of the three sections. -/
theorem declares_sections : t.sections.declares (segment :: rest) = true ↔
    segment = "paths" ∧ t.paths.declares rest = true ∨
      segment = "webhooks" ∧ t.webhooks.declares rest = true ∨
      segment = "components" ∧ t.components.declares rest = true := by
  rw [TypeExpr.declares_cons]
  constructor
  · rintro ⟨m, hm, hname, hrest⟩
    simp only [TypedDocument.sections, TypeExpr.closed, TypeExpr.members, List.mem_cons,
      List.not_mem_nil, or_false] at hm
    rcases hm with rfl | rfl | rfl
    · exact Or.inl ⟨(Option.some.inj hname).symm, hrest⟩
    · exact Or.inr (Or.inl ⟨(Option.some.inj hname).symm, hrest⟩)
    · exact Or.inr (Or.inr ⟨(Option.some.inj hname).symm, hrest⟩)
  · rintro (⟨rfl, hrest⟩ | ⟨rfl, hrest⟩ | ⟨rfl, hrest⟩)
    · exact ⟨_, List.mem_cons_self, rfl, hrest⟩
    · exact ⟨_, List.mem_cons_of_mem _ List.mem_cons_self, rfl, hrest⟩
    · exact ⟨_, List.mem_cons_of_mem _ (List.mem_cons_of_mem _ List.mem_cons_self), rfl, hrest⟩

/-- The record of a section declares the entries that do not stand under a pattern. -/
theorem declares_entries {α : Type} {env : Environment} {kind : RouteKind}
    {part : String × α → OrRef PathItem} {entries : List (String × α)} {name : String}
    {xs : List (Member TypeExpr × List TypedOperation)}
    (h : List.Forall₂ (fun e x => Gives (entry env kind e.1 (part e)) x)
      (ordered env.config.alphabetize entries) xs) :
    (TypeExpr.closed (xs.map Prod.fst)).declares [name] = true ↔
      name ∈ entries.map Prod.fst ∧ env.config.patternKey kind name = false := by
  rw [TypeExpr.declares_singleton, names_of_entries h, List.mem_filter,
    ((ordered_perm _ entries).map Prod.fst).mem_iff, Bool.not_eq_true']

section Components

variable {P : TypeExpr → Prop}
  {cs : List (String × Option (List String))} {ms : List (Member TypeExpr)}

/-- The record of the components declares the collections. -/
theorem declares_collections {kind : String} (h : List.Forall₂ (OfCollection P) cs ms) :
    (TypeExpr.closed ms).declares [kind] = true ↔ kind ∈ cs.map Prod.fst := by
  rw [TypeExpr.declares_singleton, names_of_keys h fun _ _ hm => hm.1]

/-- The record of the components declares the parts of the collections. -/
theorem declares_component {kind name : String} {names : List String}
    (h : List.Forall₂ (OfCollection P) cs ms) (hc : (kind, some names) ∈ cs)
    (hname : name ∈ names) : (TypeExpr.closed ms).declares [kind, name] = true := by
  obtain ⟨m, hm, hkey, shown, parts, htype, hperm, hnamed⟩ :=
    exists_of_forall₂ (R := flip (OfCollection P)) h.flip hc
  refine TypeExpr.declares_cons.mpr ⟨m, hm, by rw [Member.name?, hkey], ?_⟩
  rw [htype, TypeExpr.declares_singleton, names_of_namedMembers hnamed, hperm.mem_iff]
  exact hname

end Components

/-! ## 4. What the pointers name -/

namespace Document

/-- The property that says nothing. -/
theorem permits_true {env : Environment} : Permits env (fun _ => True) :=
  ⟨fun _ _ => trivial, fun _ _ _ => trivial, fun _ _ => trivial, fun _ _ => trivial⟩

section Made

variable {paths webhooks : List (Member TypeExpr × List TypedOperation)} {name kind : String}
  (h : d.Loaded) (hmade : d.Made config t paths webhooks)

include h hmade

/-- A path is declared if it stands in the document and is not put under a pattern. -/
theorem Made.declares_path : t.paths.declares [name] = true ↔
    (∃ v, Pointer.find? d.raw ⟨["paths", name]⟩ = some v) ∧
      Decoder.isExtension name = false ∧ config.patternKey .path name = false := by
  rw [hmade.pathRecord, declares_entries hmade.pathEntries]
  constructor
  · rintro ⟨hmem, hpattern⟩
    obtain ⟨⟨name, item⟩, hitem, rfl⟩ := List.mem_map.mp hmem
    have hentry : d.spec.Entry .path name (.item item) := hitem
    obtain ⟨hextension, v, hv, _⟩ := h.find_entry hentry
    exact ⟨⟨v, hv⟩, hextension, hpattern⟩
  · rintro ⟨⟨v, hv⟩, hextension, hpattern⟩
    obtain ⟨part, hpart⟩ : ∃ part, d.spec.Entry .path name part := h.entry_of_find hv hextension
    cases part with
    | ref r => cases hpart
    | item item => exact ⟨List.mem_map.mpr ⟨_, hpart, rfl⟩, hpattern⟩

/-- A webhook is declared if it stands in the document. -/
theorem Made.declares_webhook : t.webhooks.declares [name] = true ↔
    (∃ v, Pointer.find? d.raw ⟨["webhooks", name]⟩ = some v) ∧
      Decoder.isExtension name = false := by
  rw [hmade.webhookRecord, declares_entries hmade.webhookEntries]
  constructor
  · rintro ⟨hmem, _⟩
    obtain ⟨⟨name, part⟩, hpart, rfl⟩ := List.mem_map.mp hmem
    have hentry : d.spec.Entry .webhook name part := hpart
    obtain ⟨hextension, v, hv, _⟩ := h.find_entry hentry
    exact ⟨⟨v, hv⟩, hextension⟩
  · rintro ⟨⟨v, hv⟩, hextension⟩
    obtain ⟨part, hpart⟩ : ∃ part, d.spec.Entry .webhook name part :=
      h.entry_of_find hv hextension
    exact ⟨List.mem_map.mpr ⟨_, hpart, rfl⟩, rfl⟩

/-- The members of the components are those of the collections. -/
theorem Made.collections : ∃ ms, t.components = .closed ms ∧
    List.Forall₂ (OfCollection fun _ => True)
      (d.spec.components.getD {}).collections ms := by
  refine of_components permits_true h.uniqueKeys h.uniqueNames.components (fun _ _ _ => ?_)
    hmade.components
  exact ⟨fun _ _ _ _ => trivial, fun _ _ _ _ _ _ => trivial⟩

/-- The collections are declared in any case. -/
theorem Made.declares_kind :
    t.components.declares [kind] = true ↔ kind ∈ Components.kinds := by
  obtain ⟨ms, hms, hcollections⟩ := hmade.collections h
  rw [hms, declares_collections hcollections, Components.names_collections]

/-- A component is declared if it stands in the document. -/
theorem Made.declares_component_of_find {v : Json} (hkind : kind ∈ Components.kinds)
    (hv : Pointer.find? d.raw ⟨["components", kind, name]⟩ = some v) :
    t.components.declares [kind, name] = true := by
  obtain ⟨ms, hms, hcollections⟩ := hmade.collections h
  rw [← (d.spec.components.getD {}).names_collections] at hkind
  obtain ⟨⟨_, names⟩, hc, rfl⟩ := List.mem_map.mp hkind
  obtain ⟨ns, rfl, hname⟩ := h.component_of_find hc hv
  rw [hms]
  exact declares_component hcollections hc hname

end Made

variable {p : Pointer}

/-- Every pointer that is mentioned finds a node of the document. -/
theorem find_of_mentions (h : d.Loaded) (ht : d.typed config = .ok t) (hp : t.Mentions p) :
    ∃ v, p.find? d.raw = some v := by
  have hpermits : Permits ⟨config, d.resolver⟩
      (TypeExpr.Holds (fun p => ∃ v, p.find? d.raw = some v) fun _ => True) :=
    permits_holds (fun _ ⟨_, _, hcanonical⟩ => Resolver.find_of_canonical hcanonical)
      fun _ _ => trivial
  have hobeys := obeys_typed hpermits h
    (fun _ _ _ => ⟨fun _ _ _ _ => trivial, fun _ _ _ _ _ _ => trivial⟩) ht fun _ _ => trivial
  rcases hp with hp | ⟨group, keys, key, hp, hkey, rfl⟩
  · exact hobeys _ hp
  · exact hobeys _ hp key hkey

/-- What stands in the place of an entry is declared. -/
theorem declares_of_isEntry (h : d.Loaded) (ht : d.typed config = .ok t) {v : Json}
    (hv : p.find? d.raw = some v) (hp : p.isEntry config = true) : t.declares p = true := by
  obtain ⟨paths, webhooks, hmade⟩ := of_typed ht
  obtain ⟨segments⟩ := p
  rw [TypedDocument.declares, Bool.and_eq_true]
  unfold Pointer.isEntry at hp
  simp only at hp
  split at hp
  · exact ⟨rfl, declares_sections.mpr (Or.inl ⟨rfl, rfl⟩)⟩
  · exact ⟨rfl, declares_sections.mpr (Or.inr (Or.inl ⟨rfl, rfl⟩))⟩
  · exact ⟨rfl, declares_sections.mpr (Or.inr (Or.inr ⟨rfl, rfl⟩))⟩
  · rw [Bool.and_eq_true, Bool.not_eq_true', Bool.not_eq_true'] at hp
    have hpath := (hmade.declares_path h).mpr ⟨⟨v, hv⟩, hp.1, hp.2⟩
    exact ⟨rfl, declares_sections.mpr (Or.inl ⟨rfl, hpath⟩)⟩
  · rw [Bool.not_eq_true'] at hp
    have hwebhook := (hmade.declares_webhook h).mpr ⟨⟨v, hv⟩, hp⟩
    exact ⟨rfl, declares_sections.mpr (Or.inr (Or.inl ⟨rfl, hwebhook⟩))⟩
  · have hkind := (hmade.declares_kind h).mpr (List.contains_iff_mem.mp hp)
    exact ⟨rfl, declares_sections.mpr (Or.inr (Or.inr ⟨rfl, hkind⟩))⟩
  · have hcomponent := hmade.declares_component_of_find h (List.contains_iff_mem.mp hp) hv
    exact ⟨rfl, declares_sections.mpr (Or.inr (Or.inr ⟨rfl, hcomponent⟩))⟩
  · cases hp

/-- What is declared stands in an entry. -/
theorem isEntry_of_declares (h : d.Loaded) (ht : d.typed config = .ok t)
    (hp : t.declares p = true) : p.entryPart.isEntry config = true := by
  obtain ⟨paths, webhooks, hmade⟩ := of_typed ht
  obtain ⟨segments⟩ := p
  rw [TypedDocument.declares, Bool.and_eq_true] at hp
  obtain ⟨hroot, hchain⟩ := hp
  match segments with
  | [] => cases hroot
  | segment :: [] =>
    rcases declares_sections.mp hchain with ⟨rfl, _⟩ | ⟨rfl, _⟩ | ⟨rfl, _⟩
    · rfl
    · rfl
    · rfl
  | segment :: name :: inner =>
    rcases declares_sections.mp hchain with ⟨rfl, hp⟩ | ⟨rfl, hp⟩ | ⟨rfl, hp⟩
    · obtain ⟨_, hextension, hpattern⟩ :=
        (hmade.declares_path h).mp (TypeExpr.declares_head hp)
      show (!Decoder.isExtension name && !config.patternKey .path name) = true
      rw [hextension, hpattern]
      rfl
    · obtain ⟨_, hextension⟩ := (hmade.declares_webhook h).mp (TypeExpr.declares_head hp)
      show (!Decoder.isExtension name) = true
      rw [hextension]
      rfl
    · have hkind := (hmade.declares_kind h).mp (TypeExpr.declares_head hp)
      have hcontains := List.contains_iff_mem.mpr hkind
      cases inner with
      | nil => exact hcontains
      | cons _ _ => exact hcontains

/-- **Every pointer in the types of a document names a node of it, and one that stands where
entries stand names what is declared for the entry.**  A pointer that leads on is declared just if
the names that follow the entry are those of members in its type. -/
theorem declares_of_mentions (h : d.Loaded) (ht : d.typed config = .ok t) (hp : t.Mentions p) :
    (∃ v, p.find? d.raw = some v) ∧
      (p.isEntry config = true → t.declares p = true) ∧
      (t.declares p = true ↔ p.entryPart.isEntry config = true ∧
        ∃ e ∈ t.reached p.entryPart, e.declares p.innerPart = true) := by
  obtain ⟨v, hv⟩ := find_of_mentions h ht hp
  refine ⟨⟨v, hv⟩, declares_of_isEntry h ht hv, ?_⟩
  have hreached : t.sections.declares p.segments = true ↔
      ∃ e ∈ t.reached p.entryPart, e.declares p.innerPart = true := by
    rw [TypedDocument.reached, ← TypeExpr.declares_append]
    rw [show p.entryPart.segments ++ p.innerPart = p.segments from
      congrArg Pointer.segments p.descend_entryPart]
  constructor
  · intro hdeclares
    refine ⟨isEntry_of_declares h ht hdeclares, hreached.mp ?_⟩
    rw [TypedDocument.declares, Bool.and_eq_true] at hdeclares
    exact hdeclares.2
  · rintro ⟨hentry, hinner⟩
    rw [TypedDocument.declares, Bool.and_eq_true]
    refine ⟨?_, hreached.mpr hinner⟩
    obtain ⟨segments⟩ := p
    match segments with
    | [] => cases hentry
    | _ :: _ => rfl

end Document

/-! ## 5. A node that is not declared -/

/-- A value with a component that refers to a target. -/
def aliasRaw (target : String) : Json := .object [("openapi", .string "3.1.0"),
  ("components", .object [("schemas", .object [
    ("Pet", .object [("type", .string "object"),
      ("properties", .object [("name", .object [("type", .string "string")])])]),
    ("Alias", .object [("$ref", .string target)])])])]

/-- The document that the value spells. -/
def aliasDocument (target : String) : Document where
  raw := aliasRaw target
  spec := {
    openapi := "3.1.0"
    components := some { schemas := some [
      ("Pet", .object [("name", .scalar [.string] {})] [] .unsaid {}),
      ("Alias", .reference target {})] } }

/-- The types of the document, if the target is a pointer. -/
def aliasTypes (p : Pointer) : TypedDocument where
  paths := .closed []
  webhooks := .closed []
  components := .closed [
    .of "schemas" (.closed [
      .of "Pet" (.closed [.of "name" (.primitive .string) true]),
      .of "Alias" (.reference p)]),
    .of "responses" .never, .of "parameters" .never, .of "requestBodies" .never,
    .of "headers" .never, .of "pathItems" .never]
  operations := []
  referenced := [p]

theorem mentions_aliasTypes (p : Pointer) : (aliasTypes p).Mentions p := by
  refine Or.inl ?_
  simp [TypedDocument.parts, aliasTypes, TypeExpr.parts, TypeExpr.closed, TypeExpr.recordParts,
    TypeExpr.membersParts, TypeExpr.memberParts, TypeExpr.keyParts, Member.of]

/-- The pointer of a component. -/
def petPointer : Pointer := ⟨["components", "schemas", "Pet"]⟩

/-- The pointer of a node in the component. -/
def namePointer : Pointer := petPointer.descend ["properties", "name"]

/-- A component that is referred to is declared. -/
theorem declares_petPointer :
    (aliasDocument "#/components/schemas/Pet").Loaded ∧
      (aliasDocument "#/components/schemas/Pet").typed {} = .ok (aliasTypes petPointer) ∧
      (aliasTypes petPointer).declares petPointer = true := by
  have hloaded : (aliasDocument "#/components/schemas/Pet").Loaded :=
    ⟨aliasRaw _, Json.uniqueKeys_of_distinct (by cbv), by cbv⟩
  have htyped : (aliasDocument "#/components/schemas/Pet").typed {}
      = .ok (aliasTypes petPointer) := by
    cbv
  exact ⟨hloaded, htyped,
    (Document.declares_of_mentions hloaded htyped (mentions_aliasTypes _)).2.1 (by decide)⟩

/-- A node in a component that is referred to need not be declared. -/
theorem exists_mentions_undeclared : ¬ ∀ (d : Document) (config : Config) (t : TypedDocument)
    (p : Pointer), d.Loaded → d.typed config = .ok t → t.Mentions p → t.declares p = true := by
  intro hall
  have hloaded : (aliasDocument "#/components/schemas/Pet/properties/name").Loaded :=
    ⟨aliasRaw _, Json.uniqueKeys_of_distinct (by cbv), by cbv⟩
  have htyped : (aliasDocument "#/components/schemas/Pet/properties/name").typed {}
      = .ok (aliasTypes namePointer) := by
    cbv
  have hdeclares := hall _ _ _ namePointer hloaded htyped (mentions_aliasTypes _)
  have hnot : (aliasTypes namePointer).declares namePointer = false := by cbv
  rw [hnot] at hdeclares
  cases hdeclares

end ApiTypes
