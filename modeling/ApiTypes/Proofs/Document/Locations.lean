/-
# Reported locations

The fault of a document that cannot be typed carries the pointer of a place: of a reference that
leads nowhere, or of a schema that is nested too deep.  The place is a node of the document, and at
the place of a reference the node is that reference.  There is one exception: the schemas in a list
of types that is sorted into alternatives are reported under the pointers of an `anyOf`, which the
document does not have.  The way to such a place still leads to the node (`Schema.Way`).

* `Document.Locates` says what the location of a fault tells.
* `Document.locates_of_typed` is the statement for all documents that are given as objects.
* `exists_unlocated` is a document with a location that it does not have.
-/
import ApiTypes.Proofs.Document.Faults
import ApiTypes.Proofs.Model.Locations
import Mathlib

namespace ApiTypes

open Schema

namespace Document

/-! ## 1. Locations -/

/-- A location leads to a node of a document, and it is the pointer of the node unless it goes
through an alternative of a list of types. -/
structure Reaches (d : Document) (p : Pointer) (v : Json) : Prop where
  way : Way d.raw p.segments v
  node : ∃ q : Pointer, q.segments.Sublist p.segments ∧ q.find? d.raw = some v
  find : ¬ PassesAlternative d.raw p.segments → p.find? d.raw = some v

/-- The location of a fault leads to a node, which is the reference if one is at fault. -/
def Locates (d : Document) : Fault → Prop
  | .unresolvable target location =>
    ∃ v, d.Reaches location v ∧ Resolver.next? v = some target
  | .recursionLimit location _ => ∃ v, d.Reaches location v
  | _ => True

variable {d : Document}

theorem reaches_of_way {p : Pointer} {v : Json} (h : Way d.raw p.segments v) : d.Reaches p v := by
  obtain ⟨segments, hsublist, hfind⟩ := h.exists_find
  exact ⟨h, ⟨⟨segments⟩, hsublist, hfind⟩, fun hpasses => h.find.resolve_right hpasses⟩

theorem locates_of_placed {e : Fault} (h : e.Placed (placesIn d.raw)) : d.Locates e := by
  cases e with
  | unresolvable target location =>
    obtain ⟨v, hway, hnext⟩ := h
    exact ⟨v, reaches_of_way hway, hnext target rfl⟩
  | recursionLimit location limit =>
    obtain ⟨v, hway, _⟩ := h
    exact ⟨v, reaches_of_way hway⟩
  | unreadableDocument _ | unreadableConfig _ | invalidDocument _ | invalidObject _ _
  | unsupportedVersion _ | duplicateOperation _ _ _ => trivial

/-! ## 2. Entries and components -/

section Loaded

variable (h : d.Loaded) {config : Config} {kind : RouteKind} {name : String}
  {part : OrRef PathItem}

include h

theorem Loaded.partAt_place (he : d.spec.Entry kind name part) :
    d.resolver.PartAt .pathItem (kind.place name) := by
  obtain ⟨hx, -⟩ := h.find_entry he
  cases kind with
  | path => exact .entry .root (by decide) hx
  | webhook => exact .entry .root (by decide) hx

variable (hr : d.resolver.Regular)

include hr

/-- The reference of an entry stands in its place. -/
theorem Loaded.refersAt_place (he : d.spec.Entry kind name part) {target : String}
    (htarget : part.pathTarget? = some target) : d.raw.RefersAt (kind.place name) target := by
  have hp := h.partAt_place he
  cases part with
  | item own =>
    obtain ⟨v, hv, hitem⟩ := h.standsAt_place he
    have hread : own.Placed ⟨{}, d.resolver⟩ (placesIn d.raw) (kind.place name) ∧ _ :=
      hr.pathItem hp v own hv hitem
    exact hread.2 target htarget
  | ref r =>
    cases kind with
    | path => cases he
    | webhook =>
      obtain ⟨_, v, hv, hpart⟩ := h.find_entry he
      cases htarget
      exact hr.reference hp v r hv (Decode.ref_of_orRef hpart)

theorem Loaded.placed_entry (he : d.spec.Entry kind name part) :
    Typing.PlacedEntry ⟨config, d.resolver⟩ (placesIn d.raw) kind name part := by
  refine ⟨fun target htarget => (h.refersAt_place hr he htarget).placesIn, fun q item hg => ?_⟩
  obtain ⟨⟨v, hv, hitem⟩, hleads⟩ := h.of_itemOf he hg
  refine (hr.pathItem ?_ v item hv hitem).1
  rcases hleads with ⟨part', target, _, he', htarget, hresolve⟩ | ⟨rfl, _⟩
  · have href := h.refersAt_place hr he' htarget
    exact .of_resolveAs (by decide) (h.partAt_place he') href hresolve
  · exact h.partAt_place he

theorem Loaded.placed_components :
    (d.spec.components.getD {}).Placed ⟨config, d.resolver⟩ (placesIn d.raw) := by
  cases hc : d.spec.components with
  | none => exact Components.placed_empty
  | some c =>
    obtain ⟨-, ⟨fs, hfs⟩, -⟩ := h.spells
    have hread := h.components_eq hfs
    rw [hc] at hread
    split at hread
    · rename_i w hw
      have hfind : (Pointer.root.child "components").find? d.raw = some w := by
        rw [hfs, Pointer.find?_child_of rfl]
        exact hw
      rcases Decoder.ok_of_optional hread with ⟨_, hnone⟩ | ⟨c', hc', hsome⟩
      · cases hnone
      · cases hsome
        exact hr.components (.one .root (by decide)) w c hfind hc'
    · cases hread

end Loaded

/-! ## 3. Documents -/

/-- **The location of a fault leads to a node of the document**, for every document that is given
as objects and whose arrays have no more items than there are positions. -/
theorem locates_of_typed (d : Document) (h : d.Loaded) (hobjects : d.resolver.GivesObjects)
    (hshort : d.raw.Addressable) (config : Config) {e : Fault}
    (he : d.typed config = .error e) : d.Locates e := by
  have hr : d.resolver.Regular := ⟨h.uniqueKeys, hshort, hobjects⟩
  have hchains : Environment.Chains ⟨config, d.resolver⟩ (placesIn d.raw) :=
    fun p v target hv hnext => Json.RefersAt.placesIn ⟨v, hv, hnext⟩
  rcases placed_of_typed hchains (fun _ _ _ hentry => h.placed_entry hr hentry)
    (h.placed_components hr) he with hplaced | ⟨_, _, _, _, _, _, rfl⟩
  · exact locates_of_placed hplaced
  · trivial

end Document

/-- A value with a schema of some types, which has a property that refers to nothing. -/
def danglingRaw (types : Json) : Json := .object [("openapi", .string "3.1.0"),
  ("components", .object [("schemas", .object [
    ("X", .object [("type", types),
      ("properties", .object [("a", .object [("$ref", .string "#/nowhere")])])])])])]

/-- The document that the value spells, if a sorted schema is made of the types and the
properties. -/
def danglingDocument (types : Json) (schema : Schema) : Document where
  raw := danglingRaw types
  spec := { openapi := "3.1.0", components := some { schemas := some [("X", schema)] } }

/-- The property, sorted. -/
def danglingObject : Schema := .object [("a", .reference "#/nowhere" {})] [] .unsaid {}

/-- The document of an object. -/
def plainDangling : Document := danglingDocument (.string "object") danglingObject

/-- The document of an object or a text. -/
def splitDangling : Document :=
  danglingDocument (.array [.string "object", .string "string"])
    (.composed [] [] [danglingObject, .scalar [.string] {}] none none {})

section Dangling

variable {types : Json} {schema : Schema} {self : Option OwnAddress} {kind part : PartKind}
  {arrangement : Arrangement} {p : Pointer} {key segment : String}

/-- The description and the components are the only parts that the document has. -/
def DanglingPart (types : Json) (kind : PartKind) (p : Pointer) : Prop :=
  (kind = .description ∧ p = .root) ∨ (kind = .components ∧ p = Pointer.root.child "components") ∨
    p.find? (danglingRaw types) = none

theorem danglingPart_below (h : p.find? (danglingRaw types) = none) :
    (p.child segment).find? (danglingRaw types) = none := by
  rw [Pointer.find?_child, h, Option.bind_none]

/-- A field with parts is not there, unless it holds the components. -/
theorem DanglingPart.of_field (h : DanglingPart types kind p)
    (hf : (key, arrangement, part) ∈ kind.fields) :
    (key = "components" ∧ arrangement = .one ∧ part = .components ∧ p = .root) ∨
      (p.child key).find? (danglingRaw types) = none := by
  rcases h with ⟨rfl, rfl⟩ | ⟨rfl, rfl⟩ | hnone
  · simp only [PartKind.fields, List.mem_cons, Prod.mk.injEq, List.not_mem_nil, or_false] at hf
    rcases hf with ⟨rfl, _⟩ | ⟨rfl, _⟩ | ⟨rfl, rfl, rfl⟩
    · exact Or.inr rfl
    · exact Or.inr rfl
    · exact Or.inl ⟨rfl, rfl, rfl, rfl⟩
  · simp only [PartKind.fields, List.mem_cons, Prod.mk.injEq, List.not_mem_nil, or_false] at hf
    rcases hf with ⟨rfl, _⟩ | ⟨rfl, _⟩ | ⟨rfl, _⟩ | ⟨rfl, _⟩ | ⟨rfl, _⟩ <;> exact Or.inr rfl
  · exact Or.inr (danglingPart_below hnone)

theorem danglingPart_of_partAt (h : Resolver.PartAt ⟨danglingRaw types, self⟩ kind p) :
    DanglingPart types kind p := by
  -- what is not a single part in a field is not there
  have hinner : ∀ {kind part : PartKind} {arrangement : Arrangement} {p : Pointer}
      {key segment : String}, DanglingPart types kind p →
      (key, arrangement, part) ∈ kind.fields → arrangement ≠ .one →
      DanglingPart types part ((p.child key).child segment) := by
    intro kind part arrangement p key segment h hf hne
    rcases h.of_field hf with ⟨_, hone, _⟩ | hnone
    · exact absurd hone hne
    · exact Or.inr (Or.inr (danglingPart_below hnone))
  induction h with
  | root => exact Or.inl ⟨rfl, rfl⟩
  | one _ hf ih =>
    rcases ih.of_field hf with ⟨rfl, _, rfl, rfl⟩ | hnone
    · exact Or.inr (Or.inl ⟨rfl, rfl⟩)
    · exact Or.inr (Or.inr hnone)
  | item _ hf i ih => exact hinner ih hf (by decide)
  | named _ hf name ih => exact hinner ih hf (by decide)
  | entry _ hf _ ih => exact hinner ih hf (by decide)
  | referred _ hkind href _ ih =>
    rcases ih with ⟨rfl, _⟩ | ⟨rfl, _⟩ | hnone
    · exact absurd hkind (by decide)
    · exact absurd hkind (by decide)
    · obtain ⟨v, hv, _⟩ := href
      rw [hnone] at hv
      cases hv

theorem givesObjects_dangling : (danglingDocument types schema).resolver.GivesObjects := by
  intro kind p items hp hitems
  have hitems : p.find? (danglingRaw types) = some (.array items) := hitems
  rcases danglingPart_of_partAt hp with ⟨_, rfl⟩ | ⟨_, rfl⟩ | hnone
  · cases hitems
  · cases hitems
  · rw [hnone] at hitems
    cases hitems

end Dangling

/-- The pointer of the reference in a schema. -/
def plainPlace : Pointer := ⟨["components", "schemas", "X", "properties", "a"]⟩

/-- The pointer that is made for this reference where the schema is split by its types; the document
has nothing there. -/
def splitPlace : Pointer := ⟨["components", "schemas", "X", "anyOf", "0", "properties", "a"]⟩

/-- The location of a reference that leads nowhere. -/
theorem locates_plainDangling : plainDangling.Loaded ∧ plainDangling.resolver.GivesObjects ∧
    plainDangling.raw.Addressable ∧
    plainDangling.typed {} = .error (.unresolvable "#/nowhere" plainPlace) ∧
    plainDangling.Locates (.unresolvable "#/nowhere" plainPlace) := by
  have hloaded : plainDangling.Loaded :=
    ⟨plainDangling.raw, Json.uniqueKeys_of_distinct (by cbv), by cbv⟩
  have hshort : plainDangling.raw.Addressable := Json.addressable_of_nodes (by decide)
  have htyped : plainDangling.typed {} = .error (.unresolvable "#/nowhere" plainPlace) := by cbv
  exact ⟨hloaded, givesObjects_dangling, hshort, htyped,
    plainDangling.locates_of_typed hloaded givesObjects_dangling hshort {} htyped⟩

/-- **A reference in an alternative of a list of types is reported in a place that the document
does not have.** -/
theorem exists_unlocated : ¬ ∀ (d : Document) (config : Config) (target : String) (p : Pointer),
    d.Loaded → d.resolver.GivesObjects → d.raw.Addressable →
    d.typed config = .error (.unresolvable target p) →
    ∃ v, p.find? d.raw = some v ∧ Resolver.next? v = some target := by
  intro hall
  have hloaded : splitDangling.Loaded :=
    ⟨splitDangling.raw, Json.uniqueKeys_of_distinct (by cbv), by cbv⟩
  have htyped : splitDangling.typed {} = .error (.unresolvable "#/nowhere" splitPlace) := by cbv
  obtain ⟨v, hv, _⟩ := hall _ _ _ _ hloaded givesObjects_dangling
    (Json.addressable_of_nodes (by decide)) htyped
  have hnone : splitPlace.find? splitDangling.raw = none := by cbv
  rw [hnone] at hv
  cases hv

end ApiTypes
