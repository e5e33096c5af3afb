/-
# Where the parts of a description stand

The parts of a description are read from a value, field by field, so a part of a part stands below
it under the name of a field.  That asks for objects: a record may be given as an array too, where
its fields have no names.  A parameter or a path item may be a reference, and what it refers to is
read as one as well.

* `Resolver.PartAt r kind p`: a part of a kind stands at a pointer, where `PartKind.fields` tells
  the fields that have parts in them.
* `Resolver.Regular` says what the parts need to be found under their pointers.
* `Resolver.Regular.pathItem`, `Resolver.Regular.components`, … : what is read at a pointer is
  placed there; one lemma for each kind.
-/
import ApiTypes.Proofs.Document.PathItems
import ApiTypes.Proofs.Schema.Locations
import ApiTypes.Proofs.Typing.OperationFaults

namespace ApiTypes

/-! ## 1. Parts in places -/

/-- The kinds of parts that have schemas or references in them. -/
inductive PartKind where
  | description
  | components
  | pathItem
  | operation
  | parameter
  | requestBody
  | response
  | header
  | mediaType
  deriving DecidableEq

/-- How a field has parts in it: as its value, as the items of an array, or under names, of which
some fields leave out extensions. -/
inductive Arrangement where
  | one
  | items
  | named
  | entries
  deriving DecidableEq

/-- The fields of a part that have parts in them. -/
def PartKind.fields : PartKind → List (String × Arrangement × PartKind)
  | .description => [("paths", .entries, .pathItem), ("webhooks", .entries, .pathItem),
    ("components", .one, .components)]
  | .components => [("responses", .named, .response), ("parameters", .named, .parameter),
    ("requestBodies", .named, .requestBody), ("headers", .named, .header),
    ("pathItems", .named, .pathItem)]
  | .pathItem => [("get", .one, .operation), ("put", .one, .operation), ("post", .one, .operation),
    ("delete", .one, .operation), ("options", .one, .operation), ("head", .one, .operation),
    ("patch", .one, .operation), ("trace", .one, .operation), ("parameters", .items, .parameter)]
  | .operation => [("parameters", .items, .parameter), ("requestBody", .one, .requestBody),
    ("responses", .entries, .response)]
  | .response => [("headers", .named, .header), ("content", .named, .mediaType)]
  | .parameter | .requestBody | .header => [("content", .named, .mediaType)]
  | .mediaType => []

/-- The kinds of parts of which references are followed. -/
def PartKind.followed : List PartKind := [.parameter, .pathItem]

/-- The node at a pointer is a reference. -/
def Json.RefersAt (root : Json) (p : Pointer) (target : String) : Prop :=
  ∃ v, p.find? root = some v ∧ Resolver.next? v = some target

namespace Resolver

/-- **A part of a kind stands at a pointer.** -/
inductive PartAt (r : Resolver) : PartKind → Pointer → Prop
  | root : PartAt r .description .root
  | one {kind part : PartKind} {p : Pointer} {field : String} (h : PartAt r kind p)
      (hf : (field, .one, part) ∈ kind.fields) : PartAt r part (p.child field)
  | item {kind part : PartKind} {p : Pointer} {field : String} (h : PartAt r kind p)
      (hf : (field, .items, part) ∈ kind.fields) (i : Nat) :
      PartAt r part ((p.child field).item i)
  | named {kind part : PartKind} {p : Pointer} {field : String} (h : PartAt r kind p)
      (hf : (field, .named, part) ∈ kind.fields) (name : String) :
      PartAt r part ((p.child field).child name)
  | entry {kind part : PartKind} {p : Pointer} {field : String} (h : PartAt r kind p)
      (hf : (field, .entries, part) ∈ kind.fields) {name : String}
      (hx : Decoder.isExtension name = false) : PartAt r part ((p.child field).child name)
  | referred {kind : PartKind} {p q : Pointer} {target : String} (h : PartAt r kind p)
      (hkind : kind ∈ PartKind.followed) (href : r.root.RefersAt p target)
      (hq : r.canonical target p = .ok q) : PartAt r kind q

/-- All parts are given as objects, where they are given at all. -/
def GivesObjects (r : Resolver) : Prop :=
  ∀ kind p items, r.PartAt kind p → p.find? r.root ≠ some (.array items)

/-- A document in which the parts of a description are found where they are read. -/
structure Regular (r : Resolver) : Prop where
  keys : r.root.UniqueKeys
  short : r.root.Addressable
  objects : r.GivesObjects

variable {r : Resolver}

/-- What a chain of references leads to is a part of the kind that they stand for. -/
theorem PartAt.of_follow {α : Type} {decode : Decoder α} {kind : PartKind}
    (hkind : kind ∈ PartKind.followed) {q : Pointer} {a : α} : ∀ {steps : Nat}
    {seen : List Pointer} {target : String} {p : Pointer}, r.PartAt kind p →
    r.root.RefersAt p target → r.follow decode steps seen target p = .ok (q, a) → r.PartAt kind q
  | 0, _, _, _, _, _, h => by cases h
  | steps + 1, _, target, p, hp, href, h => by
    unfold follow at h
    split at h
    · cases h
    · rename_i p' v hresolve
      have hcanonical : r.canonical target p = .ok p' := by
        unfold resolve at hresolve
        split at hresolve
        · cases hresolve
        · rename_i hcanonical
          split at hresolve
          · cases hresolve
            exact hcanonical
          · cases hresolve
      have hp' : r.PartAt kind p' := .referred hp hkind href hcanonical
      split at h
      · cases h
      · split at h
        · rename_i next hnext
          exact PartAt.of_follow hkind hp' ⟨v, find_of_resolve hresolve, hnext⟩ h
        · split at h
          · cases h
            exact hp'
          · cases h

theorem PartAt.of_resolveAs {α : Type} {decode : Decoder α} {kind : PartKind}
    (hkind : kind ∈ PartKind.followed) {p q : Pointer} {target : String} {a : α}
    (hp : r.PartAt kind p) (href : r.root.RefersAt p target)
    (h : r.resolveAs decode target p = .ok (q, a)) : r.PartAt kind q :=
  PartAt.of_follow hkind hp href h

end Resolver

/-! ## 2. Reading at a pointer -/

/-- What is read at a pointer has a property. -/
def ReadsAt {α : Type} (root : Json) (p : Pointer) (decode : Decoder α) (Q : α → Prop) : Prop :=
  ∀ v a, p.find? root = some v → decode v = .ok a → Q a

theorem Json.RefersAt.placesIn {root : Json} {p : Pointer} {target : String}
    (h : root.RefersAt p target) : Schema.placesIn root p (some target) := by
  obtain ⟨v, hv, hnext⟩ := h
  refine ⟨v, Schema.way_of_find hv, fun target' heq => ?_⟩
  cases heq
  exact hnext

/-- A text under the key of references makes a node a reference. -/
theorem Json.refersAt_of_child {root : Json} {p : Pointer} {target : String}
    (h : (p.child "$ref").find? root = some (.string target)) : root.RefersAt p target := by
  rw [Pointer.find?_child] at h
  obtain ⟨v, hv, hs⟩ := Option.bind_eq_some_iff.mp h
  refine ⟨v, hv, ?_⟩
  cases v with
  | object fs =>
    have hlookup : Json.lookup "$ref" fs = some (.string target) := hs
    rw [Resolver.next?, Json.field?, Json.fields, hlookup]
    rfl
  | array items =>
    have hposition : Pointer.position? "$ref" = none := by decide
    rw [Pointer.step?, hposition] at hs
    cases hs
  | null | bool _ | number _ | string _ => cases hs

section Reading

open Decoder

variable {root : Json} {p : Pointer} {α : Type} {decode : Decoder α}

theorem readsAt_text : ReadsAt root p text fun x => p.find? root = some (.string x) := by
  intro v x hv hx
  unfold text at hx
  split at hx
  · cases hx
    exact hv
  · cases hx

theorem readsAt_optional {Q : α → Prop} (h : ReadsAt root p decode Q) :
    ReadsAt root p (optional decode) fun o => ∀ a, o = some a → Q a := by
  intro v o hv ho a ha
  rcases ok_of_optional ho with ⟨_, rfl⟩ | ⟨b, hb, rfl⟩
  · cases ha
  · cases ha
    exact h v _ hv hb

/-- A field of an object stands under its key. -/
theorem find_of_field (hk : root.UniqueKeys) {fs : List (String × Json)}
    (hv : p.find? root = some (.object fs)) {f : String × Json} (hf : f ∈ fs) :
    (p.child f.1).find? root = some f.2 := by
  rw [Pointer.find?_child_of hv]
  exact (Json.lookup_iff_mem (hk.find? hv).nodup).mpr hf

variable {Q : Pointer → α → Prop}

theorem readsAt_list (hs : root.Addressable)
    (h : ∀ i, ReadsAt root (p.item i) decode (Q (p.item i))) :
    ReadsAt root p (list decode) (PlacedItems Q p) := by
  intro v as hv has i a ha
  unfold list at has
  split at has
  · rename_i items
    obtain ⟨hlength, hread⟩ := List.forall₂_iff_get.mp (forall₂_of_mapM has)
    obtain ⟨hi, rfl⟩ := List.getElem?_eq_some_iff.mp ha
    have hi' : i < items.length := hlength ▸ hi
    refine h i items[i] _ ?_ (hread i hi' hi)
    rw [Pointer.item, Pointer.find?_child_of hv, Pointer.step?_item (hs.find? hv).length hi']
    exact List.getElem?_eq_getElem hi'
  · cases has

theorem readsAt_named (hk : root.UniqueKeys)
    (h : ∀ name, ReadsAt root (p.child name) decode (Q (p.child name))) :
    ReadsAt root p (named decode) (PlacedEntries Q p) := by
  intro v es hv hes e he
  obtain ⟨fs, rfl, hread⟩ := forall₂_of_named hes
  obtain ⟨f, hf, hname, hfe⟩ := exists_of_forall₂ hread he
  refine h e.1 f.2 e.2 ?_ hfe
  rw [hname]
  exact find_of_field hk hv hf

theorem readsAt_entries (hk : root.UniqueKeys) (h : ∀ name, isExtension name = false →
      ReadsAt root (p.child name) decode (Q (p.child name))) :
    ReadsAt root p (entries decode) (PlacedEntries Q p) := by
  intro v es hv hes e he
  obtain ⟨fs, rfl, hread⟩ := forall₂_of_entries hes
  obtain ⟨f, hf, hname, hfe⟩ := exists_of_forall₂ hread he
  obtain ⟨hf, hx⟩ := List.mem_filter.mp hf
  refine h e.1 ?_ f.2 e.2 ?_ hfe
  · rw [hname]
    simpa using hx
  · rw [hname]
    exact find_of_field hk hv hf

/-- A collection of the components. -/
theorem readsAt_collection (hk : root.UniqueKeys) {name : String}
    (h : ∀ p, ReadsAt root (((Pointer.root.child "components").child name).child p) decode
      (Q (((Pointer.root.child "components").child name).child p))) :
    ReadsAt root ((Pointer.root.child "components").child name) (optional (named decode))
      (PlacedCollection Q name) := by
  intro v o hv ho
  cases o with
  | none => exact fun e he => absurd he List.not_mem_nil
  | some es => exact readsAt_optional (readsAt_named hk h) v _ hv ho es rfl

end Reading

/-- Components that are not there are placed. -/
theorem Components.placed_empty {env : Environment} {At : Places} :
    ({} : Components).Placed env At := by
  constructor <;> exact fun _ he => absurd he List.not_mem_nil

/-! ## 3. Kinds of parts -/

/-- The values of the fields of the part at a pointer. -/
abbrev FieldAt (root : Json) (p : Pointer) (key : String) (v : Json) : Prop :=
  (p.child key).find? root = some v

namespace Resolver.Regular

open Decoder ApiTypes.Field Schema

variable {r : Resolver} (hr : r.Regular) {kind : PartKind} {p : Pointer} {α : Type}

include hr

/-- **What the fields of a part keep holds of the part.** -/
theorem record {layout : Layout α} {Q : α → Prop} (hp : r.PartAt kind p) (hstart : Q layout.start)
    (hf : ∀ f ∈ layout.fields, f.KeepsFor (FieldAt r.root p) Q) :
    ReadsAt r.root p layout.decode Q := by
  intro v a hv h
  cases v with
  | object fs => exact Layout.of_object hstart hf (fun _ => find_of_field hr.keys hv) h
  | array items => exact absurd hv (hr.objects kind p items hp)
  | null | bool _ | number _ | string _ => cases h

theorem schema : ReadsAt r.root p Decode.schema (Schema.Placed (placesIn r.root) p) := by
  intro v s hv hs
  cases hs
  exact placed_ofJson hr.keys hr.short v p (way_of_find hv)

/-- What is read as a reference is one. -/
theorem reference (hp : r.PartAt kind p) : ReadsAt r.root p Decode.refLayout.decode
    fun x => r.root.RefersAt p x.target := by
  intro v x hv hx
  cases v with
  | object fs =>
    -- the target is no invariant of the fields: the record starts with an empty one
    have hreads : Decode.refLayout.Reads "$ref" RefObject.target text :=
      .of_field 0 rfl rfl (sets_needed fun _ _ => rfl) (by simp [Decode.refLayout, leaves_of])
    obtain ⟨w, hw⟩ : ∃ w, Json.lookup "$ref" fs = some w :=
      Layout.exists_of_required List.mem_cons_self rfl hx
    have hread := hreads.of_decode (hr.keys.find? hv).nodup hx
    simp only [hw] at hread
    have hchild : (p.child "$ref").find? r.root = some w := by
      rw [Pointer.find?_child_of hv]
      exact hw
    exact Json.refersAt_of_child (readsAt_text w _ hchild hread)
  | array items => exact absurd hv (hr.objects kind p items hp)
  | null | bool _ | number _ | string _ => cases hx

theorem orRef {decode : Decoder α} {Q : Pointer → α → Prop} (hp : r.PartAt kind p)
    (h : ReadsAt r.root p decode (Q p)) :
    ReadsAt r.root p (Decode.orRef decode) (OrRef.Placed (placesIn r.root) Q p) := by
  intro v part hv hpart
  cases part with
  | ref x => exact (hr.reference hp v x hv (Decode.ref_of_orRef hpart)).placesIn
  | item a => exact h v a hv (Decode.item_of_orRef hpart)

theorem mediaType (hp : r.PartAt .mediaType p) :
    ReadsAt r.root p Decode.mediaType (MediaType.Placed (placesIn r.root) p) := by
  refine hr.record hp (by simp [MediaType.Placed]) ?_
  simp only [List.forall_mem_cons, List.not_mem_nil, false_implies, implies_true, and_true]
  exact ⟨keepsFor_of (readsAt_optional hr.schema) fun _ _ h _ => h,
    keepsFor_other fun _ _ h => h⟩

theorem content (hp : r.PartAt kind p) (hf : ("content", .named, .mediaType) ∈ kind.fields) :
    ReadsAt r.root (p.child "content") Decode.content (Content.Placed (placesIn r.root) p) :=
  readsAt_named hr.keys fun name => hr.mediaType (.named hp hf name)

theorem parameter (hp : r.PartAt .parameter p) :
    ReadsAt r.root p Decode.parameter (Parameter.Placed (placesIn r.root) p) := by
  refine hr.record hp (by simp [Parameter.Placed, PlacedValue]) ?_
  simp only [List.forall_mem_cons, List.not_mem_nil, false_implies, implies_true, and_true]
  exact ⟨keepsFor_needed fun _ _ h => h, keepsFor_needed fun _ _ h => h,
    keepsFor_other fun _ _ h => h, keepsFor_other fun _ _ h => h, keepsFor_other fun _ _ h => h,
    keepsFor_of (readsAt_optional hr.schema) fun _ _ h ha => ⟨h, ha.2⟩,
    keepsFor_of (readsAt_optional (hr.content hp (by decide))) fun _ _ h ha => ⟨ha.1, h⟩,
    keepsFor_other fun _ _ h => h⟩

theorem requestBody (hp : r.PartAt .requestBody p) :
    ReadsAt r.root p Decode.requestBody (RequestBody.Placed (placesIn r.root) p) := by
  refine hr.record hp (fun _ he => absurd he List.not_mem_nil) ?_
  simp only [List.forall_mem_cons, List.not_mem_nil, false_implies, implies_true, and_true]
  exact ⟨keepsFor_other fun _ _ h => h,
    keepsFor_of (hr.content hp (by decide)) fun _ _ h _ => h, keepsFor_other fun _ _ h => h⟩

theorem header (hp : r.PartAt .header p) :
    ReadsAt r.root p Decode.header (Header.Placed (placesIn r.root) p) := by
  refine hr.record hp (by simp [Header.Placed, PlacedValue]) ?_
  simp only [List.forall_mem_cons, List.not_mem_nil, false_implies, implies_true, and_true]
  exact ⟨keepsFor_other fun _ _ h => h, keepsFor_other fun _ _ h => h,
    keepsFor_other fun _ _ h => h,
    keepsFor_of (readsAt_optional hr.schema) fun _ _ h ha => ⟨h, ha.2⟩,
    keepsFor_of (readsAt_optional (hr.content hp (by decide))) fun _ _ h ha => ⟨ha.1, h⟩⟩

theorem response (hp : r.PartAt .response p) :
    ReadsAt r.root p Decode.response (Response.Placed (placesIn r.root) p) := by
  refine hr.record hp ⟨fun _ he => absurd he List.not_mem_nil, by simp⟩ ?_
  simp only [List.forall_mem_cons, List.not_mem_nil, false_implies, implies_true, and_true]
  refine ⟨keepsFor_other fun _ _ h => h, keepsFor_of (readsAt_named hr.keys fun name => ?_)
    fun _ _ h ha => ⟨h, ha.2⟩,
    keepsFor_of (readsAt_optional (hr.content hp (by decide))) fun _ _ h ha => ⟨ha.1, h⟩⟩
  have hname : r.PartAt .header ((p.child "headers").child name) := .named hp (by decide) name
  exact hr.orRef hname (hr.header hname)

section Operations

variable {config : Config}

/-- The parameters of an operation or of a path item, with those that they refer to. -/
theorem parameters (hp : r.PartAt kind p) (hf : ("parameters", .items, .parameter) ∈ kind.fields) :
    ReadsAt r.root (p.child "parameters") (list (Decode.orRef Decode.parameter))
      (PlacedItems (PlacedParameter ⟨config, r⟩ (placesIn r.root)) (p.child "parameters")) := by
  refine readsAt_list hr.short fun i => ?_
  have hi : r.PartAt .parameter ((p.child "parameters").item i) := .item hp hf i
  intro v part hv hpart
  cases part with
  | ref x =>
    have href := hr.reference hi v x hv (Decode.ref_of_orRef hpart)
    refine ⟨href.placesIn, fun q param hparam => ?_⟩
    obtain ⟨w, hw, hdecode⟩ := find_of_resolveAs hparam
    exact hr.parameter (.of_resolveAs (by decide) hi href hparam) w param hw hdecode
  | item param => exact hr.parameter hi v param hv (Decode.item_of_orRef hpart)

theorem operation (hp : r.PartAt .operation p) :
    ReadsAt r.root p Decode.operation (Operation.Placed ⟨config, r⟩ (placesIn r.root) p) := by
  refine hr.record hp ⟨by simp [PlacedItems], by simp, fun _ he => absurd he List.not_mem_nil⟩ ?_
  simp only [List.forall_mem_cons, List.not_mem_nil, false_implies, implies_true, and_true]
  refine ⟨keepsFor_other fun _ _ h => ⟨h.parameters, h.body, h.responses⟩,
    keepsFor_other fun _ _ h => ⟨h.parameters, h.body, h.responses⟩,
    keepsFor_other fun _ _ h => ⟨h.parameters, h.body, h.responses⟩,
    keepsFor_other fun _ _ h => ⟨h.parameters, h.body, h.responses⟩,
    keepsFor_other fun _ _ h => ⟨h.parameters, h.body, h.responses⟩,
    keepsFor_of (hr.parameters hp (by decide)) fun _ _ h ha => ⟨h, ha.body, ha.responses⟩,
    keepsFor_of (readsAt_optional ?_) fun _ _ h ha => ⟨ha.parameters, h, ha.responses⟩,
    keepsFor_of (readsAt_entries hr.keys fun name hx => ?_) fun _ _ h ha =>
      ⟨ha.parameters, ha.body, h⟩⟩
  · have hbody : r.PartAt .requestBody (p.child "requestBody") := .one hp (by decide)
    exact hr.orRef hbody (hr.requestBody hbody)
  · have hname : r.PartAt .response ((p.child "responses").child name) :=
      .entry hp (by decide) hx
    exact hr.orRef hname (hr.response hname)

/-- The field of a method, in an invariant that speaks of the operations one by one. -/
theorem method (hp : r.PartAt .pathItem p) (m : Method)
    {set : Option Operation → PathItem → PathItem} {F : PathItem → Prop}
    (hset : ∀ x a n, (set x a).operation? n = if n = m then x else a.operation? n)
    (hF : ∀ x a, F a → F (set x a)) :
    (Field.of m.name (optional Decode.operation) set).KeepsFor (FieldAt r.root p) fun item =>
      F item ∧ ∀ n o, item.operation? n = some o →
        o.Placed ⟨config, r⟩ (placesIn r.root) (p.child n.name) := by
  have hm : r.PartAt .operation (p.child m.name) := .one hp (by cases m <;> decide)
  have hreads : ReadsAt r.root (p.child m.name) Decode.operation
      (Operation.Placed ⟨config, r⟩ (placesIn r.root) (p.child m.name)) := hr.operation hm
  refine keepsFor_of (readsAt_optional hreads) fun x a hx ha => ⟨hF x a ha.1, fun n o hn => ?_⟩
  rw [hset] at hn
  split_ifs at hn with heq
  · rw [heq]
    exact hx o hn
  · exact ha.2 n o hn

/-- **A path item is placed where it is read**, and it says there what it refers to. -/
theorem pathItem (hp : r.PartAt .pathItem p) : ReadsAt r.root p Decode.pathItem fun item =>
    item.Placed ⟨config, r⟩ (placesIn r.root) p ∧
      ∀ target, item.reference = some target → r.root.RefersAt p target := by
  -- the invariant speaks of the operations by their methods, as each field sets one of them
  have hreads : ReadsAt r.root p Decode.pathItem fun item =>
      ((∀ target, item.reference = some target → r.root.RefersAt p target) ∧
        PlacedItems (PlacedParameter ⟨config, r⟩ (placesIn r.root)) (p.child "parameters")
          item.parameters) ∧
      ∀ m o, item.operation? m = some o →
        o.Placed ⟨config, r⟩ (placesIn r.root) (p.child m.name) := by
    refine hr.record hp ⟨⟨by simp, by simp [PlacedItems]⟩, fun m _ h => by cases m <;> cases h⟩ ?_
    simp only [List.forall_mem_cons, List.not_mem_nil, false_implies, implies_true, and_true]
    refine ⟨keepsFor_of (readsAt_optional readsAt_text) fun x _ h ha => ⟨⟨?_, ha.1.2⟩, ha.2⟩,
      keepsFor_other fun _ _ h => h, keepsFor_other fun _ _ h => h,
      hr.method hp .get ?_ fun _ _ h => h, hr.method hp .put ?_ fun _ _ h => h,
      hr.method hp .post ?_ fun _ _ h => h, hr.method hp .delete ?_ fun _ _ h => h,
      hr.method hp .options ?_ fun _ _ h => h, hr.method hp .head ?_ fun _ _ h => h,
      hr.method hp .patch ?_ fun _ _ h => h, hr.method hp .trace ?_ fun _ _ h => h,
      keepsFor_of (hr.parameters hp (by decide)) fun _ _ h ha => ⟨⟨ha.1.1, h⟩, ha.2⟩⟩
    · exact fun target htarget => Json.refersAt_of_child (h target htarget)
    all_goals
      intro x a n
      cases n <;> rfl
  intro v item hv hitem
  obtain ⟨⟨href, hparameters⟩, hoperations⟩ := hreads v item hv hitem
  refine ⟨⟨hparameters, fun o ho => ?_⟩, href⟩
  exact hoperations o.1 o.2 (PathItem.mem_operations.mp ho)

/-- **The components are placed where they are read.** -/
theorem components (hp : r.PartAt .components (Pointer.root.child "components")) :
    ReadsAt r.root (Pointer.root.child "components") Decode.components
      (Components.Placed ⟨config, r⟩ (placesIn r.root)) := by
  have hpart : ∀ (field : String) (part : PartKind),
      (field, .named, part) ∈ PartKind.components.fields → ∀ name,
      r.PartAt part (((Pointer.root.child "components").child field).child name) :=
    fun _ _ hf => .named hp hf
  refine hr.record hp Components.placed_empty ?_
  simp only [List.forall_mem_cons, List.not_mem_nil, false_implies, implies_true, and_true]
  refine ⟨
    keepsFor_of (readsAt_collection hr.keys fun _ => hr.schema)
      fun _ _ h ⟨_, h2, h3, h4, h5, h6⟩ => ⟨h, h2, h3, h4, h5, h6⟩,
    keepsFor_of (readsAt_collection hr.keys fun name => ?_)
      fun _ _ h ⟨h1, _, h3, h4, h5, h6⟩ => ⟨h1, h, h3, h4, h5, h6⟩,
    keepsFor_of (readsAt_collection hr.keys fun name => ?_)
      fun _ _ h ⟨h1, h2, _, h4, h5, h6⟩ => ⟨h1, h2, h, h4, h5, h6⟩,
    keepsFor_of (readsAt_collection hr.keys fun name => ?_)
      fun _ _ h ⟨h1, h2, h3, _, h5, h6⟩ => ⟨h1, h2, h3, h, h5, h6⟩,
    keepsFor_of (readsAt_collection hr.keys fun name => ?_)
      fun _ _ h ⟨h1, h2, h3, h4, _, h6⟩ => ⟨h1, h2, h3, h4, h, h6⟩,
    keepsFor_of (readsAt_collection hr.keys fun name => ?_)
      fun _ _ h ⟨h1, h2, h3, h4, h5, _⟩ => ⟨h1, h2, h3, h4, h5, h⟩⟩
  · have hname := hpart "responses" .response (by decide) name
    exact hr.orRef hname (hr.response hname)
  · have hname := hpart "parameters" .parameter (by decide) name
    exact hr.orRef hname (hr.parameter hname)
  · have hname := hpart "requestBodies" .requestBody (by decide) name
    exact hr.orRef hname (hr.requestBody hname)
  · have hname := hpart "headers" .header (by decide) name
    exact hr.orRef hname (hr.header hname)
  · have hname := hpart "pathItems" .pathItem (by decide) name
    exact hr.orRef hname fun v item hv hitem => (hr.pathItem hname v item hv hitem).1

end Operations

end Resolver.Regular

end ApiTypes
