/-
# Where path items stand

An entry of the paths or of the webhooks stands for a path item: the one in its place, or the one
that a chain of references leads to.  What stands at a pointer is read from the value of the
document, so two entries that lead to one pointer have one path item, and an operation is known by
its location.

* `Document.StandsAt` and `Document.Leads` say which path item stands at a pointer, and which
  entries lead there.
* `Document.Describes` says from which operation an operation is typed, and
  `Document.Describes.same_place` that its location determines it.
-/
import ApiTypes.Proofs.Document.Loaded
import ApiTypes.Proofs.Document.Routes
import ApiTypes.Proofs.Resolver

namespace ApiTypes

/-! ## 1. Operations of a path item -/

theorem Method.name_inj {m n : Method} : m.name = n.name ↔ m = n := by
  cases m <;> cases n <;> decide

/-- The operation of a method. -/
def PathItem.operation? (item : PathItem) : Method → Option Operation
  | .get => item.get
  | .put => item.put
  | .post => item.post
  | .delete => item.delete
  | .options => item.options
  | .head => item.head
  | .patch => item.patch
  | .trace => item.trace

theorem PathItem.mem_operations {item : PathItem} {m : Method} {o : Operation} :
    (m, o) ∈ item.operations ↔ item.operation? m = some o := by
  cases m <;> simp [operations, operation?]

/-! ## 2. Entries -/

/-- The entries of a section.  A path is a path item, which may name another one. -/
def Spec.Entry (s : Spec) : RouteKind → String → OrRef PathItem → Prop
  | .path, name, .item item => (name, item) ∈ s.paths.getD []
  | .path, _, .ref _ => False
  | .webhook, name, part => (name, part) ∈ s.webhooks.getD []

/-- The name of a section. -/
def RouteKind.key : RouteKind → String
  | .path => "paths"
  | .webhook => "webhooks"

theorem RouteKind.place_eq (kind : RouteKind) (name : String) :
    kind.place name = ⟨[kind.key, name]⟩ := by
  cases kind <;> rfl

/-- How the entries of a section are read. -/
def RouteKind.read : RouteKind → Decoder (OrRef PathItem)
  | .path => fun v => (Decode.pathItem v).map .item
  | .webhook => Decode.orRef Decode.pathItem

theorem RouteKind.item_of_read {kind : RouteKind} {v : Json} {item : PathItem}
    (h : kind.read v = .ok (.item item)) : Decode.pathItem v = .ok item := by
  cases kind with
  | path =>
    obtain ⟨_, hread, heq⟩ := ok_of_map h
    cases heq
    exact hread
  | webhook => exact Decode.item_of_orRef h

/-- The entries of a section, all of them as parts that may be references. -/
def Spec.entries? (s : Spec) : RouteKind → Option (List (String × OrRef PathItem))
  | .path => s.paths.map (·.map (Prod.map id .item))
  | .webhook => s.webhooks

theorem Spec.mem_entries? {s : Spec} {kind : RouteKind} {name : String} {part : OrRef PathItem} :
    (name, part) ∈ (s.entries? kind).getD [] ↔ s.Entry kind name part := by
  cases kind with
  | path => cases part <;> cases h : s.paths <;> simp [entries?, Entry, h]
  | webhook => rfl

/-- The reference that stands in the place of a path item, if there is one. -/
def OrRef.pathTarget? : OrRef PathItem → Option String
  | .ref r => some r.target
  | .item own => own.reference

namespace Document

/-- A path item stands at a pointer. -/
def StandsAt (d : Document) (p : Pointer) (item : PathItem) : Prop :=
  ∃ v, p.find? d.raw = some v ∧ Decode.pathItem v = .ok item

/-- An entry of a section refers to the path item at a pointer. -/
def RefersTo (d : Document) (kind : RouteKind) (name : String) (p : Pointer) : Prop :=
  ∃ part target item, d.spec.Entry kind name part ∧ part.pathTarget? = some target ∧
    d.resolver.resolveAs Decode.pathItem target (kind.place name) = .ok (p, item)

/-- An entry of a section leads to the path item at a pointer: it refers to it, or the path item
stands in its place. -/
def Leads (d : Document) (kind : RouteKind) (name : String) (p : Pointer) : Prop :=
  d.RefersTo kind name p ∨
    p = kind.place name ∧ ∃ part, d.spec.Entry kind name part ∧ part.pathTarget? = none

variable {d : Document} {kind : RouteKind} {name : String} {p : Pointer} {item : PathItem}

theorem StandsAt.unique {item' : PathItem} (h : d.StandsAt p item) (h' : d.StandsAt p item') :
    item = item' := by
  obtain ⟨v, hv, hitem⟩ := h
  obtain ⟨v', hv', hitem'⟩ := h'
  rw [hv] at hv'
  cases hv'
  rw [hitem] at hitem'
  cases hitem'
  rfl

/-- Two entries of one section lead to one pointer only through a reference. -/
theorem Leads.eq_or_refersTo {name' : String} (h : d.Leads kind name p)
    (h' : d.Leads kind name' p) :
    name = name' ∨ d.RefersTo kind name p ∨ d.RefersTo kind name' p := by
  rcases h with h | ⟨hp, _⟩
  · exact Or.inr (Or.inl h)
  · rcases h' with h' | ⟨hp', _⟩
    · exact Or.inr (Or.inr h')
    · refine Or.inl ?_
      rw [hp] at hp'
      cases kind with
      | path => exact (Pointer.child_inj.mp hp').2
      | webhook => exact (Pointer.child_inj.mp hp').2

open ApiTypes.Field in
/-- The entries of a section are read from the value under its name. -/
theorem Loaded.entries_eq (h : d.Loaded) (kind : RouteKind) {fs : List (String × Json)}
    (hfs : d.raw = .object fs) :
    match Json.lookup kind.key fs with
    | some v => Decoder.optional (Decoder.entries kind.read) v = .ok (d.spec.entries? kind)
    | none => d.spec.entries? kind = none := by
  obtain ⟨hk, -, hspec⟩ := h.spells
  rw [hfs] at hk hspec
  cases kind with
  | path =>
    have hpaths : match Json.lookup "paths" fs with
        | some v => Decoder.optional (Decoder.entries Decode.pathItem) v = .ok d.spec.paths
        | none => d.spec.paths = none := by
      refine Layout.Reads.of_decode (.of_field 3 rfl rfl (sets_own fun _ _ => rfl) ?_) hk.nodup
        hspec
      simp [leaves_of, leaves_needed]
    simp only [RouteKind.key]
    split at hpaths
    · exact Decoder.optional_entries_map hpaths
    · rw [Spec.entries?, hpaths, Option.map_none]
  | webhook =>
    show match Json.lookup "webhooks" fs with
      | some v => Decoder.optional (Decoder.entries (Decode.orRef Decode.pathItem)) v
          = .ok d.spec.webhooks
      | none => d.spec.webhooks = none
    refine Layout.Reads.of_decode (.of_field 4 rfl rfl (sets_own fun _ _ => rfl) ?_) hk.nodup hspec
    simp [leaves_of, leaves_needed]

/-- **An entry stands in its place**, and is no extension. -/
theorem Loaded.find_entry (h : d.Loaded) {part : OrRef PathItem}
    (he : d.spec.Entry kind name part) :
    Decoder.isExtension name = false ∧
      ∃ v, (kind.place name).find? d.raw = some v ∧ kind.read v = .ok part := by
  obtain ⟨hk, ⟨fs, hfs⟩, -⟩ := h.spells
  have hread := h.entries_eq kind hfs
  rw [hfs] at hk ⊢
  rw [kind.place_eq]
  exact find_of_section hk hread (Spec.mem_entries?.mpr he)

/-- What stands in a section is an entry, unless it is an extension. -/
theorem Loaded.entry_of_find (h : d.Loaded) {rest : List String} {v : Json}
    (hv : Pointer.find? d.raw ⟨kind.key :: name :: rest⟩ = some v)
    (hx : Decoder.isExtension name = false) : ∃ part, d.spec.Entry kind name part := by
  obtain ⟨-, ⟨fs, hfs⟩, -⟩ := h.spells
  rw [hfs] at hv
  obtain ⟨part, hpart⟩ := ApiTypes.entry_of_find (h.entries_eq kind hfs) hv hx
  exact ⟨part, Spec.mem_entries?.mp hpart⟩

/-- The path item of an entry stands in its place. -/
theorem Loaded.standsAt_place (h : d.Loaded) (he : d.spec.Entry kind name (.item item)) :
    d.StandsAt (kind.place name) item := by
  obtain ⟨_, v, hv, hread⟩ := h.find_entry he
  exact ⟨v, hv, RouteKind.item_of_read hread⟩

open Typing in
/-- **The path item that an entry stands for stands at the pointer it leads to.** -/
theorem Loaded.of_itemOf (h : d.Loaded) {config : Config} {part : OrRef PathItem}
    (he : d.spec.Entry kind name part)
    (hg : Gives (itemOf ⟨config, d.resolver⟩ (kind.place name) part) (p, item)) :
    d.StandsAt p item ∧ d.Leads kind name p := by
  have hat : ∀ target, part.pathTarget? = some target →
      Gives (pathItemAt ⟨config, d.resolver⟩ target (kind.place name)) (p, item) →
      d.StandsAt p item ∧ d.Leads kind name p := by
    intro target htarget hat
    obtain ⟨_, _, hat⟩ := hat.of_bind
    refine ⟨Resolver.find_of_resolveAs hat.of_lift, Or.inl ?_⟩
    exact ⟨part, target, item, he, htarget, hat.of_lift⟩
  cases part with
  | ref r => exact hat r.target rfl hg
  | item own =>
    rw [itemOf, followed] at hg
    split at hg
    · rename_i target htarget
      exact hat target htarget hg
    · rename_i hnone
      cases hg.of_pure
      exact ⟨h.standsAt_place he, Or.inr ⟨rfl, _, he, hnone⟩⟩

open Typing in
/-- An entry that leads to a pointer is typed from the path item that stands there. -/
theorem Loaded.eq_of_itemOf (h : d.Loaded) {config : Config} (hstands : d.StandsAt p item)
    (hleads : d.Leads kind name p) : ∃ part, d.spec.Entry kind name part ∧
      ∀ x, Gives (itemOf ⟨config, d.resolver⟩ (kind.place name) part) x → x = (p, item) := by
  rcases hleads with ⟨part, target, item', he, htarget, hresolve⟩ | ⟨rfl, part, he, hnone⟩
  · refine ⟨part, he, fun x hx => ?_⟩
    have hat : Gives (pathItemAt ⟨config, d.resolver⟩ target (kind.place name)) x := by
      cases part with
      | ref r =>
        cases htarget
        exact hx
      | item own =>
        have hreference : own.reference = some target := htarget
        rw [itemOf, followed, hreference] at hx
        exact hx
    obtain ⟨_, _, hat⟩ := hat.of_bind
    have hx := hat.of_lift
    rw [hresolve] at hx
    cases hx
    rw [hstands.unique (Resolver.find_of_resolveAs hresolve)]
  · refine ⟨part, he, fun x hx => ?_⟩
    cases part with
    | ref r => cases hnone
    | item own =>
      have hreference : own.reference = none := hnone
      rw [itemOf, followed, hreference] at hx
      rw [hx.of_pure, hstands.unique (h.standsAt_place he)]

/-! ## 3. Typed operations -/

/-- An operation is typed from an operation of the path item at a pointer, to which its entry
leads. -/
structure Describes (d : Document) (config : Config) (p : Pointer) (item : PathItem)
    (op : Operation) (o : TypedOperation) : Prop where
  stands : d.StandsAt p item
  leads : d.Leads o.kind o.path p
  declared : (o.method, op) ∈ item.operations
  gives : Typing.Gives (Typing.operation ⟨config, d.resolver⟩
    ⟨o.kind, o.path, p, item.parameters⟩ o.method op) o

theorem describes_of_gives {config : Config} {o : Method × Operation} {t : TypedOperation}
    (hstands : d.StandsAt p item) (hleads : d.Leads kind name p) (ho : o ∈ item.operations)
    (h : Typing.Gives (Typing.operation ⟨config, d.resolver⟩ ⟨kind, name, p, item.parameters⟩
      o.1 o.2) t) : d.Describes config p item o.2 t := by
  obtain ⟨_, _, hkind, hmethod, hpath⟩ := h.of_operation
  simp only at hkind hpath
  subst hkind hpath
  obtain ⟨m, op⟩ := o
  simp only at hmethod
  subst hmethod
  exact ⟨hstands, hleads, ho, h⟩

namespace Describes

variable {config : Config} {op : Operation} {o : TypedOperation}

theorem location (h : d.Describes config p item op o) : o.location = p.child o.method.name :=
  h.gives.of_operation.2.1

/-- **The location of an operation determines what it is typed from.** -/
theorem same_place {config' : Config} {p' : Pointer} {item' : PathItem} {op' : Operation}
    {o' : TypedOperation} (h : d.Describes config p item op o)
    (h' : d.Describes config' p' item' op' o') (hplace : o.location = o'.location) :
    p = p' ∧ item = item' ∧ op = op' ∧ o.method = o'.method := by
  rw [h.location, h'.location, Pointer.child_inj, Method.name_inj] at hplace
  obtain ⟨rfl, hmethod⟩ := hplace
  obtain rfl := h.stands.unique h'.stands
  have hop := PathItem.mem_operations.mp h.declared
  rw [hmethod, PathItem.mem_operations.mp h'.declared] at hop
  cases hop
  exact ⟨rfl, rfl, rfl, hmethod⟩

end Describes

end Document

end ApiTypes
