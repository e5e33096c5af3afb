/-
# The pointers that a document refers to

A typed document lists the pointers that references have led to.  For a schema the list is exact:
typing it adds just the pointers of the references in the schema.  For a document it is sound in
both directions that matter to its readers: whatever the types name is in the list, and whatever is
in the list stands in the document.  The list may hold more than the types name, because a type that
occurs twice in a union is kept once, and because an operation that is reached by two entries is
registered once.

* `Typing.tracks_entry` and `Typing.tracks_collected` are the steps from path items to documents.
* `recorded_exact_and_sound` is the statement.
-/
import ApiTypes.Proofs.Document.Declared
import ApiTypes.Proofs.Typing.OperationRecording

namespace ApiTypes

open TypeExpr

namespace Typing

variable {env : Environment}

/-! ## 1. Entries -/

theorem tracks_pathItemAt {target : String} {p : Pointer} :
    Tracks env (fun _ _ => True) (pathItemAt env target p) :=
  tracks_reference.bind fun _ => tracks_lift.mono fun _ _ _ _ => trivial

theorem tracks_itemOf {p : Pointer} (part : OrRef PathItem) :
    Tracks env (fun _ _ => True) (itemOf env p part) := by
  cases part with
  | ref r => exact tracks_pathItemAt
  | item item =>
    show Tracks env _ (followed env p item)
    unfold followed
    split
    · exact tracks_pathItemAt
    · exact tracks_pure fun _ => trivial

/-- **The types of an entry and of its operations name what was recorded for it.** -/
theorem tracks_entry {kind : RouteKind} {name : String} {part : OrRef PathItem} :
    Tracks env (fun S x => x.1.NamesWithin S ∧ ∀ o ∈ x.2, o.NamesWithin S)
      (entry env kind name part) := by
  refine (tracks_itemOf part).bind fun x => tracks_operationsOf.bind fun os =>
    tracks_pathRecord.bind_pure fun S type htype hos _ => ?_
  have hrecord : type.NamesWithin S := htype fun o _ => (obeys_leaf rfl).mpr trivial
  exact ⟨memberObeys_route holds_plain hrecord, hos⟩

/-! ## 2. Documents -/

/-- Registering operations adds none that were not to be registered. -/
theorem tracks_registerAll {os : List TypedOperation} :
    Tracks env (fun S (r : Registry) => (∀ o ∈ os, o.NamesWithin S) → ∀ o ∈ r, o.NamesWithin S)
      (registerAll [] os) :=
  tracks_lift.mono fun _ _ h hos o ho => hos o (Registry.mem_of_registered h ho)

/-- **The types of a description name what was recorded for it.** -/
theorem tracks_collected {s : Spec} :
    Tracks env (fun S x => x.1.NamesWithin S ∧ x.2.1.NamesWithin S ∧ x.2.2.1.NamesWithin S ∧
      ∀ o ∈ x.2.2.2, o.NamesWithin S) (collected env s) := by
  refine (Tracks.mapM fun e _ => tracks_entry).bind fun paths =>
    (Tracks.mapM fun e _ => tracks_entry).bind fun webhooks => tracks_components.bind fun c =>
    tracks_registerAll.bind_pure fun S operations hoperations hc hwebhooks hpaths => ?_
  refine ⟨namesWithin_closed ?_, namesWithin_closed ?_, hc, hoperations ?_⟩
  · exact List.forall_mem_map.mpr fun x hx => (hpaths x hx).1
  · exact List.forall_mem_map.mpr fun x hx => (hwebhooks x hx).1
  · rw [← List.flatMap_append]
    intro o ho
    obtain ⟨x, hx, ho⟩ := List.mem_flatMap.mp ho
    rcases List.mem_append.mp hx with hx | hx
    · exact (hpaths x hx).2 o ho
    · exact (hwebhooks x hx).2 o ho

end Typing

/-- Where a run of a document's typing ends. -/
theorem Document.run_of_typed {d : Document} {config : Config} {t : TypedDocument}
    (h : d.typed config = .ok t) :
    ExceptT.run (Typing.collected ⟨config, d.resolver⟩ d.spec) []
      = (.ok (t.paths, t.webhooks, t.components, t.operations), t.referenced) := by
  unfold typed at h
  split at h
  · cases h
  · rename_i paths webhooks components operations referenced hrun
    cases h
    rcases (Typing.agree_collected d.spec).run with ⟨a, b, refs, ha, hb, rfl⟩ | ⟨e, _, _, _, he, _⟩
    · rw [ha] at hrun
      cases hrun
      exact hb
    · rw [he] at hrun
      cases hrun

/-- **The recorded pointers are exact for a schema and sound for a document.**  Typing a schema
adds just the pointers of the references in it, and its type does not depend on what was recorded
before.  Whatever the types of a document name is recorded, and whatever is recorded stands in the
document. -/
theorem recorded_exact_and_sound :
    (∀ (env : Environment) (depth : Nat) (p : Pointer) (s : Schema) (e : TypeExpr)
        (refs refs' : List Pointer),
      ExceptT.run (Typing.schema env depth p s) refs = (.ok e, refs') →
        (∀ target, s.RefersTo target → ∃ q, env.resolver.canonical target .root = .ok q) ∧
        (∀ q, q ∈ refs' ↔ q ∈ refs ∨ env.PointersOf s.RefersTo q) ∧
        (Pointer.Ascending refs → Pointer.Ascending refs') ∧
        ∀ others, ∃ others',
          ExceptT.run (Typing.schema env depth p s) others = (.ok e, others')) ∧
    ∀ (d : Document) (config : Config) (t : TypedDocument), d.typed config = .ok t →
      (∀ q, t.Mentions q → q ∈ t.referenced) ∧
      (∀ o ∈ t.operations, ∀ x ∈ o.pathParams, x.2.NamesWithin (· ∈ t.referenced)) ∧
      ∀ q ∈ t.referenced, ∃ v, q.find? d.raw = some v := by
  constructor
  · intro env depth p s e refs refs' hrun
    obtain ⟨hresolves, hyields, _⟩ := Typing.follows_schema s e ⟨refs, refs', hrun⟩
    obtain ⟨_, hrun', hascending, hmem⟩ := hyields refs
    rw [hrun] at hrun'
    cases hrun'
    refine ⟨hresolves, hmem, hascending, fun others => ?_⟩
    obtain ⟨others', hothers, _⟩ := hyields others
    exact ⟨others', hothers⟩
  · intro d config t htyped
    obtain ⟨_, hnew, hnames⟩ := Typing.tracks_collected _ _ _ (Document.run_of_typed htyped)
    obtain ⟨hpaths, hwebhooks, hcomponents, hoperations⟩ := hnames (· ∈ t.referenced) fun _ => id
    have hobeys : t.Obeys (TypeExpr.Holds (· ∈ t.referenced) fun _ => True) :=
      TypedDocument.obeys_iff.mpr
        ⟨hpaths, hwebhooks, hcomponents, fun o ho => (hoperations o ho).1⟩
    refine ⟨fun q hq => ?_, fun o ho => (hoperations o ho).2, fun q hq => ?_⟩
    · rcases hq with hq | ⟨group, keys, key, hpick, hkey, rfl⟩
      · exact hobeys _ hq
      · exact hobeys _ hpick key hkey
    · obtain ⟨target, location, hcanonical⟩ := (hnew q hq).resolve_left List.not_mem_nil
      exact Resolver.find_of_canonical hcanonical

/-- Two alternatives that refer to one component, of which the union keeps one. -/
def twiceSchema : Schema :=
  .composed [] [.reference "#/components/schemas/Pet" {}, .reference "#/components/schemas/Pet" {}]
    [] none none {}

/-- The pointer of a component is recorded for a schema that refers to it twice, and for a
document that refers to it from another component. -/
theorem recorded_petPointer :
    (∀ q, q ∈ [petPointer] ↔ q ∈ ([] : List Pointer) ∨
      (Environment.mk {} (aliasDocument "#/components/schemas/Pet").resolver).PointersOf
        twiceSchema.RefersTo q) ∧
      (∀ q, (aliasTypes petPointer).Mentions q → q ∈ [petPointer]) ∧
      ∀ q ∈ [petPointer], ∃ v, q.find? (aliasRaw "#/components/schemas/Pet") = some v := by
  have htyped : (aliasDocument "#/components/schemas/Pet").typed {}
      = .ok (aliasTypes petPointer) := by
    cbv
  have hdocument := recorded_exact_and_sound.2 _ _ _ htyped
  refine ⟨?_, hdocument.1, hdocument.2.2⟩
  exact (recorded_exact_and_sound.1 _ 0 .root twiceSchema (.reference petPointer) [] [petPointer]
    (by cbv)).2.1

end ApiTypes
