/-
# What occurs in the types of the components

The components are typed by a record of six collections.  A collection that is declared is a
record of its parts, each under its name; one that is not has the empty type.

* `Typing.OfCollection` says what the member of a collection is, and `Typing.of_components` that
  the type of the components is made of such members.
* `Typing.obeys_components`: everything that occurs in it obeys.
* `Typing.exists_pathItemComponent` finds the path items among the components in it.
-/
import ApiTypes.Proofs.Typing.OperationParts

namespace ApiTypes.Typing

open TypeExpr

variable {env : Environment} {P : TypeExpr → Prop}

/-! ## 1. Collections -/

/-- The member of a collection with its name and the names of its parts, if it is declared. -/
def OfCollection (P : TypeExpr → Prop) (c : String × Option (List String))
    (m : Member TypeExpr) : Prop :=
  m.key = .name c.1 ∧
    match c.2 with
    | none => m.type = .never
    | some names => ∃ shown ms, m.type = .closed ms ∧ shown.Perm names ∧
        List.Forall₂ (NamedMember P) shown ms

/-- A collection of parts with distinct names. -/
theorem OfCollection.namedMember (hp : Permits env P) {c : String × Option (List String)}
    {m : Member TypeExpr} (hn : ∀ names, c.2 = some names → names.Nodup)
    (h : OfCollection P c m) : NamedMember P c.1 m := by
  obtain ⟨name, names⟩ := c
  obtain ⟨hkey, h⟩ := h
  refine ⟨hkey, ?_⟩
  cases names with
  | none =>
    simp only at h
    rw [h]
    exact obeys_never hp.plain
  | some names =>
    obtain ⟨shown, ms, hms, hperm, hnamed⟩ := h
    rw [hms]
    exact obeys_closed_of_named hp (hperm.nodup_iff.mpr (hn names rfl)) hnamed

section Collections

variable {α : Type} {type : String → Pointer → α → Typing (Member TypeExpr)}

theorem of_collection {name : String} {entries : Option (List (String × α))}
    {m : Member TypeExpr}
    (htype : ∀ es, entries = some es → ∀ e ∈ es, ∀ m,
      Gives (type e.1 (((Pointer.root.child "components").child name).child e.1) e.2) m →
        NamedMember P e.1 m)
    (h : Gives (collection env name type entries) m) :
    OfCollection P (name, entries.map (·.map Prod.fst)) m := by
  cases entries with
  | none =>
    rw [h.of_pure]
    exact ⟨rfl, rfl⟩
  | some es =>
    obtain ⟨ms, hms, h⟩ := h.of_bind
    rw [h.of_pure]
    exact ⟨rfl, _, ms, rfl, (ordered_perm _ _).map _, namedMembers_eachNamed (htype es rfl) hms⟩

theorem namedMember_componentOrRef (hp : Permits env P) {name : String} {p : Pointer}
    {part : OrRef α} {m : Member TypeExpr}
    (htype : ∀ a, part = .item a → ∀ m, Gives (type name p a) m → NamedMember P name m)
    (h : Gives (componentOrRef env type name p part) m) : NamedMember P name m := by
  cases part with
  | ref r => exact namedMember_reference hp h
  | item a => exact htype a rfl m h

end Collections

/-! ## 2. Parts of collections -/

theorem namedMember_schema (hp : Permits env P) {name : String} {p : Pointer} {s : Schema}
    {m : Member TypeExpr} (hs : s.UniqueNames) (h : Gives (schemaComponent env name p s) m) :
    NamedMember P name m := by
  obtain ⟨type, htype, h⟩ := h.of_bind
  rw [h.of_pure]
  exact namedMember_of (obeys_schema hp hs htype)

theorem namedMember_responseComponent (hp : Permits env P) {name : String} {p : Pointer}
    {r : Response} {m : Member TypeExpr} (hr : r.UniqueNames)
    (h : Gives (responseComponent env name p r) m) : NamedMember P name m := by
  obtain ⟨type, htype, h⟩ := h.of_bind
  rw [h.of_pure]
  exact ⟨rfl, obeys_response hp hr htype⟩

theorem namedMember_parameterComponent (hp : Permits env P) {name : String} {p : Pointer}
    {param : Parameter} {m : Member TypeExpr} (hn : param.UniqueNames)
    (h : Gives (parameterComponent env name p param) m) : NamedMember P name m := by
  obtain ⟨type, htype, h⟩ := h.of_bind
  rw [h.of_pure]
  exact ⟨rfl, obeys_parameter hp hn htype⟩

theorem namedMember_bodyComponent (hp : Permits env P) {name : String} {p : Pointer}
    {b : RequestBody} {m : Member TypeExpr} (hb : b.UniqueNames)
    (h : Gives (bodyComponent env name p b) m) : NamedMember P name m := by
  obtain ⟨type, htype, h⟩ := h.of_bind
  rw [h.of_pure]
  exact namedMember_of (obeys_requestBody hp hb htype)

theorem namedMember_headerComponent (hp : Permits env P) {name : String} {p : Pointer}
    {hd : Header} {m : Member TypeExpr} (hu : hd.UniqueNames)
    (h : Gives (headerComponent env name p hd) m) : NamedMember P name m := by
  obtain ⟨type, htype, h⟩ := h.of_bind
  rw [h.of_pure]
  exact ⟨rfl, obeys_header hp hu htype⟩

theorem namedMember_pathItem (hp : Permits env P) (hk : env.resolver.root.UniqueKeys)
    {name : String} {p : Pointer} {item : PathItem} {m : Member TypeExpr}
    (hitem : item.UniqueNames) (hfit : ParameterLists env (Fits P) p item)
    (h : Gives (pathItemComponent env name p item) m) : NamedMember P name m := by
  obtain ⟨os, hos, h⟩ := h.of_bind
  obtain ⟨type, htype, h⟩ := h.of_bind
  rw [h.of_pure]
  obtain ⟨hnames, hobeys⟩ := obeys_operationsOf hp hk hitem hfit hos
  exact ⟨rfl, obeys_pathRecord hp hk hitem hfit hnames (fun o ho => (hobeys o ho).1) htype⟩

/-! ## 3. Components -/

section Components

variable (hp : Permits env P) (hk : env.resolver.root.UniqueKeys) {c : Components} {e : TypeExpr}
  (hc : c.UniqueNames)
  (hfit : ∀ name item, (name, .item item) ∈ c.pathItems.getD [] →
    ParameterLists env (Fits P)
      (((Pointer.root.child "components").child "pathItems").child name) item)

include hp hk hc hfit

/-- **The type of the components is made of the members of the collections.** -/
theorem of_components (h : Gives (components env c) e) :
    ∃ ms, e = .closed ms ∧ List.Forall₂ (OfCollection P) c.collections ms := by
  obtain ⟨h1, h2, h3, h4, h5, h6⟩ := hc
  obtain ⟨m1, hm1, h⟩ := h.of_bind
  obtain ⟨m2, hm2, h⟩ := h.of_bind
  obtain ⟨m3, hm3, h⟩ := h.of_bind
  obtain ⟨m4, hm4, h⟩ := h.of_bind
  obtain ⟨m5, hm5, h⟩ := h.of_bind
  obtain ⟨m6, hm6, h⟩ := h.of_bind
  refine ⟨_, h.of_pure, .cons ?_ (.cons ?_ (.cons ?_ (.cons ?_ (.cons ?_ (.cons ?_ .nil)))))⟩
  · refine of_collection (fun es hs e he m hm => ?_) hm1
    exact namedMember_schema hp ((h1 es hs).parts e he) hm
  · refine of_collection (fun es hs e he m hm => ?_) hm2
    refine namedMember_componentOrRef hp (fun a ha m hm => ?_) hm
    exact namedMember_responseComponent hp ((h2 es hs).parts e he a ha) hm
  · refine of_collection (fun es hs e he m hm => ?_) hm3
    refine namedMember_componentOrRef hp (fun a ha m hm => ?_) hm
    exact namedMember_parameterComponent hp ((h3 es hs).parts e he a ha) hm
  · refine of_collection (fun es hs e he m hm => ?_) hm4
    refine namedMember_componentOrRef hp (fun a ha m hm => ?_) hm
    exact namedMember_bodyComponent hp ((h4 es hs).parts e he a ha) hm
  · refine of_collection (fun es hs e he m hm => ?_) hm5
    refine namedMember_componentOrRef hp (fun a ha m hm => ?_) hm
    exact namedMember_headerComponent hp ((h5 es hs).parts e he a ha) hm
  · refine of_collection (fun es hs e he m hm => ?_) hm6
    refine namedMember_componentOrRef hp (fun a ha m hm => ?_) hm
    refine namedMember_pathItem hp hk ((h6 es hs).parts e he a ha) (hfit e.1 a ?_) hm
    rw [hs, Option.getD_some, ← ha]
    exact he

/-- **Everything that occurs in the types of the components obeys**, if the parameters of the path
items among them fit. -/
theorem obeys_components (h : Gives (components env c) e) : Obeys P e := by
  obtain ⟨ms, rfl, hms⟩ := of_components hp hk hc hfit h
  have hcollections := hc.collections
  have hnames : (c.collections.map Prod.fst).Nodup := by
    rw [c.names_collections]
    decide
  refine obeys_closed_of_named hp hnames ?_
  generalize c.collections = cs at hms hcollections
  clear hnames h
  induction hms with
  | nil => exact .nil
  | cons hm _ ih =>
    refine .cons (hm.namedMember hp (hcollections _ List.mem_cons_self)) (ih fun k hmem => ?_)
    exact hcollections k (List.mem_cons_of_mem _ hmem)

end Components

/-! ## 4. Path items -/

/-- A path item among the components has been typed, and what occurs in its member occurs in the
type of the components. -/
theorem exists_pathItemComponent {c : Components} {e : TypeExpr} {name : String} {item : PathItem}
    (h : Gives (components env c) e) (hitem : (name, .item item) ∈ c.pathItems.getD []) :
    ∃ m, Gives (pathItemComponent env name
      (((Pointer.root.child "components").child "pathItems").child name) item) m ∧
        (Obeys P e → MemberObeys P m) := by
  obtain ⟨m1, _, h⟩ := h.of_bind
  obtain ⟨m2, _, h⟩ := h.of_bind
  obtain ⟨m3, _, h⟩ := h.of_bind
  obtain ⟨m4, _, h⟩ := h.of_bind
  obtain ⟨m5, _, h⟩ := h.of_bind
  obtain ⟨m6, hm6, h⟩ := h.of_bind
  cases hs : c.pathItems with
  | none =>
    rw [hs] at hitem
    cases hitem
  | some items =>
    rw [hs] at hitem hm6
    obtain ⟨ms, hms, hm6⟩ := hm6.of_bind
    obtain ⟨m, hm, hgives⟩ :=
      exists_of_forall₂ (R := flip _) hms.of_eachNamed.flip (mem_ordered.mpr hitem)
    refine ⟨m, hgives, fun he => ?_⟩
    rw [h.of_pure] at he
    have hmember : MemberObeys P m6 := (obeys_closed.mp he).2 m6 (by simp)
    rw [hm6.of_pure] at hmember
    exact (obeys_closed.mp (obeys_of_memberObeys hmember)).2 m hm

end ApiTypes.Typing
