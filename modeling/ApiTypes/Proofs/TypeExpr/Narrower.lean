/-
# Narrower expressions

One expression is narrower than another if its values are values of the other, whatever the named
types stand for and however records are read.  Nothing is said of how either is spelled: what is
built from narrower parts is narrower, although building may merge, drop and reorder the parts of
one and not those of the other.

* `TypeExpr.Narrower e e'`: the values of `e` are values of `e'`.
* `TypeExpr.Narrower.unionOf`, `TypeExpr.Narrower.intersectionOf`, `TypeExpr.Narrower.list`,
  `TypeExpr.Narrower.record`: one lemma for each kind of expression with parts.
-/
import ApiTypes.Proofs.TypeExpr.Values
import Mathlib.Data.List.Forall2

namespace ApiTypes

/-! ## 1. Expressions -/

/-- The lengths that bounds allow are allowed by others. -/
def ListBounds.Narrower (b b' : ListBounds) : Prop := ∀ length, b.Admits length → b'.Admits length

namespace TypeExpr

/-- **Every value of an expression is one of another.** -/
def Narrower (e e' : TypeExpr) : Prop :=
  ∀ (reading : Reading) (ρ : Pointer → Json → Prop) (v : Json),
    Values reading ρ e v → Values reading ρ e' v

/-- Expressions with the same values. -/
def SameValues (e e' : TypeExpr) : Prop := Narrower e e' ∧ Narrower e' e

theorem Narrower.refl (e : TypeExpr) : Narrower e e := fun _ _ _ h => h

theorem Narrower.trans {a b c : TypeExpr} (h : Narrower a b) (h' : Narrower b c) : Narrower a c :=
  fun reading ρ v hv => h' reading ρ v (h reading ρ v hv)

/-- **A union of narrower alternatives is narrower.** -/
theorem Narrower.unionOf {es es' : List TypeExpr} (h : List.Forall₂ Narrower es es') :
    Narrower (unionOf es) (unionOf es') := by
  intro reading ρ v
  rw [values_unionOf, values_unionOf]
  induction h with
  | nil => exact id
  | cons hab _ ih =>
    rw [List.exists_mem_cons_iff, List.exists_mem_cons_iff]
    exact Or.imp (hab reading ρ v) ih

/-- **An intersection of narrower constituents is narrower.** -/
theorem Narrower.intersectionOf {es es' : List TypeExpr} (h : List.Forall₂ Narrower es es') :
    Narrower (intersectionOf es) (intersectionOf es') := by
  intro reading ρ v
  rw [values_intersectionOf, values_intersectionOf]
  induction h with
  | nil => exact id
  | cons hab _ ih =>
    rw [List.forall_mem_cons, List.forall_mem_cons]
    exact And.imp (hab reading ρ v) ih

theorem narrower_orNull (e : TypeExpr) : Narrower e e.orNull :=
  fun _ _ _ hv => values_orNull.mpr (Or.inl hv)

theorem Narrower.orNull {e e' : TypeExpr} (h : Narrower e e') : Narrower e.orNull e'.orNull :=
  .unionOf (.cons h (.cons (.refl _) .nil))

theorem Narrower.list {e e' : TypeExpr} {b b' : ListBounds} (h : Narrower e e')
    (hb : b.Narrower b') (r r' : Bool) : Narrower (list e b r) (list e' b' r') := by
  rintro reading ρ v ⟨items, rfl, hlength, hitems⟩
  exact ⟨items, rfl, hb _ hlength, fun w hw => h reading ρ w (hitems w hw)⟩

/-! ## 2. Records -/

/-- Members under one key that need be there alike, the first of a narrower type. -/
structure NarrowerMember (m m' : Member TypeExpr) : Prop where
  key : m.key = m'.key
  optional : m.optional = m'.optional
  type : Narrower m.type m'.type

/-- What the first says of further fields is as the second says, or the second says nothing. -/
inductive NarrowerOthers : Option TypeExpr → Option TypeExpr → Prop
  | closed : NarrowerOthers none none
  | typed {e e' : TypeExpr} (h : Narrower e e') : NarrowerOthers (some e) (some e')
  | opened : NarrowerOthers none (some unknown)

variable {reading : Reading} {ρ : Pointer → Json → Prop}

theorem NarrowerMember.name? {m m' : Member TypeExpr} (h : NarrowerMember m m') :
    m.name? = m'.name? := by
  rw [Member.name?, Member.name?, h.key]

theorem NarrowerMember.values {m m' : Member TypeExpr} (h : NarrowerMember m m')
    {fields : List (String × Json)} (hm : MemberValues reading ρ m fields) :
    MemberValues reading ρ m' fields := by
  obtain ⟨key, type, optional, _, _⟩ := m
  obtain ⟨_, type', _, _, _⟩ := m'
  obtain ⟨rfl, rfl, htype⟩ := h
  cases key with
  | name name => exact ⟨fun w hw => htype reading ρ w (hm.1 w hw), hm.2⟩
  | template stretches => exact hm

theorem NarrowerOthers.values {c c' : Option TypeExpr} (h : NarrowerOthers c c') {free free' : Prop}
    (hfree : free → free') {v : Json} (hv : OtherValues reading ρ free c v) :
    OtherValues reading ρ free' c' v := by
  cases h with
  | closed => exact hfree hv
  | typed h => exact h reading ρ v hv
  | opened => exact trivial

theorem names_eq_of_narrower {ms ms' : List (Member TypeExpr)}
    (h : List.Forall₂ NarrowerMember ms ms') :
    ms.filterMap Member.name? = ms'.filterMap Member.name? := by
  induction h with
  | nil => rfl
  | cons h _ ih => rw [List.filterMap_cons, List.filterMap_cons, h.name?, ih]

theorem memberValues_of_narrower {ms ms' : List (Member TypeExpr)}
    (h : List.Forall₂ NarrowerMember ms ms') {fields : List (String × Json)}
    (hm : ∀ P ∈ memberValues reading ρ ms, P fields) :
    ∀ P ∈ memberValues reading ρ ms', P fields := by
  rw [memberValues_eq_map, List.forall_mem_map] at hm ⊢
  induction h with
  | nil => exact List.forall_mem_nil _
  | cons h _ ih =>
    rw [List.forall_mem_cons] at hm ⊢
    exact ⟨h.values hm.1, ih hm.2⟩

/-- **A record of narrower members is narrower.**  The names must be the same ones: they decide
which fields are further ones. -/
theorem Narrower.record {ms ms' : List (Member TypeExpr)} {c c' : Option TypeExpr}
    (hm : List.Forall₂ NarrowerMember ms ms') (hc : NarrowerOthers c c') (r r' : Bool) :
    Narrower (record ⟨ms, c, r⟩) (record ⟨ms', c', r'⟩) := by
  rintro reading ρ v ⟨fields, rfl, hmembers, hothers⟩
  have hnil : ms ≠ [] → ms' ≠ [] := by
    rintro h rfl
    cases hm
    exact h rfl
  refine ⟨fields, rfl, memberValues_of_narrower hm hmembers, fun field hf hn => ?_⟩
  rw [← names_eq_of_narrower hm] at hn
  exact hc.values (And.imp id hnil) (hothers field hf hn)

end TypeExpr

end ApiTypes
