/-
# What references lead to

A reference that is resolved leads to a node of the document, and where it leads does not
depend on the place from which it is followed.

* `Resolver.canonical_eq_ok_iff` and `Resolver.resolve_eq_ok_iff`: what a reference leads to is the
  pointer that it spells, if that finds a node, and the node.
* `Resolver.find_of_resolveAs`: what a chain of references gives is read from the node at its
  end; `Resolver.resolveAs_congr`: it depends on the first pointer alone.
-/
import ApiTypes.Resolver

namespace ApiTypes.Resolver

variable {r : Resolver} {target : String} {location p : Pointer}

/-- A reference leads to the pointer that it spells, if that finds a node. -/
theorem canonical_eq_ok_iff : r.canonical target location = .ok p ↔
    localPointer? r.self target = some p ∧ ∃ v, p.find? r.root = some v := by
  unfold canonical
  cases localPointer? r.self target with
  | none => simp
  | some q =>
    simp only [Option.some.injEq, ← Option.isSome_iff_exists]
    constructor
    · intro h
      split at h
      · rename_i hf
        cases h
        exact ⟨rfl, hf⟩
      · cases h
    · rintro ⟨rfl, hf⟩
      rw [if_pos hf]

/-- Where a reference leads can be computed. -/
theorem canonical_of_isSome (h : localPointer? r.self target = some p)
    (hf : (p.find? r.root).isSome = true) : r.canonical target location = .ok p :=
  canonical_eq_ok_iff.mpr ⟨h, Option.isSome_iff_exists.mp hf⟩

/-- Resolving a reference gives the node as well. -/
theorem resolve_eq_ok_iff {v : Json} : r.resolve target location = .ok (p, v) ↔
    r.canonical target location = .ok p ∧ p.find? r.root = some v := by
  unfold resolve
  cases r.canonical target location with
  | error e => simp
  | ok q =>
    simp only [Except.ok.injEq]
    constructor
    · intro h
      split at h
      · rename_i hf
        cases h
        exact ⟨rfl, hf⟩
      · cases h
    · rintro ⟨rfl, hf⟩
      rw [hf]

/-- Where a reference leads does not depend on where it stands. -/
theorem canonical_root (h : r.canonical target location = .ok p) :
    r.canonical target .root = .ok p :=
  canonical_eq_ok_iff.mpr (canonical_eq_ok_iff.mp h)

/-- The pointer of a reference finds a node. -/
theorem find_of_canonical (h : r.canonical target location = .ok p) :
    ∃ v, p.find? r.root = some v :=
  (canonical_eq_ok_iff.mp h).2

theorem find_of_resolve {v : Json} (h : r.resolve target location = .ok (p, v)) :
    p.find? r.root = some v :=
  (resolve_eq_ok_iff.mp h).2

variable {α : Type} {decode : Decoder α} {a : α}

theorem find_of_follow : ∀ {steps : Nat} {seen : List Pointer} {target : String}
    {location : Pointer}, r.follow decode steps seen target location = .ok (p, a) →
    ∃ v, p.find? r.root = some v ∧ decode v = .ok a
  | 0, _, _, _, h => by cases h
  | steps + 1, seen, target, location, h => by
    unfold follow at h
    split at h
    · cases h
    · rename_i q v hresolve
      split at h
      · cases h
      · split at h
        · exact find_of_follow h
        · split at h
          · rename_i hdecode
            cases h
            exact ⟨v, find_of_resolve hresolve, hdecode⟩
          · cases h

/-- **What a chain of references gives is read from the node at its end.** -/
theorem find_of_resolveAs (h : r.resolveAs decode target location = .ok (p, a)) :
    ∃ v, p.find? r.root = some v ∧ decode v = .ok a :=
  find_of_follow h

/-- Chains that start with references to one pointer end alike. -/
theorem resolveAs_congr {target' : String} {location' q : Pointer}
    (h : r.canonical target location = .ok q) (h' : r.canonical target' location' = .ok q)
    (hr : r.resolveAs decode target location = .ok (p, a)) :
    r.resolveAs decode target' location' = .ok (p, a) := by
  obtain ⟨v, hv⟩ := find_of_canonical h
  rw [resolveAs, follow, resolve_eq_ok_iff.mpr ⟨h, hv⟩] at hr
  rw [resolveAs, follow, resolve_eq_ok_iff.mpr ⟨h', hv⟩]
  exact hr

end ApiTypes.Resolver
