/-
# Sets of pointers

A set of pointers is kept as an ascending list.  Pointers are ordered like the words of a
dictionary, with segments in the place of letters; the order is strict and total, so a set has one
list: its members in their order.

* `Pointer.Ascending` says that a list is ascending; `Pointer.ascending_insert` that adding a
  pointer keeps it so.
* `Pointer.Ascending.ext`: two ascending lists with the same members are equal.
-/
import ApiTypes.Pointer
import Mathlib.Data.String.Basic
import Mathlib.Data.List.Perm.Basic

namespace ApiTypes

/-! ## 1. The order of lists of texts -/

namespace Text

theorem not_precedes_self : ∀ as : List String, precedes as as = false
  | [] => rfl
  | a :: as => by simp [precedes, not_precedes_self as]

theorem precedes_cons {a b : String} {as bs : List String} :
    precedes (a :: as) (b :: bs) = true ↔ a < b ∨ a = b ∧ precedes as bs = true := by
  simp [precedes]

theorem precedes_trans : ∀ {as bs cs : List String},
    precedes as bs = true → precedes bs cs = true → precedes as cs = true
  | _, [], [], _, h => by cases h
  | [], _, _ :: _, _, _ => rfl
  | _ :: _, [], _ :: _, h, _ => by cases h
  | _ :: _, _ :: _, [], _, h => by cases h
  | a :: as, b :: bs, c :: cs, hab, hbc => by
    rw [precedes_cons] at hab hbc ⊢
    rcases hab with hab | ⟨rfl, hab⟩
    · rcases hbc with hbc | ⟨rfl, _⟩
      · exact Or.inl (lt_trans hab hbc)
      · exact Or.inl hab
    · rcases hbc with hbc | ⟨rfl, hbc⟩
      · exact Or.inl hbc
      · exact Or.inr ⟨rfl, precedes_trans hab hbc⟩

/-- Of two lists that differ, one comes before the other. -/
theorem precedes_total : ∀ {as bs : List String},
    as ≠ bs → precedes as bs = true ∨ precedes bs as = true
  | [], [], h => absurd rfl h
  | [], _ :: _, _ => Or.inl rfl
  | _ :: _, [], _ => Or.inr rfl
  | a :: as, b :: bs, h => by
    rw [precedes_cons, precedes_cons]
    rcases lt_trichotomy a b with hlt | rfl | hlt
    · exact Or.inl (Or.inl hlt)
    · have hne : as ≠ bs := fun heq => h (heq ▸ rfl)
      rcases precedes_total hne with hp | hp
      · exact Or.inl (Or.inr ⟨rfl, hp⟩)
      · exact Or.inr (Or.inr ⟨rfl, hp⟩)
    · exact Or.inr (Or.inl hlt)

end Text

/-! ## 2. Ascending lists -/

namespace Pointer

/-- Each pointer of a list comes before those that follow it. -/
def Ascending (ps : List Pointer) : Prop := ps.Pairwise fun p q => p.precedes q = true

variable {p q r : Pointer} {ps qs : List Pointer}

theorem precedes_trans (h : p.precedes q = true) (h' : q.precedes r = true) :
    p.precedes r = true :=
  Text.precedes_trans h h'

theorem precedes_of_not (hne : p ≠ q) (h : ¬p.precedes q = true) : q.precedes p = true := by
  have hsegments : p.segments ≠ q.segments := fun heq => hne (by cases p; cases q; cases heq; rfl)
  exact (Text.precedes_total hsegments).resolve_left h

/-- Adding a pointer keeps a list ascending. -/
theorem ascending_insert (h : Ascending ps) : Ascending (insert p ps) := by
  induction ps with
  | nil => exact List.pairwise_singleton _ _
  | cons q qs ih =>
    obtain ⟨hq, hqs⟩ := List.pairwise_cons.mp h
    unfold insert
    split
    · exact h
    · rename_i hne
      split
      · rename_i hp
        refine List.pairwise_cons.mpr ⟨fun r hr => ?_, h⟩
        rcases List.mem_cons.mp hr with rfl | hr
        · exact hp
        · exact precedes_trans hp (hq r hr)
      · rename_i hp
        refine List.pairwise_cons.mpr ⟨fun r hr => ?_, ih hqs⟩
        rcases mem_insert.mp hr with rfl | hr
        · exact precedes_of_not hne hp
        · exact hq r hr

theorem not_precedes_self : ¬p.precedes p = true := by
  simp [precedes, Text.not_precedes_self]

theorem Ascending.nodup (h : Ascending ps) : ps.Nodup := by
  refine List.Pairwise.imp (fun {p q} hp heq => ?_) h
  subst heq
  exact not_precedes_self hp

/-- **A set of pointers has one ascending list.** -/
theorem Ascending.ext (hp : Ascending ps) (hq : Ascending qs) (h : ∀ r, r ∈ ps ↔ r ∈ qs) :
    ps = qs := by
  refine List.Perm.eq_of_pairwise (fun a b _ _ hab hba => ?_) hp hq
    ((List.perm_ext_iff_of_nodup hp.nodup hq.nodup).mpr h)
  exact (not_precedes_self (precedes_trans hab hba)).elim

end Pointer

end ApiTypes
