/-
# Following pointers

A pointer leads from a value to a node of it, one segment after the other.  The fields of an
object are found under their keys and the items of an array under their positions, written as
numbers; a position is a number of 64 bits, so this asks for arrays that are no longer than that.

* `Pointer.find?_child` and `Pointer.findFrom?_append` follow a pointer that was put together.
* `Pointer.step?_item`: the items of an array stand under their positions.
* `Json.Addressable`: all arrays in a value are short enough; `Json.addressable_of_nodes` says that
  values of usual size are.
-/
import ApiTypes.Proofs.Json.Keys

namespace ApiTypes

/-! ## 1. Positions -/

/-- The decimal digits of a number have its value. -/
theorem digitsValue_toDigits (n : Nat) : digitsValue (Nat.toDigits 10 n) = n := by
  rw [digitsValue]
  exact Nat.ofDigitChars_toDigits (by decide) (by decide)

namespace Pointer

/-- A number names a position. -/
theorem position?_toString {i : Nat} (h : i < Nat.pow 2 64) : position? (toString i) = some i := by
  have htext : (toString i).toList = Nat.toDigits 10 i := Nat.toList_repr
  have hdigits : ∀ c ∈ Nat.toDigits 10 i, c.isDigit = true := fun c hc =>
    Nat.isDigit_of_mem_toDigits (by decide) (by decide) hc
  have hsign : ∀ cs, Nat.toDigits 10 i ≠ '+' :: cs := fun cs heq =>
    absurd (hdigits '+' (heq ▸ List.mem_cons_self)) (by decide)
  have hall : (Nat.toDigits 10 i).all Char.isDigit = true := List.all_eq_true.mpr hdigits
  rw [position?, htext]
  split
  · rename_i cs heq
    exact absurd heq (hsign cs)
  · simp only [ne_eq, Nat.toDigits_ne_nil, not_false_eq_true, decide_true, hall, Bool.true_and,
      digitsValue_toDigits, h, if_true]

/-- A position is a number of 64 bits. -/
theorem lt_of_position? {s : String} {i : Nat} (h : position? s = some i) : i < Nat.pow 2 64 := by
  simp only [position?, Option.ite_none_right_eq_some, Bool.and_eq_true, decide_eq_true_eq,
    Option.some.injEq] at h
  obtain ⟨⟨_, hlt⟩, rfl⟩ := h
  exact hlt

/-- The items of an array stand under their positions. -/
theorem step?_item {items : List Json} {i : Nat} (h : items.length ≤ Nat.pow 2 64)
    (hi : i < items.length) : step? (.array items) (toString i) = items[i]? := by
  rw [step?, position?_toString (Nat.lt_of_lt_of_le hi h), Option.bind_some]

/-! ## 2. Longer pointers -/

theorem findFrom?_append {v : Json} {xs ys : List String} :
    findFrom? v (xs ++ ys) = (findFrom? v xs).bind (findFrom? · ys) := by
  induction xs generalizing v with
  | nil => rfl
  | cons s rest ih =>
    rw [List.cons_append, findFrom?, findFrom?]
    cases step? v s with
    | none => rfl
    | some w => exact ih

theorem find?_child {root : Json} {p : Pointer} {segment : String} :
    (p.child segment).find? root = (p.find? root).bind (step? · segment) := by
  rw [find?, child, findFrom?_append]
  refine congrArg _ (funext fun v => ?_)
  rw [findFrom?]
  cases step? v segment with
  | none => rfl
  | some w => rfl

/-- What a pointer finds, the next segment goes on from. -/
theorem find?_child_of {root v : Json} {p : Pointer} {segment : String}
    (h : p.find? root = some v) : (p.child segment).find? root = step? v segment := by
  rw [find?_child, h, Option.bind_some]

end Pointer

/-! ## 3. Short arrays -/

namespace Json

/-- No array in a value has more items than there are positions. -/
def Addressable (v : Json) : Prop :=
  ∀ segments items, Pointer.findFrom? v segments = some (.array items) →
    items.length ≤ Nat.pow 2 64

theorem Addressable.length {items : List Json} (h : Addressable (.array items)) :
    items.length ≤ Nat.pow 2 64 :=
  h [] items rfl

theorem Addressable.step {v w : Json} {segment : String} (h : v.Addressable)
    (hs : Pointer.step? v segment = some w) : w.Addressable := by
  intro segments items hf
  refine h (segment :: segments) items ?_
  rw [Pointer.findFrom?, hs, Option.bind_some]
  exact hf

theorem Addressable.find? {root v : Json} {p : Pointer} (h : root.Addressable)
    (hf : p.find? root = some v) : v.Addressable := by
  intro segments items hitems
  refine h (p.segments ++ segments) items ?_
  rw [Pointer.findFrom?_append]
  exact Option.bind_eq_some_iff.mpr ⟨v, hf, hitems⟩

theorem nodes_le_of_mem {items : List Json} {v : Json} (h : v ∈ items) :
    v.nodes ≤ nodesItems items := by
  induction items with
  | nil => cases h
  | cons w rest ih =>
    rw [nodesItems]
    rcases List.mem_cons.mp h with rfl | h
    · omega
    · have := ih h
      omega

theorem nodes_le_of_field {fs : List (String × Json)} {f : String × Json} (h : f ∈ fs) :
    f.2.nodes ≤ nodesFields fs := by
  induction fs with
  | nil => cases h
  | cons g rest ih =>
    rw [nodesFields]
    rcases List.mem_cons.mp h with rfl | h
    · omega
    · have := ih h
      omega

theorem nodes_le_of_step {v w : Json} {segment : String} (h : Pointer.step? v segment = some w) :
    w.nodes ≤ v.nodes := by
  cases v with
  | object fs =>
    have hle : w.nodes ≤ nodesFields fs := nodes_le_of_field (mem_of_lookup h)
    rw [nodes]
    omega
  | array items =>
    obtain ⟨i, _, hi⟩ := Option.bind_eq_some_iff.mp h
    have := nodes_le_of_mem (List.mem_of_getElem? hi)
    rw [nodes]
    omega
  | null | bool _ | number _ | string _ => cases h

theorem nodes_pos (v : Json) : 0 < v.nodes := by
  cases v with
  | array _ | object _ =>
    rw [nodes]
    omega
  | null | bool _ | number _ | string _ => exact Nat.zero_lt_one

theorem length_le_nodesItems (items : List Json) : items.length ≤ nodesItems items := by
  induction items with
  | nil => exact Nat.zero_le _
  | cons v rest ih =>
    have := v.nodes_pos
    rw [List.length_cons, nodesItems]
    omega

/-- **A value with no more nodes than there are positions has short arrays only.** -/
theorem addressable_of_nodes {v : Json} (h : v.nodes ≤ Nat.pow 2 64) : v.Addressable := by
  intro segments
  induction segments generalizing v with
  | nil =>
    intro items hf
    cases hf
    rw [nodes] at h
    have := length_le_nodesItems items
    omega
  | cons s rest ih =>
    intro items hf
    obtain ⟨w, hw, hf⟩ := Option.bind_eq_some_iff.mp hf
    exact ih (Nat.le_trans (nodes_le_of_step hw) h) items hf

end Json

end ApiTypes
