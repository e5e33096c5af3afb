/-
# Equality of JSON values by meaning

`Json.sameValue` decides which listed values are kept once; it tells the integer 1 from the
double 1.0, because it compares how numbers are stored.  What a document means by equality is
coarser: two numbers are equal when they are the same rational number.

* `JsonNumber.toRat` is the rational number that a number stands for.
* `Json.Equal` is equality by meaning, `Json.Equal.trans` says that it can be chained.
* `Json.equal_of_sameValue`: values that are kept once for both are equal by meaning.
-/
import ApiTypes.Json.Basic
import Mathlib.Data.Rat.Defs
import Mathlib.Algebra.Field.Rat

namespace ApiTypes

/-! ## 1. Numbers -/

/-- The rational number that a double stands for. -/
def Binary64.toRat (x : Binary64) : ℚ :=
  (if x.negative then -1 else 1) * (x.significand : ℚ) * 2 ^ x.exponent

/-- The rational number that a number stands for. -/
def JsonNumber.toRat : JsonNumber → ℚ
  | int value => value
  | float value => value.toRat

/-- The two zeros are one number, and no other two doubles are compared as equal. -/
theorem Binary64.toRat_eq_of_sameValue {x y : Binary64} (h : x.sameValue y = true) :
    x.toRat = y.toRat := by
  obtain ⟨hm, hs⟩ := sameValue_iff.mp h
  have hsig : x.significand = y.significand := by simp only [significand, hm]
  have hexp : x.exponent = y.exponent := by simp only [exponent, hm]
  rcases hs with hn | hz
  · simp only [toRat, hsig, hexp, hn]
  · have hx : x.significand = 0 := by simp [significand, hz]
    have hy : y.significand = 0 := by rw [← hsig, hx]
    simp [toRat, hx, hy]

/-- Numbers that are compared as equal are the same rational number. -/
theorem JsonNumber.toRat_eq_of_sameValue {m n : JsonNumber} (h : m.sameValue n = true) :
    m.toRat = n.toRat := by
  cases m with
  | int a =>
    cases n with
    | int b => simp only [sameValue, decide_eq_true_eq] at h; rw [h]
    | float b => exact absurd h (by simp [sameValue])
  | float a =>
    cases n with
    | int b => exact absurd h (by simp [sameValue])
    | float b => exact Binary64.toRat_eq_of_sameValue h

/-! ## 2. Values -/

namespace Json

/-- A field that a look-up finds is there. -/
theorem mem_of_lookup {key : String} {v : Json} :
    ∀ {fs : List (String × Json)}, lookup key fs = some v → (key, v) ∈ fs
  | (k, w) :: rest, h => by
    by_cases hk : k = key
    · rw [lookup, if_pos hk, Option.some.injEq] at h
      rw [hk, h]
      exact List.mem_cons_self
    · rw [lookup, if_neg hk] at h
      exact List.mem_cons_of_mem _ (mem_of_lookup h)

/-- A look-up fails when no field has the key. -/
theorem lookup_eq_none_iff {key : String} : ∀ (fs : List (String × Json)),
    lookup key fs = none ↔ key ∉ fs.map Prod.fst
  | [] => by simp [lookup]
  | (k, w) :: rest => by
    by_cases hk : k = key
    · simp [lookup, hk]
    · simp [lookup, hk, Ne.symm hk, lookup_eq_none_iff rest]

mutual
/-- Equality by meaning: numbers by the number they stand for, arrays item by item, objects
field by field in any order. -/
def Equal : Json → Json → Prop
  | null, null => True
  | bool a, bool b => a = b
  | number a, number b => a.toRat = b.toRat
  | string a, string b => a = b
  | array xs, array ys => EqualItems xs ys
  | object fs, object gs => fs.length = gs.length ∧ EqualFields fs gs
  | _, _ => False

/-- Arrays are equal item by item. -/
def EqualItems : List Json → List Json → Prop
  | [], [] => True
  | x :: xs, y :: ys => Equal x y ∧ EqualItems xs ys
  | _, _ => False

/-- Every field of the first list is in the second. -/
def EqualFields : List (String × Json) → List (String × Json) → Prop
  | [], _ => True
  | (k, v) :: rest, gs => (∃ w, lookup k gs = some w ∧ Equal v w) ∧ EqualFields rest gs
end

/-- What `EqualFields` says of one field. -/
theorem EqualFields.lookup {fs gs : List (String × Json)} (h : EqualFields fs gs) {k : String}
    {v : Json} (hv : (k, v) ∈ fs) : ∃ w, Json.lookup k gs = some w ∧ Equal v w := by
  induction fs with
  | nil => exact absurd hv (by simp)
  | cons kv rest ih =>
    rw [EqualFields] at h
    rcases List.mem_cons.mp hv with rfl | hv
    · exact h.1
    · exact ih h.2 hv

mutual
/-- Equality by meaning can be chained. -/
theorem Equal.trans : ∀ {u v w : Json}, Equal u v → Equal v w → Equal u w
  | null, null, _, _, h => h
  | bool _, bool _, bool _, h, h' => Eq.trans h h'
  | number _, number _, number _, h, h' => Eq.trans (a := JsonNumber.toRat _) h h'
  | string _, string _, string _, h, h' => Eq.trans h h'
  | array _, array _, array _, h, h' => EqualItems.trans h h'
  | object _, object _, object _, h, h' => ⟨h.1.trans h'.1, EqualFields.trans h.2 h'.2⟩

theorem EqualItems.trans : ∀ {us vs ws : List Json},
    EqualItems us vs → EqualItems vs ws → EqualItems us ws
  | [], [], [], _, _ => trivial
  | _ :: _, _ :: _, _ :: _, h, h' => ⟨Equal.trans h.1 h'.1, EqualItems.trans h.2 h'.2⟩

theorem EqualFields.trans : ∀ {es fs gs : List (String × Json)},
    EqualFields es fs → EqualFields fs gs → EqualFields es gs
  | [], _, _, _, _ => trivial
  | (_, _) :: _, _, _, h, h' => by
    obtain ⟨⟨w, hw, hvw⟩, hrest⟩ := h
    obtain ⟨x, hx, hwx⟩ := h'.lookup (mem_of_lookup hw)
    exact ⟨⟨x, hx, Equal.trans hvw hwx⟩, EqualFields.trans hrest h'⟩
end

mutual
/-- **Values that are kept once for both are equal by meaning.** -/
theorem equal_of_sameValue : ∀ {v w : Json}, sameValue v w = true → Equal v w
  | null, null, _ => trivial
  | bool _, bool _, h => by simpa [Equal, sameValue] using h
  | number _, number _, h => JsonNumber.toRat_eq_of_sameValue h
  | string _, string _, h => by simpa [Equal, sameValue] using h
  | array _, array _, h => equalItems_of_sameItems h
  | object _, object _, h => by
    rw [sameValue, Bool.and_eq_true, beq_iff_eq] at h
    exact ⟨h.1, equalFields_of_sameFields h.2⟩

theorem equalItems_of_sameItems : ∀ {vs ws : List Json},
    sameItems vs ws = true → EqualItems vs ws
  | [], [], _ => trivial
  | _ :: _, _ :: _, h => by
    rw [sameItems, Bool.and_eq_true] at h
    exact ⟨equal_of_sameValue h.1, equalItems_of_sameItems h.2⟩

theorem equalFields_of_sameFields : ∀ {fs gs : List (String × Json)},
    sameFields fs gs = true → EqualFields fs gs
  | [], _, _ => trivial
  | (k, v) :: rest, gs, h => by
    rw [sameFields, Bool.and_eq_true] at h
    refine ⟨?_, equalFields_of_sameFields h.2⟩
    cases hw : Json.lookup k gs with
    | none => rw [hw] at h; exact absurd h.1 (by simp)
    | some w =>
      rw [hw] at h
      exact ⟨w, rfl, equal_of_sameValue h.1⟩
end

end Json

end ApiTypes
