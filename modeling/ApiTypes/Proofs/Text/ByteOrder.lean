/-
# The order of texts

Texts are compared by their code points.  That is the order of their bytes as well: a character
with more bytes has the greater first byte, and of characters with as many bytes the first byte in
which they differ has the higher bits of the code point.

* `Text.utf8EncodeChar_append_lt`: the bytes of a smaller character come first, whatever follows.
* `Text.utf8Bytes_lt_iff`: texts are in the order of their bytes.
* `pairwise_ordered`: parts that are shown in the order of their names are in the order of bytes.
-/
import ApiTypes.Config
import ApiTypes.Text.Utf8
import Mathlib.Data.Char
import Mathlib.Data.String.Basic
import Mathlib.Tactic.Common

namespace ApiTypes

namespace Text

/-! ## 1. Characters -/

/-- A byte is written for each number below 256. -/
theorem ofNat_lt_ofNat {m n : Nat} (hm : m < 256) (hn : n < 256) :
    UInt8.ofNat m < UInt8.ofNat n ↔ m < n := by
  rw [UInt8.lt_iff_toNat_lt, UInt8.toNat_ofNat', UInt8.toNat_ofNat']
  omega

theorem ofNat_eq_ofNat {m n : Nat} (hm : m < 256) (hn : n < 256) :
    UInt8.ofNat m = UInt8.ofNat n ↔ m = n := by
  rw [← UInt8.toNat_inj, UInt8.toNat_ofNat', UInt8.toNat_ofNat']
  omega

/-- Of two numbers the first digit in which they differ decides, six bits at a time. -/
theorem lt_of_digits {v w : Nat} (h : v < w) :
    v / 262144 < w / 262144 ∨ v / 262144 = w / 262144 ∧
      (v / 4096 % 64 < w / 4096 % 64 ∨ v / 4096 % 64 = w / 4096 % 64 ∧
        (v / 64 % 64 < w / 64 % 64 ∨ v / 64 % 64 = w / 64 % 64 ∧ v % 64 < w % 64)) := by
  have hdigits (n : Nat) :
      n = n / 262144 * 262144 + n / 4096 % 64 * 4096 + n / 64 % 64 * 64 + n % 64 := by
    have h1 : n / 64 / 64 = n / 4096 := Nat.div_div_eq_div_mul n 64 64
    have h2 : n / 4096 / 64 = n / 262144 := Nat.div_div_eq_div_mul n 4096 64
    omega
  have hv := hdigits v
  have hw := hdigits w
  generalize v / 262144 = a at hv ⊢
  generalize w / 262144 = a' at hw ⊢
  have hb : v / 4096 % 64 < 64 := Nat.mod_lt _ (by decide)
  have hb' : w / 4096 % 64 < 64 := Nat.mod_lt _ (by decide)
  have hc : v / 64 % 64 < 64 := Nat.mod_lt _ (by decide)
  have hc' : w / 64 % 64 < 64 := Nat.mod_lt _ (by decide)
  have hd : v % 64 < 64 := Nat.mod_lt _ (by decide)
  have hd' : w % 64 < 64 := Nat.mod_lt _ (by decide)
  generalize v / 4096 % 64 = b at hv hb ⊢
  generalize w / 4096 % 64 = b' at hw hb' ⊢
  generalize v / 64 % 64 = c at hv hc ⊢
  generalize w / 64 % 64 = c' at hw hc' ⊢
  generalize v % 64 = d at hv hd ⊢
  generalize w % 64 = d' at hw hd' ⊢
  omega

/-- **The bytes of a smaller character come first**, whatever follows them. -/
theorem utf8EncodeChar_append_lt {c d : Char} (h : c < d) (xs ys : List UInt8) :
    String.utf8EncodeChar c ++ xs < String.utf8EncodeChar d ++ ys := by
  have hlt : c.val.toNat < d.val.toNat := h
  have hc : c.val.toNat < 0x110000 := c.valid.elim (fun h => Nat.lt_trans h (by decide)) And.right
  have hd : d.val.toNat < 0x110000 := d.valid.elim (fun h => Nat.lt_trans h (by decide)) And.right
  rw [String.utf8EncodeChar, String.utf8EncodeChar]
  generalize c.val.toNat = v at hlt hc
  generalize d.val.toNat = w at hlt hd
  have hdigits := lt_of_digits hlt
  have hvtop : v / 262144 % 8 = v / 262144 := Nat.mod_eq_of_lt (by omega)
  have hwtop : w / 262144 % 8 = w / 262144 := Nat.mod_eq_of_lt (by omega)
  -- one case for each pair of numbers of bytes
  split_ifs
  all_goals
    simp (disch := omega) only [List.cons_append, List.nil_append, List.cons_lt_cons_iff,
      ofNat_lt_ofNat, ofNat_eq_ofNat, hvtop, hwtop]
    omega

theorem utf8EncodeChar_ne_nil (c : Char) : String.utf8EncodeChar c ≠ [] := by
  rw [String.utf8EncodeChar]
  split_ifs <;> exact List.cons_ne_nil _ _

/-! ## 2. Texts -/

/-- What two lists of bytes begin with alike does not matter to their order. -/
theorem append_lt_append_iff (xs ys zs : List UInt8) : xs ++ ys < xs ++ zs ↔ ys < zs := by
  induction xs with
  | nil => rfl
  | cons x xs ih =>
    rw [List.cons_append, List.cons_append, List.cons_lt_cons_iff, ih]
    simp

/-- **Texts are in the order of their bytes.** -/
theorem utf8Bytes_lt_iff (cs ds : List Char) : utf8Bytes cs < utf8Bytes ds ↔ cs < ds := by
  unfold utf8Bytes
  induction cs generalizing ds with
  | nil =>
    cases ds with
    | nil => exact iff_of_false (List.not_lt_nil _) (List.not_lt_nil _)
    | cons d ds =>
      obtain ⟨b, bs, hb⟩ := List.exists_cons_of_ne_nil (utf8EncodeChar_ne_nil d)
      rw [List.flatMap_nil, List.flatMap_cons, hb]
      exact iff_of_true (List.nil_lt_cons _ _) (List.nil_lt_cons _ _)
  | cons c cs ih =>
    cases ds with
    | nil => exact iff_of_false (List.not_lt_nil _) (List.not_lt_nil _)
    | cons d ds =>
      rw [List.flatMap_cons, List.flatMap_cons, List.cons_lt_cons_iff]
      rcases lt_trichotomy c d with h | rfl | h
      · exact iff_of_true (utf8EncodeChar_append_lt h _ _) (Or.inl h)
      · rw [append_lt_append_iff, ih]
        simp
      · have hgt := utf8EncodeChar_append_lt h (ds.flatMap String.utf8EncodeChar)
          (cs.flatMap String.utf8EncodeChar)
        refine iff_of_false (List.lt_asymm hgt) ?_
        rintro (hlt | ⟨rfl, _⟩)
        · exact lt_asymm h hlt
        · exact lt_irrefl _ h

end Text

/-! ## 3. Sorted parts -/

/-- The bytes of a name. -/
def nameBytes (name : String) : List UInt8 := Text.utf8Bytes name.toList

/-- **Names are in the order of their bytes.** -/
theorem nameBytes_le_iff {a b : String} : nameBytes a ≤ nameBytes b ↔ a ≤ b := by
  rw [← List.not_lt, nameBytes, nameBytes, Text.utf8Bytes_lt_iff, String.le_iff_toList_le, not_lt]

/-- **Parts that are sorted by name are in the order of the bytes of their names.** -/
theorem pairwise_ordered {α : Type} (entries : List (String × α)) :
    ((ordered true entries).map Prod.fst).Pairwise fun a b => nameBytes a ≤ nameBytes b := by
  have hle (a b : String × α) : (!(b.1 < a.1 : Bool)) = true ↔ a.1 ≤ b.1 := by
    rw [Bool.not_eq_true', decide_eq_false_iff_not, not_lt]
  have hsorted : (ordered true entries).Pairwise fun a b => (!(b.1 < a.1 : Bool)) = true := by
    refine List.pairwise_mergeSort (fun a b c hab hbc => ?_) (fun a b => ?_) entries
    · exact (hle a c).mpr (le_trans ((hle a b).mp hab) ((hle b c).mp hbc))
    · rw [Bool.or_eq_true, hle, hle]
      exact le_total a.1 b.1
  rw [List.pairwise_map]
  exact hsorted.imp fun {a b} h => nameBytes_le_iff.mpr ((hle a b).mp h)

end ApiTypes
