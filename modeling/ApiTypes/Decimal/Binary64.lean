/-
# Finite double-precision numbers

A document can spell a number that is no machine integer; its value is then the nearest
double.  Only finite doubles occur, so the type holds a sign and the 63 bits of magnitude.
The magnitudes are ordered as their bits are, which makes rounding one comparison of a
remainder: the next double up is the next bit pattern, across powers of two as well.

* `Binary64.significand` and `Binary64.exponent` read the bits: the number is
  `significand * 2 ^ exponent`, with the sign in front.
* `Binary64.ofRatio?` rounds a ratio of natural numbers to the nearest double, a tie to the
  even one, and gives nothing when the ratio lies beyond the largest double.
* `Binary64.sameValue` compares values: the two zeros are the same number.
-/
namespace ApiTypes

/-! ## 1. Bits and fields -/

/-- A finite double: its sign and the bits of its magnitude. -/
structure Binary64 where
  negative : Bool
  magnitude : Nat
  magnitude_lt : magnitude < 2047 * Nat.pow 2 52
  deriving DecidableEq, Repr

namespace Binary64

/-- Zero, with the given sign. -/
def zero (negative : Bool) : Binary64 := ⟨negative, 0, by decide⟩

instance : Inhabited Binary64 := ⟨zero false⟩

/-- The integer in front of the power of two; normal numbers have 53 bits of it. -/
def significand (x : Binary64) : Nat :=
  if x.magnitude < Nat.pow 2 52 then x.magnitude else Nat.pow 2 52 + x.magnitude % Nat.pow 2 52

/-- The power of two that a unit of the significand is worth. -/
def exponent (x : Binary64) : Int :=
  if x.magnitude < Nat.pow 2 52 then -1074 else (x.magnitude / Nat.pow 2 52 : Nat) - 1075

/-- Equality of values: the bits agree, except that a zero has no sign. -/
def sameValue (x y : Binary64) : Bool :=
  decide (x.magnitude = y.magnitude ∧ (x.negative = y.negative ∨ x.magnitude = 0))

theorem sameValue_iff {x y : Binary64} :
    sameValue x y = true ↔
      x.magnitude = y.magnitude ∧ (x.negative = y.negative ∨ x.magnitude = 0) :=
  decide_eq_true_iff

/-! ## 2. Rounding a ratio -/

/-- The quotient rounded to an integer: the nearest one, a tie to the even one. -/
def roundDiv (num den : Nat) : Nat :=
  let q := num / den
  let r := num % den
  if 2 * r < den then q else if den < 2 * r then q + 1 else q + q % 2

/-- `num / den` in units of `2 ^ q`, rounded. -/
def unitsOf (num den : Nat) (q : Int) : Nat :=
  if q < 0 then roundDiv (num * Nat.pow 2 q.natAbs) den else roundDiv num (den * Nat.pow 2 q.natAbs)

/-- The power of two of the last place of `num / den`: the quotient has 53 bits of units, or
fewer at the smallest exponent. -/
def lastPlace (num den : Nat) : Int :=
  let q : Int := (Nat.log2 num : Int) - Nat.log2 den - 52
  let full := if q < 0 then den * Nat.pow 2 52 ≤ num * Nat.pow 2 q.natAbs
    else den * Nat.pow 2 q.natAbs * Nat.pow 2 52 ≤ num
  max (if full then q else q - 1) (-1074)

/-- The double nearest to `num / den`, a tie to the even one; nothing beyond the largest. -/
def ofRatio? (negative : Bool) (num den : Nat) : Option Binary64 :=
  if num = 0 then some (zero negative)
  else
    let q := lastPlace num den
    let magnitude := (q + 1074).toNat * Nat.pow 2 52 + unitsOf num den q
    if h : magnitude < 2047 * Nat.pow 2 52 then some ⟨negative, magnitude, h⟩ else none

end Binary64

end ApiTypes
