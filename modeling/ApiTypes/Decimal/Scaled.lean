/-
# Decimals in two steps

The quick way to a double from a decimal: the leading digits, as many as fit 64 bits, make a
double, and a power of ten, which is a double again, scales it.  Each step rounds, so a decimal
with many digits can miss the nearest double by one place; digits beyond 64 bits count as
places only.

* `Scaled.toBinary64?` is the double of a decimal, absent when the power of ten or the result
  is beyond the largest.
-/
import ApiTypes.Decimal.Numeral

namespace ApiTypes.Scaled

/-! ## 1. Rounded products and quotients -/

/-- The size of a double as a ratio. -/
def ratio (x : Binary64) : Nat × Nat :=
  if x.exponent < 0 then (x.significand, Nat.pow 2 x.exponent.natAbs)
  else (x.significand * Nat.pow 2 x.exponent.natAbs, 1)

/-- The product of two positive doubles, rounded. -/
def product? (x y : Binary64) : Option Binary64 :=
  let (a, b) := ratio x
  let (c, d) := ratio y
  Binary64.ofRatio? false (a * c) (b * d)

/-- The quotient of two positive doubles, rounded. -/
def quotient? (x y : Binary64) : Option Binary64 :=
  let (a, b) := ratio x
  let (c, d) := ratio y
  Binary64.ofRatio? false (a * d) (b * c)

/-- The power of ten, rounded. -/
def tenTo? (n : Nat) : Option Binary64 := Binary64.ofRatio? false (Nat.pow 10 n) 1

/-- The greatest exponent of a power of ten that is a double. -/
def greatest : Int := 308

/-- A positive double times a power of ten.  A divisor beyond the doubles is divided by in two
parts; beyond two parts nothing is left. -/
def scale? (x : Binary64) (exponent : Int) : Option Binary64 :=
  if x.magnitude = 0 then some x
  else if exponent > greatest then none
  else if 0 ≤ exponent then do product? x (← tenTo? exponent.toNat)
  else if -greatest ≤ exponent then do quotient? x (← tenTo? exponent.natAbs)
  else if -2 * greatest ≤ exponent then do
    quotient? (← quotient? x (← tenTo? greatest.toNat)) (← tenTo? (exponent + greatest).natAbs)
  else some (.zero false)

/-! ## 2. Decimals -/

/-- Appends digits to a number as long as it fits 64 bits: the number, and how many digits
there was room for. -/
def takeDigits (n : Nat) : List Char → Nat × Nat
  | [] => (n, 0)
  | c :: cs =>
    let next := 10 * n + (c.toNat - '0'.toNat)
    if next < Nat.pow 2 64 then
      let (n, taken) := takeDigits next cs
      (n, taken + 1)
    else (n, 0)

/-- The double of a decimal with digits before and after the point, times a power of ten. -/
def toBinary64? (negative : Bool) (whole fraction : List Char) (exponent : Int) :
    Option Binary64 := do
  let (n, taken) := takeDigits 0 whole
  let (n, after) := takeDigits n fraction
  let x ← Binary64.ofRatio? false n 1
  let y ← scale? x (exponent + ((whole.length - taken : Nat) : Int) - after)
  return { y with negative := negative }

end ApiTypes.Scaled
