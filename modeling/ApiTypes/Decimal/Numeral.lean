/-
# Decimal numerals

A numeral is a digit string scaled by a power of ten.  Its value as a double is the exact
ratio rounded once, so a numeral with any number of digits reads as the nearest double.

* `Numeral.toBinary64?` is that value, absent when it overflows.
* `Numeral.read?` recognises the texts `12`, `1.`, `.5`, `1.5e3`: digits with an optional
  point, at least one digit, and an optional signed exponent.
-/
import ApiTypes.Decimal.Binary64

namespace ApiTypes

/-- `± digits * 10 ^ scale`. -/
structure Numeral where
  negative : Bool
  digits : Nat
  scale : Int
  deriving DecidableEq, Repr

/-! ## 1. Digits -/

/-- The value of a list of decimal digits. -/
def digitsValue (cs : List Char) : Nat :=
  cs.foldl (fun n c => 10 * n + (c.toNat - '0'.toNat)) 0

/-- The longest run of decimal digits at the front, and what follows it. -/
def spanDigits (cs : List Char) : List Char × List Char :=
  (cs.takeWhile Char.isDigit, cs.dropWhile Char.isDigit)

/-- The number of decimal digits of `n`; zero has none. -/
def decimalLength (n : Nat) : Nat := if n = 0 then 0 else (Nat.toDigits 10 n).length

namespace Numeral

/-! ## 2. Value -/

/-- The nearest double, absent beyond the largest.  A scale far outside the range of doubles
decides the answer by itself, so no power of ten is larger than the range needs. -/
def toBinary64? (x : Numeral) : Option Binary64 :=
  if x.digits = 0 then some (.zero x.negative)
  else
    let top := (decimalLength x.digits : Int) + x.scale
    if top > 400 then none
    else if top < -400 then some (.zero x.negative)
    else if x.scale < 0 then Binary64.ofRatio? x.negative x.digits (Nat.pow 10 x.scale.natAbs)
    else Binary64.ofRatio? x.negative (x.digits * Nat.pow 10 x.scale.natAbs) 1

/-! ## 3. Reading -/

/-- The exponent part, which must end the text: nothing, or `e` and a signed digit string. -/
def exponent? : List Char → Option Int
  | [] => some 0
  | c :: rest =>
    if c = 'e' ∨ c = 'E' then
      let (negative, ds) := match rest with
        | '-' :: ds => (true, ds)
        | '+' :: ds => (false, ds)
        | ds => (false, ds)
      if ds ≠ [] ∧ ds.all Char.isDigit then
        some (if negative then -(digitsValue ds : Int) else digitsValue ds)
      else none
    else none

/-- The numeral that a text without a sign spells. -/
def unsigned? (negative : Bool) (cs : List Char) : Option Numeral :=
  let (whole, rest) := spanDigits cs
  let (fraction, rest) := match rest with
    | '.' :: rest => spanDigits rest
    | rest => ([], rest)
  if whole = [] ∧ fraction = [] then none
  else
    (exponent? rest).map fun e =>
      ⟨negative, digitsValue (whole ++ fraction), e - fraction.length⟩

/-- The numeral that a text spells, with at most one sign in front. -/
def read? : List Char → Option Numeral
  | '-' :: cs => unsigned? true cs
  | '+' :: cs => unsigned? false cs
  | cs => unsigned? false cs

end Numeral

end ApiTypes
