/-
# The shortest decimal of a double

Of all decimals that read back as a given double, the shortest one is written; of several
equally short ones, the one nearest to the double.  The decimals with last place `10 ^ p`
form a grid, and if any point of the grid reads back then one of the two neighbours of the
double on it does.  So the grids are tried from coarse to fine and the first hit wins.

* `Binary64.shortest` gives the digits and the power of ten of the last one.
* `DecimalForm` says where a format stops writing zeros and starts writing an exponent;
  `Binary64.written` writes a double in such a form.
-/
import ApiTypes.Decimal.Numeral

namespace ApiTypes

namespace Binary64

/-! ## 1. The interval that reads back -/

/-- A positive double `num / den` with the ends of the interval of reals that round to it, all
over the same denominator.  The ends belong to it iff `closed`. -/
structure Interval where
  low : Nat
  num : Nat
  high : Nat
  den : Nat
  closed : Bool

/-- The interval of a double: half a unit on both sides, and a quarter below a power of two,
where the doubles below stand twice as close. -/
def interval (x : Binary64) : Interval :=
  let m := x.significand
  let q := x.exponent - 2
  let below := if m = Nat.pow 2 52 ∧ x.exponent > -1074 then 1 else 2
  let up := if q < 0 then 1 else Nat.pow 2 q.natAbs
  let down := if q < 0 then Nat.pow 2 q.natAbs else 1
  ⟨(4 * m - below) * up, 4 * m * up, (4 * m + 2) * up, down, m % 2 = 0⟩

/-- Whether `d * 10 ^ p` lies in the interval. -/
def Interval.holds (i : Interval) (p : Int) (d : Nat) : Bool :=
  let v := if p < 0 then d * i.den else d * Nat.pow 10 p.natAbs * i.den
  let s := if p < 0 then Nat.pow 10 p.natAbs else 1
  if i.closed then i.low * s ≤ v && v ≤ i.high * s else i.low * s < v && v < i.high * s

/-- The point of the grid `10 ^ p` that lies in the interval, if there is one: of two the
nearer, a tie to the even one. -/
def Interval.point? (i : Interval) (p : Int) : Option Nat :=
  let a := if p < 0 then i.num * Nat.pow 10 p.natAbs else i.num
  let b := if p < 0 then i.den else i.den * Nat.pow 10 p.natAbs
  let d := a / b
  match i.holds p d, i.holds p (d + 1) with
  | true, true => some (roundDiv a b)
  | true, false => some d
  | false, true => some (d + 1)
  | false, false => none

/-! ## 2. The search -/

/-- The first hit on the grids `10 ^ p`, `10 ^ (p - 1)`, …, at most `n` of them. -/
def Interval.firstPoint (i : Interval) : Nat → Int → Nat × Int
  | 0, p => (i.num / i.den, p)
  | n + 1, p =>
    match i.point? p with
    | some d => if d = 0 then i.firstPoint n (p - 1) else (d, p)
    | none => i.firstPoint n (p - 1)

/-- The shortest digits of a double and the power of ten of the last digit. -/
def shortest (x : Binary64) : Nat × Int :=
  if x.magnitude = 0 then (0, 0)
  else
    let bits := (Nat.log2 x.significand : Int) + x.exponent
    x.interval.firstPoint 24 (bits * 30103 / 100000 + 2)

end Binary64

/-! ## 3. Writing -/

/-- How a format writes a decimal: the exponents of the first digit for which it writes the
digits in place, and whether a positive exponent carries a sign. -/
structure DecimalForm where
  least : Int
  greatest : Int
  plus : Bool

/-- `n` zeros. -/
def zeros (n : Nat) : String := String.ofList (List.replicate n '0')

/-- Writes `digits * 10 ^ scale` in a form; a number always shows a point or an exponent. -/
def DecimalForm.write (form : DecimalForm) (digits : Nat) (scale : Int) : String :=
  let ds := Nat.toDigits 10 digits
  let first := scale + ds.length - 1
  if form.least ≤ first ∧ first ≤ form.greatest then
    if scale ≥ 0 then String.ofList ds ++ zeros scale.toNat ++ ".0"
    else if first ≥ 0 then
      String.ofList (ds.take (first.toNat + 1)) ++ "." ++ String.ofList (ds.drop (first.toNat + 1))
    else "0." ++ zeros (-first - 1).toNat ++ String.ofList ds
  else
    let fraction := ds.drop 1
    String.ofList (ds.take 1)
      ++ (if fraction = [] then "" else "." ++ String.ofList fraction)
      ++ "e" ++ (if first < 0 then "-" else if form.plus then "+" else "")
      ++ toString first.natAbs

/-- A double in the given form. -/
def Binary64.written (form : DecimalForm) (x : Binary64) : String :=
  let (digits, scale) := x.shortest
  (if x.negative then "-" else "") ++ form.write digits scale

end ApiTypes
