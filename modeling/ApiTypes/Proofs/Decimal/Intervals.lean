/-
# The decimals of a double

The reals that round to a double are an interval around it, and these intervals follow each other
without gaps: where the one ends the next one begins, and the end belongs to the one of the two
doubles that is even.  The shortest decimal of a double is found in its interval, so no two doubles
have the same one.

* `Binary64.edge` is where the interval of a double ends and that of the next one begins.
* `Binary64.magnitude_eq_of_holds`: a decimal lies in one interval only.
* `Binary64.holds_shortest`: the search for the shortest decimal ends with a hit.
-/
import ApiTypes.Decimal.Shortest
import Mathlib

namespace ApiTypes.Binary64

/-! ## 1. Intervals as numbers -/

namespace Interval

/-- The lower end of an interval. -/
def lower (i : Interval) : ℚ := i.low / i.den

/-- The double in an interval. -/
def value (i : Interval) : ℚ := i.num / i.den

/-- The upper end of an interval. -/
def upper (i : Interval) : ℚ := i.high / i.den

variable {i : Interval} {p : ℤ} {d : ℕ}

/-- A decimal as a fraction: the parts that are compared with the ends of an interval. -/
theorem exists_scale (i : Interval) (p : ℤ) : ∃ s t : ℕ, 0 < s ∧ 0 < t ∧
    (10 : ℚ) ^ p = t / s ∧
    (if p < 0 then Nat.pow 10 p.natAbs else 1) = s ∧
    (∀ d : ℕ, (if p < 0 then d * i.den else d * Nat.pow 10 p.natAbs * i.den) = d * t * i.den) ∧
    (if p < 0 then i.num * Nat.pow 10 p.natAbs else i.num) = i.num * s ∧
    (if p < 0 then i.den else i.den * Nat.pow 10 p.natAbs) = i.den * t := by
  by_cases hp : p < 0
  · refine ⟨10 ^ p.natAbs, 1, by positivity, one_pos, ?_, ?_⟩
    · obtain ⟨n, rfl⟩ := Int.exists_eq_neg_ofNat hp.le
      simp [zpow_neg]
    · simp [hp]
  · refine ⟨1, 10 ^ p.natAbs, one_pos, by positivity, ?_, ?_⟩
    · obtain ⟨n, rfl⟩ := Int.eq_ofNat_of_zero_le (not_lt.mp hp)
      simp
    · simp [hp]

/-- **What an interval holds are the decimals between its ends**, with them if it is closed. -/
theorem holds_iff (hden : 0 < i.den) : i.holds p d = true ↔
    if i.closed then i.lower ≤ d * 10 ^ p ∧ d * 10 ^ p ≤ i.upper
    else i.lower < d * 10 ^ p ∧ d * 10 ^ p < i.upper := by
  obtain ⟨s, t, hs, ht, hpow, hscale, hpoint, -⟩ := i.exists_scale p
  have hd : (d : ℚ) * 10 ^ p = d * t * i.den / (i.den * s) := by
    rw [hpow]
    field_simp
  have hlow : i.lower = i.low * s / (i.den * s) := by
    rw [lower]
    field_simp
  have hhigh : i.upper = i.high * s / (i.den * s) := by
    rw [upper]
    field_simp
  have hpos : (0 : ℚ) < i.den * s := by positivity
  rw [holds, hscale, hpoint, hd, hlow, hhigh]
  split
  · rw [Bool.and_eq_true, decide_eq_true_eq, decide_eq_true_eq, div_le_div_iff_of_pos_right hpos,
      div_le_div_iff_of_pos_right hpos]
    norm_cast
  · rw [Bool.and_eq_true, decide_eq_true_eq, decide_eq_true_eq, div_lt_div_iff_of_pos_right hpos,
      div_lt_div_iff_of_pos_right hpos]
    norm_cast

theorem lower_le_of_holds (hden : 0 < i.den) (h : i.holds p d = true) :
    i.lower ≤ d * 10 ^ p ∧ d * 10 ^ p ≤ i.upper := by
  rw [holds_iff hden] at h
  split at h
  · exact h
  · exact ⟨h.1.le, h.2.le⟩

/-! ## 2. The search -/

/-- A quotient is rounded to one of its neighbours. -/
theorem roundDiv_cases (a b : ℕ) : roundDiv a b = a / b ∨ roundDiv a b = a / b + 1 := by
  unfold roundDiv
  dsimp only
  split_ifs
  · exact Or.inl rfl
  · exact Or.inr rfl
  · rcases Nat.mod_two_eq_zero_or_one (a / b) with h | h
    · exact Or.inl (by rw [h, add_zero])
    · exact Or.inr (by rw [h])

/-- A point of a grid that is found lies in the interval. -/
theorem holds_of_point? (h : i.point? p = some d) : i.holds p d = true := by
  unfold point? at h
  dsimp only at h
  split at h
  · rename_i hlow hhigh
    rw [← Option.some.inj h]
    rcases roundDiv_cases _ _ with heq | heq
    · rwa [heq]
    · rwa [heq]
  · rename_i hlow _
    rwa [← Option.some.inj h]
  · rename_i _ hhigh
    rwa [← Option.some.inj h]
  · cases h

/-- **A grid that is finer than the interval is long below the double has a point in it.** -/
theorem exists_point? (hden : 0 < i.den) (hlower : 0 < i.lower) (hupper : i.value < i.upper)
    (hfine : (10 : ℚ) ^ p ≤ i.value - i.lower) : ∃ d, d ≠ 0 ∧ i.point? p = some d := by
  obtain ⟨s, t, hs, ht, hpow, -, -, ha, hb⟩ := i.exists_scale p
  generalize hd : i.num * s / (i.den * t) = d
  have hgrid : (0 : ℚ) < 10 ^ p := by positivity
  have hvalue : i.value = (i.num * s : ℕ) / (i.den * t : ℕ) * 10 ^ p := by
    rw [value, hpow]
    push_cast
    field_simp
  -- the last point that is not above the double
  have hle : (d : ℚ) * 10 ^ p ≤ i.value := by
    rw [hvalue, ← hd]
    exact mul_le_mul_of_nonneg_right Nat.cast_div_le hgrid.le
  have hlt : i.value < ((d : ℚ) + 1) * 10 ^ p := by
    rw [hvalue]
    refine mul_lt_mul_of_pos_right ?_ hgrid
    rw [div_lt_iff₀ (by positivity), ← hd]
    have := Nat.lt_div_mul_add (a := i.num * s) (b := i.den * t) (by positivity)
    calc ((i.num * s : ℕ) : ℚ) < ((i.num * s / (i.den * t) * (i.den * t) + i.den * t : ℕ) : ℚ) := by
          exact_mod_cast this
      _ = _ := by push_cast; ring
  have hin : i.holds p d = true := by
    rw [holds_iff hden]
    have hlow : i.lower < d * 10 ^ p := by linarith
    split
    · exact ⟨hlow.le, hle.trans hupper.le⟩
    · exact ⟨hlow, hle.trans_lt hupper⟩
  have hne : d ≠ 0 := by
    rintro rfl
    simp only [Nat.cast_zero, zero_add, one_mul] at hlt
    linarith
  unfold point?
  simp only [ha, hb, hd, hin]
  cases i.holds p (d + 1) with
  | true =>
    refine ⟨_, ?_, rfl⟩
    rcases roundDiv_cases (i.num * s) (i.den * t) with heq | heq
    · rwa [heq, hd]
    · rw [heq]
      exact Nat.succ_ne_zero _
  | false => exact ⟨d, hne, rfl⟩

/-- The search ends with a hit if one of the grids has a point in the interval. -/
theorem firstPoint_spec : ∀ {n : ℕ} {p : ℤ},
    (∃ j < n, ∃ d, d ≠ 0 ∧ i.point? (p - j) = some d) →
    (i.firstPoint n p).1 ≠ 0 ∧ i.holds (i.firstPoint n p).2 (i.firstPoint n p).1 = true
  | 0, _, ⟨_, hj, _⟩ => absurd hj (Nat.not_lt_zero _)
  | n + 1, p, ⟨j, hj, d, hd, hpoint⟩ => by
    -- A grid without a hit leaves it to the finer ones.
    have hnext : (∀ d', i.point? p = some d' → d' = 0) →
        ∃ j < n, ∃ d, d ≠ 0 ∧ i.point? (p - 1 - j) = some d := by
      intro hnone
      cases j with
      | zero => exact absurd (hnone d (by simpa using hpoint)) hd
      | succ j =>
        refine ⟨j, Nat.lt_of_succ_lt_succ hj, d, hd, ?_⟩
        rwa [sub_sub, add_comm 1, ← Nat.cast_succ]
    rw [firstPoint]
    split
    · rename_i d' hd'
      split
      · rename_i hzero
        exact firstPoint_spec (hnext fun d'' h => by
          rw [hd'] at h
          cases h
          exact hzero)
      · exact ⟨‹_›, holds_of_point? hd'⟩
    · rename_i hnone
      exact firstPoint_spec (hnext fun d'' h => by
        rw [hnone] at h
        cases h)

end Interval

/-! ## 3. The intervals of the doubles -/

/-- The integer in front of the power of two, by the bits. -/
def unitsAt (k : ℕ) : ℕ := if k < 2 ^ 52 then k else 2 ^ 52 + k % 2 ^ 52

/-- The power of two that a unit is worth, by the bits. -/
def placeAt (k : ℕ) : ℤ := if k < 2 ^ 52 then -1074 else (k / 2 ^ 52 : ℕ) - 1075

/-- **Where an interval ends and the next one begins.** -/
def edge (k : ℕ) : ℚ := (4 * unitsAt k + 2) * 2 ^ (placeAt k - 2)

variable {x y : Binary64}

theorem significand_eq (x : Binary64) : x.significand = unitsAt x.magnitude := rfl

theorem exponent_eq (x : Binary64) : x.exponent = placeAt x.magnitude := rfl

theorem interval_den (x : Binary64) : 0 < x.interval.den := by
  unfold interval
  dsimp only
  split
  · exact Nat.pow_pos (by decide)
  · exact one_pos

/-- The power of two that the ends of an interval are counted in. -/
theorem interval_scale (x : Binary64) : ∃ up : ℕ,
    x.interval.low = (4 * x.significand - (if x.significand = Nat.pow 2 52 ∧ x.exponent > -1074
      then 1 else 2)) * up ∧
    x.interval.num = 4 * x.significand * up ∧ x.interval.high = (4 * x.significand + 2) * up ∧
    (up / x.interval.den : ℚ) = 2 ^ (x.exponent - 2) := by
  refine ⟨_, rfl, rfl, rfl, ?_⟩
  unfold interval
  dsimp only
  by_cases h : x.exponent - 2 < 0
  · obtain ⟨n, hn⟩ := Int.exists_eq_neg_ofNat h.le
    rw [if_pos h, if_pos h, hn]
    simp [zpow_neg]
  · obtain ⟨n, hn⟩ := Int.eq_ofNat_of_zero_le (not_lt.mp h)
    rw [if_neg h, if_neg h, hn]
    simp

theorem upper_interval (x : Binary64) : x.interval.upper = edge x.magnitude := by
  obtain ⟨up, -, -, hhigh, hscale⟩ := x.interval_scale
  rw [Interval.upper, hhigh, edge, ← significand_eq, ← exponent_eq, ← hscale]
  push_cast
  ring

theorem value_interval (x : Binary64) :
    x.interval.value = 4 * x.significand * 2 ^ (x.exponent - 2) := by
  obtain ⟨up, -, hnum, -, hscale⟩ := x.interval_scale
  rw [Interval.value, hnum, ← hscale]
  push_cast
  ring

theorem lower_interval (x : Binary64) : x.interval.lower =
    (4 * x.significand - (if x.significand = Nat.pow 2 52 ∧ x.exponent > -1074 then 1 else 2) : ℕ)
      * 2 ^ (x.exponent - 2) := by
  obtain ⟨up, hlow, -, -, hscale⟩ := x.interval_scale
  rw [Interval.lower, hlow, ← hscale]
  push_cast
  ring

/-- **The interval of a double begins where the one below it ends.** -/
theorem lower_eq_edge {k : ℕ} (h : x.magnitude = k + 1) : x.interval.lower = edge k := by
  have hpow : Nat.pow 2 52 = 2 ^ 52 := rfl
  rw [lower_interval, significand_eq, exponent_eq, h, edge, hpow]
  by_cases hk : (k + 1) % 2 ^ 52 = 0 ∧ 2 ^ 52 < k + 1
  · -- a power of two, below which the doubles stand twice as close
    have hunits : unitsAt (k + 1) = 2 ^ 52 := by
      unfold unitsAt
      split_ifs <;> omega
    have hplace : placeAt (k + 1) = placeAt k + 1 := by
      unfold placeAt
      split_ifs <;> omega
    have hbelow : unitsAt k = 2 ^ 53 - 1 := by
      unfold unitsAt
      split_ifs <;> omega
    have hleast : placeAt (k + 1) > -1074 := by
      unfold placeAt
      split_ifs <;> omega
    rw [if_pos ⟨hunits, hleast⟩, hunits, hbelow, hplace, add_sub_right_comm,
      zpow_add_one₀ two_ne_zero]
    norm_num
    ring
  · have hunits : unitsAt (k + 1) = unitsAt k + 1 := by
      unfold unitsAt
      split_ifs <;> omega
    have hplace : placeAt (k + 1) = placeAt k := by
      unfold placeAt
      split_ifs <;> omega
    have hbelow : ¬ (unitsAt (k + 1) = 2 ^ 52 ∧ placeAt (k + 1) > -1074) := by
      unfold unitsAt placeAt
      split_ifs <;> omega
    rw [if_neg hbelow, hunits, hplace, mul_add, mul_one, Nat.add_sub_assoc (by decide)]
    push_cast
    ring

theorem edge_lt_succ (k : ℕ) : edge k < edge (k + 1) := by
  have hpos : (0 : ℚ) < 2 ^ (placeAt k - 2) := by positivity
  by_cases hk : placeAt (k + 1) = placeAt k
  · have hunits : unitsAt k < unitsAt (k + 1) := by
      unfold unitsAt
      unfold placeAt at hk
      split_ifs at hk ⊢ <;> omega
    rw [edge, edge, hk]
    refine mul_lt_mul_of_pos_right ?_ hpos
    have : (unitsAt k : ℚ) < unitsAt (k + 1) := by exact_mod_cast hunits
    linarith
  · have hplace : placeAt (k + 1) = placeAt k + 1 ∧ unitsAt k < 2 * unitsAt (k + 1) := by
      unfold placeAt at hk ⊢
      unfold unitsAt
      split_ifs at hk ⊢ <;> omega
    have hunits : (unitsAt k : ℚ) < 2 * unitsAt (k + 1) := by exact_mod_cast hplace.2
    rw [edge, edge, hplace.1, add_sub_right_comm, zpow_add_one₀ two_ne_zero]
    nlinarith

theorem strictMono_edge : StrictMono edge := strictMono_nat_of_lt_succ edge_lt_succ

theorem unitsAt_mod_two (k : ℕ) : unitsAt k % 2 = k % 2 := by
  unfold unitsAt
  split_ifs <;> omega

/-- A double and one above it hold no decimal in common: they could share an end only, and one of
the two is odd and does not hold it. -/
theorem not_holds_of_lt {p p' : ℤ} {d d' : ℕ} (hlt : x.magnitude < y.magnitude)
    (hvalue : (d : ℚ) * 10 ^ p = d' * 10 ^ p') (hx : x.interval.holds p d = true) :
    y.interval.holds p' d' ≠ true := by
  intro hy
  obtain ⟨k, hk⟩ := Nat.exists_eq_succ_of_ne_zero (Nat.ne_zero_of_lt hlt)
  have hle : x.magnitude ≤ k := Nat.le_of_lt_succ (hk ▸ hlt)
  have hupper := (Interval.lower_le_of_holds x.interval_den hx).2
  have hlower := (Interval.lower_le_of_holds y.interval_den hy).1
  rw [upper_interval] at hupper
  rw [lower_eq_edge hk, ← hvalue] at hlower
  have hedge : edge x.magnitude = edge k :=
    le_antisymm (strictMono_edge.monotone hle) (hlower.trans hupper)
  have hsame : x.magnitude = k := strictMono_edge.injective hedge
  -- the decimal is the end that the intervals share, so both are closed
  have hclosed : ∀ {z : Binary64} {p d}, z.interval.holds p d = true →
      (d : ℚ) * 10 ^ p = z.interval.lower ∨ (d : ℚ) * 10 ^ p = z.interval.upper →
      z.magnitude % 2 = 0 := by
    intro z p d hz hend
    rw [Interval.holds_iff z.interval_den] at hz
    split at hz
    · rename_i heven
      rw [← unitsAt_mod_two]
      exact of_decide_eq_true heven
    · rcases hend with hend | hend
      · exact absurd hend hz.1.ne'
      · exact absurd hend hz.2.ne
  have hxeven := hclosed hx (.inr (by
    rw [upper_interval]
    exact le_antisymm hupper (hedge ▸ hlower)))
  have hyeven := hclosed hy (.inl (by
    rw [← hvalue, lower_eq_edge hk, ← hedge]
    exact le_antisymm hupper (hedge ▸ hlower)))
  omega

/-- **A decimal lies in the interval of one double only.** -/
theorem magnitude_eq_of_holds {p p' : ℤ} {d d' : ℕ} (hvalue : (d : ℚ) * 10 ^ p = d' * 10 ^ p')
    (hx : x.interval.holds p d = true) (hy : y.interval.holds p' d' = true) :
    x.magnitude = y.magnitude := by
  rcases lt_trichotomy x.magnitude y.magnitude with hlt | heq | hgt
  · exact absurd hy (not_holds_of_lt hlt hvalue hx)
  · exact heq
  · exact absurd hx (not_holds_of_lt hgt hvalue.symm hy)

/-! ## 4. The search ends with a hit -/

/-- A power of ten is at most a power of two, from one such bound and what follows from it for
multiples of the exponents. -/
theorem ten_zpow_le {q e a b c : ℤ} {n : ℕ} (hn : n ≠ 0) (hab : (10 : ℚ) ^ a ≤ 2 ^ b) (hc : 0 ≤ c)
    (hq : q * n = a * c) (he : b * c ≤ e * n) : (10 : ℚ) ^ q ≤ 2 ^ e := by
  refine (pow_le_pow_iff_left₀ (by positivity) (by positivity) hn).mp ?_
  calc ((10 : ℚ) ^ q) ^ n = (10 ^ a) ^ c := by rw [← zpow_natCast, ← zpow_mul, hq, zpow_mul]
    _ ≤ (2 ^ b) ^ c := zpow_le_zpow_left₀ hc (by positivity) hab
    _ = 2 ^ (b * c) := (zpow_mul _ _ _).symm
    _ ≤ 2 ^ (e * n) := zpow_le_zpow_right₀ one_le_two he
    _ = ((2 : ℚ) ^ e) ^ n := by rw [zpow_mul, zpow_natCast]

/-- The last of the grids that are tried is finer than any interval is long. -/
theorem finest_grid_le (x : Binary64) :
    (10 : ℚ) ^ (((Nat.log2 x.significand : ℤ) + x.exponent) * 30103 / 100000 - 21)
      ≤ 2 ^ (x.exponent - 2) := by
  have hmagnitude := x.magnitude_lt
  have hpow : Nat.pow 2 52 = 2 ^ 52 := rfl
  rw [hpow] at hmagnitude
  have hexponent : -1074 ≤ x.exponent ∧ x.exponent ≤ 971 := by
    rw [exponent_eq]
    unfold placeAt
    split_ifs <;> omega
  have hlog : Nat.log2 x.significand ≤ 52 := by
    by_cases hzero : x.significand = 0
    · rw [hzero]
      decide
    · refine Nat.le_of_lt_succ ((Nat.log2_lt hzero).mpr ?_)
      rw [significand_eq]
      unfold unitsAt
      split_ifs <;> omega
  generalize hq : ((Nat.log2 x.significand : ℤ) + x.exponent) * 30103 / 100000 - 21 = q
  rcases le_or_gt 0 q with hsign | hsign
  · exact ten_zpow_le (a := 3) (b := 10) (c := q) three_ne_zero (by norm_num) hsign (by omega)
      (by omega)
  · exact ten_zpow_le (a := -28) (b := -93) (c := -q) (n := 28) (by decide) (by norm_num) (by omega)
      (by omega) (by omega)

/-- **The shortest decimal of a double lies in its interval.** -/
theorem holds_shortest (h : x.magnitude ≠ 0) :
    x.shortest.1 ≠ 0 ∧ x.interval.holds x.shortest.2 x.shortest.1 = true := by
  rw [shortest, if_neg h]
  refine Interval.firstPoint_spec ⟨23, by decide, ?_⟩
  have hunits : 1 ≤ x.significand := by
    rw [significand_eq]
    unfold unitsAt
    split_ifs <;> omega
  have hpos : (0 : ℚ) < 2 ^ (x.exponent - 2) := by positivity
  generalize hbelow :
    (if x.significand = Nat.pow 2 52 ∧ x.exponent > -1074 then 1 else 2) = below
  have hle : 1 ≤ below ∧ below ≤ 2 := by
    rw [← hbelow]
    split_ifs <;> decide
  have hlower : x.interval.lower = (4 * x.significand - below) * 2 ^ (x.exponent - 2) := by
    rw [lower_interval, hbelow, Nat.cast_sub (by omega)]
    push_cast
    ring
  have hone : (1 : ℚ) ≤ x.significand := by exact_mod_cast hunits
  have hbelow₁ : (1 : ℚ) ≤ below := by exact_mod_cast hle.1
  have hbelow₂ : (below : ℚ) ≤ 2 := by exact_mod_cast hle.2
  refine Interval.exists_point? x.interval_den ?_ ?_ ?_
  · rw [hlower]
    exact mul_pos (by linarith) hpos
  · rw [value_interval, upper_interval, edge, ← significand_eq, ← exponent_eq]
    exact mul_lt_mul_of_pos_right (by linarith) hpos
  · rw [value_interval, hlower]
    have hgrid := x.finest_grid_le
    have hsub : ∀ z : ℤ, z + 2 - (23 : ℕ) = z - 21 := fun z => by push_cast; ring
    rw [hsub]
    nlinarith

end ApiTypes.Binary64
