/-
# Numbers and their texts

A decimal is written in one of four layouts, and each is read back as a numeral of the value that
was written.  The value is in the interval of one double only, so the text of a double is its own;
and it shows a point or an exponent, which the text of an integer never does.

* `Numeral.read_write`: the value of a decimal is read back from its text.
* `JsonNumber.written_injective`: no two numbers have one text.
-/
import ApiTypes.Proofs.Decimal.Intervals
import ApiTypes.Proofs.Json.Following
import ApiTypes.Proofs.TypeExpr.Spelled

namespace ApiTypes

open Token (Digits IsDecimal digits_toDigits spanDigits_append)

/-! ## 1. Digits -/

theorem digitsValue_append (xs ys : List Char) :
    digitsValue (xs ++ ys) = Nat.ofDigitChars 10 ys (digitsValue xs) :=
  Nat.ofDigitChars_append 0

theorem digitsValue_append_zeros (xs : List Char) (n : ℕ) :
    digitsValue (xs ++ (zeros n).toList) = 10 ^ n * digitsValue xs := by
  rw [digitsValue_append, zeros, String.toList_ofList, Nat.ofDigitChars_replicate_zero]

theorem digitsValue_zeros_append (ys : List Char) (n : ℕ) :
    digitsValue ((zeros n).toList ++ ys) = digitsValue ys := by
  have hzeros := digitsValue_append_zeros [] n
  have hnil : digitsValue [] = 0 := rfl
  rw [List.nil_append, hnil, mul_zero] at hzeros
  rw [digitsValue_append, hzeros]
  rfl

/-! ## 2. Decimals -/

namespace Numeral

/-- The value of a numeral, without its sign. -/
def value (n : Numeral) : ℚ := n.digits * 10 ^ n.scale

variable (negative : Bool) {whole ds cs : List Char} {e : ℤ}

/-- Digits, further digits behind a point, and what is read as an exponent. -/
theorem unsigned?_point (hwhole : Digits whole) (hds : ∀ c ∈ ds, c.isDigit = true)
    (hend : ∀ c ∈ cs.head?, c.isDigit = false) (he : exponent? cs = some e) :
    unsigned? negative (whole ++ '.' :: (ds ++ cs))
      = some ⟨negative, digitsValue (whole ++ ds), e - ds.length⟩ := by
  have hspan : spanDigits (whole ++ '.' :: (ds ++ cs)) = (whole, '.' :: (ds ++ cs)) :=
    spanDigits_append hwhole.2 fun c hc => by
      cases hc
      rfl
  simp only [unsigned?, hspan, spanDigits_append hds hend, hwhole.1, false_and, if_false, he,
    Option.map_some]

/-- Digits and what is read as an exponent. -/
theorem unsigned?_whole (hwhole : Digits whole) (hend : ∀ c ∈ cs.head?, c.isDigit = false ∧ c ≠ '.')
    (he : exponent? cs = some e) :
    unsigned? negative (whole ++ cs) = some ⟨negative, digitsValue whole, e⟩ := by
  have hspan : spanDigits (whole ++ cs) = (whole, cs) :=
    spanDigits_append hwhole.2 fun c hc => (hend c hc).1
  rw [unsigned?, hspan]
  dsimp only
  split
  · exact absurd rfl (hend '.' rfl).2
  · simp [hwhole.1, he]

/-- An exponent is read as it is written. -/
theorem exponent?_write {sign : List Char} (hds : Digits ds)
    (hsign : sign = [] ∨ sign = ['-'] ∨ sign = ['+']) :
    exponent? ('e' :: (sign ++ ds))
      = some (if sign = ['-'] then -(digitsValue ds : ℤ) else digitsValue ds) := by
  have hall : ds.all Char.isDigit = true := List.all_eq_true.mpr hds.2
  rcases hsign with rfl | rfl | rfl
  · obtain ⟨c, ds, rfl, hc⟩ := hds.exists_cons
    have hminus : c ≠ '-' := fun h => by rw [h] at hc; cases hc
    have hplus : c ≠ '+' := fun h => by rw [h] at hc; cases hc
    simp [exponent?, hall, hminus, hplus]
  · simp [exponent?, hds.1, hall]
  · simp [exponent?, hds.1, hall]

/-- **The value of a decimal is read back from its text**, in each of the four layouts. -/
theorem read_write (form : DecimalForm) (digits : ℕ) (scale : ℤ) :
    ∃ n, unsigned? negative (form.write digits scale).toList = some n ∧
      n.value = digits * 10 ^ scale := by
  have hds := digits_toDigits digits
  have hdigits := digitsValue_toDigits digits
  unfold DecimalForm.write
  generalize Nat.toDigits 10 digits = ds at hds hdigits
  have hlength := List.length_pos_of_ne_nil hds.1
  have hnone : ∀ c ∈ ([] : List Char).head?, c.isDigit = false := fun c hc => by cases hc
  have hzero : (['0'] : List Char) = (zeros 1).toList := rfl
  dsimp only
  split
  · split
    · -- digits, zeros and no fraction
      rename_i hscale
      obtain ⟨k, rfl⟩ := Int.eq_ofNat_of_zero_le hscale
      have hread := unsigned?_point negative
        (hds.append (Token.isDigit_of_mem_zeros (n := k))) Token.digits_zero.2 hnone rfl
      refine ⟨_, Eq.trans (congrArg _ (by simp)) hread, ?_⟩
      have hplace : (0 : ℤ) - (['0'] : List Char).length = -1 := rfl
      rw [hplace, hzero, digitsValue_append_zeros, digitsValue_append_zeros, hdigits, value]
      push_cast
      rw [zpow_neg_one, zpow_natCast]
      ring
    · split
      · -- the point stands among the digits
        generalize hk : (scale + ds.length - 1).toNat + 1 = k
        obtain ⟨hbefore, hafter⟩ := hds.split (k := k) (by omega) (by omega)
        have hread := unsigned?_point negative hbefore hafter.2 hnone rfl
        refine ⟨_, Eq.trans (congrArg _ (by simp)) hread, ?_⟩
        have hplace : (0 : ℤ) - (ds.drop k).length = scale := by
          rw [List.length_drop]
          omega
        rw [List.take_append_drop, hdigits, hplace, value]
      · -- the point stands before the digits
        generalize hk : (-(scale + ds.length - 1) - 1).toNat = k
        have hread := unsigned?_point negative Token.digits_zero
          (List.forall_mem_append.mpr ⟨Token.isDigit_of_mem_zeros (n := k), hds.2⟩) hnone rfl
        refine ⟨_, Eq.trans (congrArg _ (by simp)) hread, ?_⟩
        have hplace : (0 : ℤ) - ((zeros k).toList ++ ds).length = scale := by
          rw [List.length_append, zeros, String.toList_ofList, List.length_replicate]
          omega
        rw [hplace, hzero, digitsValue_zeros_append, digitsValue_zeros_append, hdigits, value]
  · generalize hfirst : scale + ds.length - 1 = first
    generalize hsign : (if first < 0 then "-" else if form.plus then "+" else "") = sign
    have hminus : sign.toList = [] ∨ sign.toList = ['-'] ∨ sign.toList = ['+'] := by
      rw [← hsign]
      split_ifs <;> simp
    have hnegative : sign.toList = ['-'] ↔ first < 0 := by
      rw [← hsign]
      split_ifs with hlt <;> simp [hlt]
    have hexponent : exponent? ('e' :: (sign.toList ++ Nat.toDigits 10 first.natAbs))
        = some first := by
      rw [exponent?_write (digits_toDigits _) hminus, digitsValue_toDigits]
      simp only [hnegative]
      split_ifs with hlt
      · rw [Int.natCast_natAbs, abs_of_neg hlt, neg_neg]
      · rw [Int.natCast_natAbs, abs_of_nonneg (not_lt.mp hlt)]
    obtain ⟨c, rest, rfl, hc⟩ := hds.exists_cons
    have hone : Digits [c] := ⟨List.cons_ne_nil _ _, by simpa using hc⟩
    have hend : ∀ a ∈ ('e' :: (sign.toList ++ Nat.toDigits 10 first.natAbs)).head?,
        a.isDigit = false ∧ a ≠ '.' := by
      intro a ha
      cases ha
      exact ⟨rfl, by decide⟩
    rw [List.length_cons] at hfirst
    cases rest with
    | nil =>
      have hread := unsigned?_whole negative hone hend hexponent
      refine ⟨_, Eq.trans (congrArg _ (by simp)) hread, ?_⟩
      rw [hdigits, value, ← hfirst]
      simp
    | cons d rest =>
      have hread := unsigned?_point negative hone
        (fun a ha => hds.2 a (List.mem_cons_of_mem _ ha)) (fun a ha => (hend a ha).1) hexponent
      refine ⟨_, Eq.trans (congrArg _ (by simp)) hread, ?_⟩
      have hplace : first - (d :: rest).length = scale := by omega
      rw [List.singleton_append, hdigits, hplace, value]

end Numeral

/-! ## 3. Numbers -/

/-- A decimal shows a point or an exponent. -/
theorem DecimalForm.exists_mem_write (form : DecimalForm) (digits : ℕ) (scale : ℤ) :
    ∃ c ∈ (form.write digits scale).toList, c = '.' ∨ c = 'e' := by
  unfold write
  dsimp only
  split
  · refine ⟨'.', ?_, .inl rfl⟩
    split_ifs <;> simp
  · exact ⟨'e', by simp, .inr rfl⟩

/-- The text of an integer shows none. -/
theorem eq_of_mem_toString {n : ℤ} {c : Char} (h : c ∈ (toString n).toList) :
    c = '-' ∨ c.isDigit = true := by
  have hrepr : toString n = n.repr := rfl
  rw [hrepr, Int.repr_eq_if] at h
  split_ifs at h
  · exact .inr ((digits_toDigits _).2 c (by simpa using h))
  · rw [String.toList_append, List.mem_append] at h
    rcases h with h | h
    · exact .inl (by simpa using h)
    · exact .inr ((digits_toDigits _).2 c (by simpa using h))

namespace Binary64

variable {form : DecimalForm} {x y : Binary64}

/-- The sign of a double is told from its text, and what else is written from the rest. -/
theorem written_inj (h : x.written form = y.written form) : x.negative = y.negative ∧
    form.write x.shortest.1 x.shortest.2 = form.write y.shortest.1 y.shortest.2 := by
  have hdigit : ∀ (z : Binary64) (cs : List Char),
      (form.write z.shortest.1 z.shortest.2).toList ≠ '-' :: cs := by
    intro z cs heq
    obtain ⟨c, cs', hcs, hc⟩ :=
      (Token.isDecimal_write form z.shortest.1 z.shortest.2).exists_cons
    rw [heq] at hcs
    cases hcs
    cases hc
  have htext := congrArg String.toList h
  rw [written, written] at htext
  cases hx : x.negative <;> cases hy : y.negative <;>
    simp only [hx, hy, if_true, String.toList_append] at htext
  · exact ⟨rfl, String.toList_injective htext⟩
  · exact absurd htext (hdigit x _)
  · exact absurd htext.symm (hdigit y _)
  · exact ⟨rfl, String.toList_injective (List.append_cancel_left htext)⟩

/-- **No two doubles have one text.** -/
theorem written_injective (form : DecimalForm) : Function.Injective (written form) := by
  intro x y h
  obtain ⟨hsign, htext⟩ := written_inj h
  obtain ⟨n, hread, hx⟩ := Numeral.read_write false form x.shortest.1 x.shortest.2
  obtain ⟨m, hread', hy⟩ := Numeral.read_write false form y.shortest.1 y.shortest.2
  rw [htext, hread'] at hread
  cases hread
  have hvalue := hx.symm.trans hy
  have hzero : ∀ {z : Binary64}, (z.shortest.1 : ℚ) * 10 ^ z.shortest.2 = 0 ↔ z.magnitude = 0 := by
    intro z
    by_cases hz : z.magnitude = 0
    · simp [shortest, hz]
    · have hdigits := (holds_shortest hz).1
      have hpow : (10 : ℚ) ^ z.shortest.2 ≠ 0 := by positivity
      simp [hdigits, hpow, hz]
  have hmagnitude : x.magnitude = y.magnitude := by
    by_cases hz : x.magnitude = 0
    · rw [hz, hzero.mp (hvalue.symm.trans (hzero.mpr hz))]
    · have hz' : y.magnitude ≠ 0 := fun hy => hz (hzero.mp (hvalue.trans (hzero.mpr hy)))
      exact magnitude_eq_of_holds hvalue (holds_shortest hz).2 (holds_shortest hz').2
  cases x
  cases y
  cases hsign
  cases hmagnitude
  rfl

end Binary64

/-- An integer and a double differ in a point or an exponent. -/
theorem toString_ne_written (n : ℤ) (x : Binary64) (form : DecimalForm) :
    toString n ≠ x.written form := by
  intro h
  obtain ⟨c, hc, hmark⟩ := form.exists_mem_write x.shortest.1 x.shortest.2
  have hmem : c ∈ (toString n).toList := by
    rw [h, Binary64.written, String.toList_append]
    exact List.mem_append_right _ hc
  rcases hmark with rfl | rfl
  · rcases eq_of_mem_toString hmem with h | h <;> cases h
  · rcases eq_of_mem_toString hmem with h | h <;> cases h

/-- **No two numbers have one text.** -/
theorem JsonNumber.written_injective : Function.Injective JsonNumber.written := by
  intro a b h
  cases a with
  | int m =>
    cases b with
    | int n => exact congrArg int (Int.repr_injective h)
    | float y => exact absurd h (toString_ne_written m y form)
  | float x =>
    cases b with
    | int n => exact absurd h.symm (toString_ne_written n x form)
    | float y => exact congrArg float (Binary64.written_injective form h)

end ApiTypes
