/-
# Texts that come back from their bytes

A text is read back from its bytes: the first byte of a character never continues another one, so
what is unfinished before a character cannot take a byte of it.  A text with percent signs need not
come back.  A percent sign before two hexadecimal digits stands for one byte, and a byte is never
read as more than one character, so such a text gets shorter.

* `Text.decodeFrom_utf8EncodeChar`: the bytes of a character are read as the character.
* `Text.HasEscape` says that a percent sign stands before two hexadecimal digits.
* `Text.percentDecode_eq_self_iff`: just the texts without such a sign stand for themselves.
-/
import ApiTypes.Text.Utf8
import Mathlib.Tactic.Common

namespace ApiTypes.Text

variable {u : Unfinished} {bs : List UInt8} {n : Nat}

/-! ## 1. Single bytes -/

/-- The classes of first bytes, by their numbers. -/
theorem firstByte_ofNat (h : n < 256) :
    firstByte (UInt8.ofNat n) =
      if n < 0x80 then .single (Char.ofNat n)
      else if 0xC2 ≤ n ∧ n ≤ 0xDF then .start ⟨1, 0x80, 0xBF, n % 0x20⟩
      else if n = 0xE0 then .start ⟨2, 0xA0, 0xBF, 0⟩
      else if n = 0xED then .start ⟨2, 0x80, 0x9F, 0xD⟩
      else if 0xE1 ≤ n ∧ n ≤ 0xEF then .start ⟨2, 0x80, 0xBF, n % 0x10⟩
      else if n = 0xF0 then .start ⟨3, 0x90, 0xBF, 0⟩
      else if 0xF1 ≤ n ∧ n ≤ 0xF3 then .start ⟨3, 0x80, 0xBF, n % 8⟩
      else if n = 0xF4 then .start ⟨3, 0x80, 0x8F, 4⟩
      else .invalid := by
  have hn : (UInt8.ofNat n).toNat = n := by
    rw [UInt8.toNat_ofNat']
    omega
  simp [firstByte, UInt8.lt_iff_toNat_lt, UInt8.le_iff_toNat_le, ← UInt8.toNat_inj, hn]

/-- A first byte that starts a longer character leaves it unfinished. -/
theorem decodeFrom_of_start {b : UInt8} (h : firstByte b = .start u) :
    decodeFrom none (b :: bs) = decodeFrom (some u) bs := by
  rw [decodeFrom, h]

/-- A byte that cannot continue a character cuts it off, and is read afresh. -/
theorem decodeFrom_of_not {b : UInt8} (h : ¬(u.low ≤ b ∧ b ≤ u.high)) :
    decodeFrom (some u) (b :: bs) = replacement :: decodeFrom none (b :: bs) := by
  have hrange : (decide (u.low ≤ b) && decide (b ≤ u.high)) = false := by simpa using h
  rw [decodeFrom, decodeFrom, hrange]
  rfl

/-- A byte that continues a character ends it, or leaves one byte less missing. -/
theorem decodeFrom_of_range {b : UInt8} (hlow : u.low ≤ b) (hhigh : b ≤ u.high) :
    decodeFrom (some u) (b :: bs) =
      if u.missing ≤ 1 then
        Char.ofNat (u.value * 0x40 + b.toNat % 0x40) :: decodeFrom none bs
      else
        decodeFrom (some ⟨u.missing - 1, 0x80, 0xBF, u.value * 0x40 + b.toNat % 0x40⟩) bs := by
  have hrange : (decide (u.low ≤ b) && decide (b ≤ u.high)) = true := by simp [hlow, hhigh]
  rw [decodeFrom, hrange]
  rfl

/-- The same of a byte that carries six bits. -/
theorem decodeFrom_tail (hn : n < 0x40) (hlow : u.low.toNat ≤ n + 0x80)
    (hhigh : n + 0x80 ≤ u.high.toNat) :
    decodeFrom (some u) (UInt8.ofNat (n + 0x80) :: bs) =
      if u.missing ≤ 1 then Char.ofNat (u.value * 0x40 + n) :: decodeFrom none bs
      else decodeFrom (some ⟨u.missing - 1, 0x80, 0xBF, u.value * 0x40 + n⟩) bs := by
  have hb : (UInt8.ofNat (n + 0x80)).toNat = n + 0x80 := by
    rw [UInt8.toNat_ofNat']
    omega
  have hmod : (n + 0x80) % 0x40 = n := by omega
  rw [decodeFrom_of_range (UInt8.le_iff_toNat_le.mpr (by omega))
    (UInt8.le_iff_toNat_le.mpr (by omega)), hb, hmod]

/-! ## 2. Characters -/

/-- The first of three bytes.  The range of the second one leaves out the overlong spellings and
the surrogates, so it holds the byte that a character has there. -/
theorem exists_firstByte_three {v : Nat} (hleast : 0x7FF < v) (hmost : v ≤ 0xFFFF)
    (hvalid : v < 0xD800 ∨ 0xDFFF < v) :
    ∃ low high : UInt8, firstByte (UInt8.ofNat (v / 4096 % 16 + 224)) =
        .start ⟨2, low, high, v / 4096⟩ ∧
      low.toNat ≤ v / 64 % 64 + 0x80 ∧ v / 64 % 64 + 0x80 ≤ high.toNat := by
  rw [firstByte_ofNat (by omega), if_neg (by omega), if_neg (by omega)]
  by_cases h0 : v / 4096 = 0
  · rw [if_pos (by omega), h0]
    exact ⟨0xA0, 0xBF, rfl, by simp; omega, by simp; omega⟩
  · rw [if_neg (by omega)]
    by_cases hD : v / 4096 = 0xD
    · rw [if_pos (by omega), hD]
      exact ⟨0x80, 0x9F, rfl, by simp, by simp; omega⟩
    · have hmod : (v / 4096 % 16 + 224) % 0x10 = v / 4096 := by omega
      rw [if_neg (by omega), if_pos (by omega), hmod]
      exact ⟨0x80, 0xBF, rfl, by simp, by simp; omega⟩

/-- The first of four bytes. -/
theorem exists_firstByte_four {v : Nat} (hleast : 0xFFFF < v) (hmost : v < 0x110000) :
    ∃ low high : UInt8, firstByte (UInt8.ofNat (v / 262144 % 8 + 240)) =
        .start ⟨3, low, high, v / 262144⟩ ∧
      low.toNat ≤ v / 4096 % 64 + 0x80 ∧ v / 4096 % 64 + 0x80 ≤ high.toNat := by
  rw [firstByte_ofNat (by omega), if_neg (by omega), if_neg (by omega), if_neg (by omega),
    if_neg (by omega), if_neg (by omega)]
  by_cases h0 : v / 262144 = 0
  · rw [if_pos (by omega), h0]
    exact ⟨0x90, 0xBF, rfl, by simp; omega, by simp; omega⟩
  · rw [if_neg (by omega)]
    by_cases h4 : v / 262144 = 4
    · rw [if_neg (by omega), if_pos (by omega), h4]
      exact ⟨0x80, 0x8F, rfl, by simp, by simp; omega⟩
    · have hmod : (v / 262144 % 8 + 240) % 8 = v / 262144 := by omega
      rw [if_pos (by omega), hmod]
      exact ⟨0x80, 0xBF, rfl, by simp, by simp; omega⟩

/-- **The bytes of a character are read as the character**, whatever follows them. -/
theorem decodeFrom_utf8EncodeChar (c : Char) :
    decodeFrom none (String.utf8EncodeChar c ++ bs) = c :: decodeFrom none bs := by
  have hvalid : c.val.toNat < 0xD800 ∨ 0xDFFF < c.val.toNat ∧ c.val.toNat < 0x110000 := c.valid
  have hchar : Char.ofNat c.val.toNat = c := Char.ofNat_toNat c
  rw [String.utf8EncodeChar]
  generalize c.val.toNat = v at hvalid hchar
  subst hchar
  split_ifs with h1 h2 h3 <;> simp only [List.cons_append, List.nil_append]
  · have hfirst : firstByte (UInt8.ofNat v) = .single (Char.ofNat v) := by
      rw [firstByte_ofNat (by omega), if_pos (by omega)]
    rw [decodeFrom, hfirst]
  · have hfirst : firstByte (UInt8.ofNat (v / 64 % 32 + 192)) =
        .start ⟨1, 0x80, 0xBF, v / 64⟩ := by
      rw [firstByte_ofNat (by omega), if_neg (by omega), if_pos (by omega)]
      congr 2
      omega
    have hvalue : v / 64 * 0x40 + v % 64 = v := by omega
    rw [decodeFrom_of_start hfirst, decodeFrom_tail (by omega) (by simp) (by simp; omega),
      if_pos (by simp), hvalue]
  · obtain ⟨low, high, hfirst, hlow, hhigh⟩ :=
      exists_firstByte_three (v := v) (by omega) h3 (by omega)
    have hvalue : (v / 4096 * 0x40 + v / 64 % 64) * 0x40 + v % 64 = v := by omega
    rw [decodeFrom_of_start hfirst, decodeFrom_tail (by omega) hlow hhigh, if_neg (by simp),
      decodeFrom_tail (by omega) (by simp) (by simp; omega), if_pos (by simp), hvalue]
  · obtain ⟨low, high, hfirst, hlow, hhigh⟩ :=
      exists_firstByte_four (v := v) (by omega) (by omega)
    have hvalue : ((v / 262144 * 0x40 + v / 4096 % 64) * 0x40 + v / 64 % 64) * 0x40 + v % 64 = v := by
      omega
    rw [decodeFrom_of_start hfirst, decodeFrom_tail (by omega) hlow hhigh, if_neg (by simp),
      decodeFrom_tail (by omega) (by simp) (by simp; omega), if_neg (by simp),
      decodeFrom_tail (by omega) (by simp) (by simp; omega), if_pos (by simp), hvalue]

/-- **A text is read back from its bytes.** -/
theorem decodeLossy_utf8Bytes (cs : List Char) : decodeLossy (utf8Bytes cs) = cs := by
  induction cs with
  | nil => rfl
  | cons c cs ih =>
    rw [decodeLossy, utf8Bytes, List.flatMap_cons, decodeFrom_utf8EncodeChar]
    exact congrArg _ ih

/-! ## 3. How many characters bytes are read as -/

/-- How many characters what is unfinished comes to, at most. -/
def owed : Option Unfinished → Nat
  | none => 0
  | some _ => 1

@[simp] theorem owed_none : owed none = 0 := rfl

@[simp] theorem owed_some (u : Unfinished) : owed (some u) = 1 := rfl

/-- What is unfinished goes on with a continuing byte only. -/
def Continued (pending : Option Unfinished) : Prop :=
  ∀ u ∈ pending, 0x80 ≤ u.low ∧ u.high ≤ 0xBF

theorem continued_none : Continued none := fun _ h => by cases h

theorem continued_firstByte {b : UInt8} (h : firstByte b = .start u) : Continued (some u) := by
  intro w hw
  cases hw
  unfold firstByte at h
  split_ifs at h <;> cases h <;> simp

/-- The first byte of a character continues none. -/
theorem exists_cons_utf8EncodeChar (c : Char) :
    ∃ b rest, String.utf8EncodeChar c = b :: rest ∧ (b.toNat < 0x80 ∨ 0xBF < b.toNat) := by
  have hvalid : c.val.toNat < 0xD800 ∨ 0xDFFF < c.val.toNat ∧ c.val.toNat < 0x110000 := c.valid
  rw [String.utf8EncodeChar]
  split_ifs <;> refine ⟨_, _, rfl, ?_⟩ <;> rw [UInt8.toNat_ofNat'] <;> omega

/-- A byte is read as at most one character more than what was unfinished before it. -/
theorem exists_decodeFrom_cons {pending : Option Unfinished} (h : Continued pending) (b : UInt8) :
    ∃ read pending', Continued pending' ∧ read.length + owed pending' ≤ owed pending + 1 ∧
      ∀ bs, decodeFrom pending (b :: bs) = read ++ decodeFrom pending' bs := by
  have hfresh : ∃ read pending', Continued pending' ∧ read.length + owed pending' ≤ 1 ∧
      ∀ bs, decodeFrom none (b :: bs) = read ++ decodeFrom pending' bs := by
    cases hb : firstByte b with
    | single c =>
      refine ⟨[c], none, continued_none, by simp, fun bs => ?_⟩
      rw [decodeFrom, hb]
      rfl
    | start u =>
      exact ⟨[], some u, continued_firstByte hb, by simp, fun bs => decodeFrom_of_start hb⟩
    | invalid =>
      refine ⟨[replacement], none, continued_none, by simp, fun bs => ?_⟩
      rw [decodeFrom, hb]
      rfl
  cases pending with
  | none => exact hfresh
  | some u =>
    by_cases hrange : u.low ≤ b ∧ b ≤ u.high
    · by_cases hmissing : u.missing ≤ 1
      · refine ⟨[Char.ofNat (u.value * 0x40 + b.toNat % 0x40)], none, continued_none,
          by simp, fun bs => ?_⟩
        rw [decodeFrom_of_range hrange.1 hrange.2, if_pos hmissing]
        rfl
      · refine ⟨[], some ⟨u.missing - 1, 0x80, 0xBF, u.value * 0x40 + b.toNat % 0x40⟩, ?_,
          by simp, fun bs => ?_⟩
        · intro w hw
          cases hw
          simp
        · rw [decodeFrom_of_range hrange.1 hrange.2, if_neg hmissing]
          rfl
    · obtain ⟨read, pending', hpending', hlength, hread⟩ := hfresh
      refine ⟨replacement :: read, pending', hpending', ?_, fun bs => ?_⟩
      · rw [List.length_cons, owed_some]
        omega
      · rw [decodeFrom_of_not hrange, hread, List.cons_append]

/-- A character does not go on with what is unfinished before it. -/
theorem length_decodeFrom_utf8EncodeChar {pending : Option Unfinished} (h : Continued pending)
    (c : Char) : (decodeFrom pending (String.utf8EncodeChar c ++ bs)).length ≤
      owed pending + 1 + (decodeFrom none bs).length := by
  have hwhole : decodeFrom none (String.utf8EncodeChar c ++ bs) = c :: decodeFrom none bs :=
    decodeFrom_utf8EncodeChar c
  cases pending with
  | none =>
    rw [hwhole, List.length_cons, owed_none]
    omega
  | some u =>
    obtain ⟨b, rest, hbytes, hfirst⟩ := exists_cons_utf8EncodeChar c
    obtain ⟨hlow, hhigh⟩ := h u rfl
    have hrange : ¬(u.low ≤ b ∧ b ≤ u.high) := by
      simp only [UInt8.le_iff_toNat_le] at hlow hhigh ⊢
      simp at hlow hhigh
      omega
    rw [hbytes, List.cons_append] at hwhole ⊢
    rw [decodeFrom_of_not hrange, hwhole]
    simp only [List.length_cons, owed_some]
    omega

/-! ## 4. Percent signs -/

/-- A character is a percent sign, and what follows it begins with two hexadecimal digits. -/
def Escapes (c : Char) (cs : List Char) : Prop :=
  ∃ a b rest, c = '%' ∧ cs = a :: b :: rest ∧
    (hexDigit? a).isSome = true ∧ (hexDigit? b).isSome = true

/-- A percent sign stands before two hexadecimal digits. -/
def HasEscape (cs : List Char) : Prop :=
  ∃ before c after, cs = before ++ c :: after ∧ Escapes c after

theorem hasEscape_cons {c : Char} {cs : List Char} :
    HasEscape (c :: cs) ↔ Escapes c cs ∨ HasEscape cs := by
  constructor
  · rintro ⟨before, d, after, heq, h⟩
    cases before with
    | nil =>
      cases heq
      exact Or.inl h
    | cons e before =>
      cases heq
      exact Or.inr ⟨before, d, after, rfl, h⟩
  · rintro (h | ⟨before, d, after, rfl, h⟩)
    · exact ⟨[], c, cs, rfl, h⟩
    · exact ⟨c :: before, d, after, rfl, h⟩

theorem percentBytes_of_escapes {a b : Char} {rest : List Char} {x y : Nat}
    (ha : hexDigit? a = some x) (hb : hexDigit? b = some y) :
    percentBytes ('%' :: a :: b :: rest) = UInt8.ofNat (16 * x + y) :: percentBytes rest := by
  rw [percentBytes, ha, hb]

theorem percentBytes_of_not {c : Char} {cs : List Char} (h : ¬Escapes c cs) :
    percentBytes (c :: cs) = String.utf8EncodeChar c ++ percentBytes cs := by
  by_cases hc : ∃ a b rest, c = '%' ∧ cs = a :: b :: rest
  · obtain ⟨a, b, rest, rfl, rfl⟩ := hc
    rw [percentBytes]
    split
    · rename_i x y ha hb
      exact (h ⟨a, b, rest, rfl, rfl, by simp [ha], by simp [hb]⟩).elim
    · rfl
  · rw [percentBytes]
    intro a b rest heq htail
    exact hc ⟨a, b, rest, heq, htail⟩

/-- Texts are taken apart along the percent signs that stand for bytes. -/
theorem escapeInduction {motive : List Char → Prop} (nil : motive [])
    (escape : ∀ a b rest x y, hexDigit? a = some x → hexDigit? b = some y → motive rest →
      motive ('%' :: a :: b :: rest))
    (plain : ∀ c cs, ¬Escapes c cs → motive cs → motive (c :: cs)) (cs : List Char) :
    motive cs := by
  induction cs using percentBytes.induct with
  | case1 => exact nil
  | case2 a b rest x y hb ha ih => exact escape a b rest x y ha hb ih
  | case3 a b rest hno ih =>
    refine plain _ _ ?_ ih
    rintro ⟨_, _, _, -, heq, ha, hb⟩
    cases heq
    obtain ⟨x, hx⟩ := Option.isSome_iff_exists.mp ha
    obtain ⟨y, hy⟩ := Option.isSome_iff_exists.mp hb
    exact hno x y hx hy
  | case4 c cs hno ih =>
    refine plain _ _ ?_ ih
    rintro ⟨a, b, rest, hc, hcs, -⟩
    exact hno a b rest hc hcs

/-- Without such a sign, the bytes are those of the text itself. -/
theorem percentBytes_eq_utf8Bytes {cs : List Char} (h : ¬HasEscape cs) :
    percentBytes cs = utf8Bytes cs := by
  induction cs with
  | nil => rfl
  | cons c cs ih =>
    rw [hasEscape_cons, not_or] at h
    rw [percentBytes_of_not h.1, ih h.2, utf8Bytes, utf8Bytes, List.flatMap_cons]

/-- A text is not read as more characters than it has, and as at least two fewer if a percent
sign stands for a byte. -/
theorem length_decodeFrom_percentBytes (cs : List Char) :
    ∀ pending, Continued pending →
      (decodeFrom pending (percentBytes cs)).length ≤ owed pending + cs.length ∧
        (HasEscape cs →
          (decodeFrom pending (percentBytes cs)).length + 2 ≤ owed pending + cs.length) := by
  induction cs using escapeInduction with
  | nil =>
    intro pending _
    refine ⟨?_, ?_⟩
    · cases pending <;> simp [percentBytes, decodeFrom]
    · rintro ⟨before, c, after, heq, _⟩
      cases before <;> cases heq
  | escape a b rest x y ha hb ih =>
    intro pending hpending
    obtain ⟨read, pending', hpending', hlength, hread⟩ :=
      exists_decodeFrom_cons hpending (UInt8.ofNat (16 * x + y))
    have hrest := (ih pending' hpending').1
    rw [percentBytes_of_escapes ha hb, hread, List.length_append]
    simp only [List.length_cons]
    omega
  | plain c cs hplain ih =>
    intro pending hpending
    have hfirst : (decodeFrom pending (String.utf8EncodeChar c ++ percentBytes cs)).length ≤
        owed pending + 1 + (decodeFrom none (percentBytes cs)).length :=
      length_decodeFrom_utf8EncodeChar hpending c
    obtain ⟨hrest, hless⟩ := ih none continued_none
    rw [percentBytes_of_not hplain, hasEscape_cons]
    rw [owed_none, Nat.zero_add] at hrest hless
    rw [List.length_cons]
    refine ⟨by omega, fun hescape => ?_⟩
    have := hless (hescape.resolve_left hplain)
    omega

/-- **A text stands for itself just if no percent sign in it stands for a byte.** -/
theorem percentDecode_eq_self_iff {cs : List Char} : percentDecode cs = cs ↔ ¬HasEscape cs := by
  constructor
  · intro h hescape
    have hless := (length_decodeFrom_percentBytes cs none continued_none).2 hescape
    rw [← decodeLossy, ← percentDecode, h] at hless
    rw [owed_none] at hless
    omega
  · intro h
    rw [percentDecode, percentBytes_eq_utf8Bytes h, decodeLossy_utf8Bytes]

instance (cs : List Char) : Decidable (HasEscape cs) :=
  decidable_of_iff (¬percentDecode cs = cs) (not_iff_comm.mp percentDecode_eq_self_iff.symm)

end ApiTypes.Text
