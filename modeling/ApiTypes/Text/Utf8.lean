/-
# Reading bytes as UTF-8 text

Every byte sequence reads as a text: a sequence that no character has is replaced by U+FFFD,
one replacement for each longest start of a character that cannot be continued.

* `Text.utf8Bytes` writes a text as bytes, `Text.decodeLossy` reads bytes.
* `Text.percentDecode` reads a text in which `%` and two hexadecimal digits stand for a byte.
-/
namespace ApiTypes.Text

/-! ## 1. Characters from bytes -/

/-- The bytes of a text. -/
def utf8Bytes (cs : List Char) : List UInt8 := cs.flatMap String.utf8EncodeChar

/-- U+FFFD, which stands for bytes that are no character. -/
def replacement : Char := Char.ofNat 0xFFFD

/-- A character whose first bytes are read: how many are missing, the range of the next one,
and the value so far. -/
structure Unfinished where
  missing : Nat
  low : UInt8
  high : UInt8
  value : Nat

/-- What a first byte says: a character of its own, the start of a longer one, or neither. -/
inductive FirstByte where
  | single (c : Char)
  | start (u : Unfinished)
  | invalid

/-- Classifies the first byte of a character. -/
def firstByte (b : UInt8) : FirstByte :=
  if b < 0x80 then .single (Char.ofNat b.toNat)
  else if 0xC2 ≤ b && b ≤ 0xDF then .start ⟨1, 0x80, 0xBF, b.toNat % 0x20⟩
  else if b = 0xE0 then .start ⟨2, 0xA0, 0xBF, 0⟩
  else if b = 0xED then .start ⟨2, 0x80, 0x9F, 0xD⟩
  else if 0xE1 ≤ b && b ≤ 0xEF then .start ⟨2, 0x80, 0xBF, b.toNat % 0x10⟩
  else if b = 0xF0 then .start ⟨3, 0x90, 0xBF, 0⟩
  else if 0xF1 ≤ b && b ≤ 0xF3 then .start ⟨3, 0x80, 0xBF, b.toNat % 8⟩
  else if b = 0xF4 then .start ⟨3, 0x80, 0x8F, 4⟩
  else .invalid

/-- Reads the bytes that follow an unfinished character, if there is one. -/
def decodeFrom : Option Unfinished → List UInt8 → List Char
  | none, [] => []
  | some _, [] => [replacement]
  | pending, b :: bs =>
    let fresh := match firstByte b with
      | .single c => c :: decodeFrom none bs
      | .start u => decodeFrom (some u) bs
      | .invalid => replacement :: decodeFrom none bs
    match pending with
    | none => fresh
    | some u =>
      if u.low ≤ b && b ≤ u.high then
        let value := u.value * 0x40 + b.toNat % 0x40
        if u.missing ≤ 1 then Char.ofNat value :: decodeFrom none bs
        else decodeFrom (some ⟨u.missing - 1, 0x80, 0xBF, value⟩) bs
      else replacement :: fresh

/-- The text that bytes spell, with replacements where they spell none. -/
def decodeLossy (bytes : List UInt8) : List Char := decodeFrom none bytes

/-! ## 2. Percent signs -/

/-- The value of a hexadecimal digit. -/
def hexDigit? (c : Char) : Option Nat :=
  if '0' ≤ c && c ≤ '9' then some (c.toNat - '0'.toNat)
  else if 'a' ≤ c && c ≤ 'f' then some (c.toNat - 'a'.toNat + 10)
  else if 'A' ≤ c && c ≤ 'F' then some (c.toNat - 'A'.toNat + 10)
  else none

/-- The bytes of a text in which a percent sign before two hexadecimal digits stands for the
byte they spell; any other percent sign stands for itself. -/
def percentBytes : List Char → List UInt8
  | [] => []
  | c :: cs =>
    match c, cs with
    | '%', a :: b :: rest =>
      match hexDigit? a, hexDigit? b with
      | some x, some y => UInt8.ofNat (16 * x + y) :: percentBytes rest
      | _, _ => String.utf8EncodeChar '%' ++ percentBytes (a :: b :: rest)
    | c, cs => String.utf8EncodeChar c ++ percentBytes cs

/-- The text that percent-encoded text stands for. -/
def percentDecode (cs : List Char) : List Char := decodeLossy (percentBytes cs)

end ApiTypes.Text
