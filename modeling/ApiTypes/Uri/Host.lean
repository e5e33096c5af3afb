/-
# Hosts

The host of an address is a domain name, an address of four or of sixteen bytes, or, for a
scheme this library knows nothing about, a text of its own.  Two spellings of one host read as
the same value: letters of a domain name fold to lower case, the numbers of a four-byte
address may be octal or hexadecimal and may be left out, and `::` stands for a run of zeros.

Domain names are read as far as ASCII goes.  A letter outside ASCII stands for itself, and so does
a label in Punycode: the tables that bring such names to one form are not here, and two spellings
of such a name are two hosts.  Whoever needs them to be one reads addresses in another way, which
`OwnAddress` takes as a part.

* `Host.special?` reads the host of a web address, `Host.plain?` of any other.
-/
import ApiTypes.Text.Basic
import ApiTypes.Text.Utf8

namespace ApiTypes

/-- The host of an address. -/
inductive Host where
  | domain (name : String)
  | ipv4 (address : Nat)
  | ipv6 (pieces : List Nat)
  deriving DecidableEq, Repr

namespace Host

/-! ## 1. Percent signs -/

/-- The three characters that stand for a byte. -/
def percentByte (b : UInt8) : List Char :=
  let digit (n : Nat) : Char := (("0123456789ABCDEF".toList)[n]?).getD '0'
  ['%', digit (b.toNat / 16), digit (b.toNat % 16)]

/-- Writes the bytes of every character outside ASCII, and of every character that `escaped`
names, with percent signs. -/
def percentEncode (escaped : Char → Bool) (cs : List Char) : List Char :=
  cs.flatMap fun c =>
    if c.toNat ≥ 0x7F || c.toNat < 0x20 || escaped c then
      (String.utf8EncodeChar c).flatMap percentByte
    else [c]

/-! ## 2. Four-byte addresses -/

/-- The value of a digit string in a base. -/
def digits? (base : Nat) (cs : List Char) : Option Nat :=
  cs.foldlM (fun n c => do
    let d ← Text.hexDigit? c
    if d < base then some (base * n + d) else none) 0

/-- A number of a four-byte address: hexadecimal after `0x`, octal after `0`, else decimal. -/
def ipv4Number? : List Char → Option Nat
  | [] => none
  | '0' :: 'x' :: cs => digits? 16 cs
  | '0' :: 'X' :: cs => digits? 16 cs
  | '0' :: c :: cs => digits? 8 (c :: cs)
  | cs => digits? 10 cs

/-- The dot-separated labels, without an empty one after a final dot. -/
def labels (cs : List Char) : List (List Char) :=
  let ls := Text.pieces '.' cs
  if ls.length > 1 && ls.getLast? = some [] then ls.dropLast else ls

/-- Whether the last label makes the name an attempt at an address. -/
def endsInNumber (cs : List Char) : Bool :=
  match (labels cs).getLast? with
  | none => false
  | some l =>
    l ≠ [] && (l.all Char.isDigit ||
      match l with
      | '0' :: c :: ds => (c = 'x' || c = 'X') && (digits? 16 ds).isSome
      | _ => false)

/-- The address that one to four numbers spell: all but the last are bytes, and the last fills
what is left. -/
def ipv4? (cs : List Char) : Option Nat := do
  let ls := labels cs
  if ls.length > 4 then none
  let ns ← ls.mapM ipv4Number?
  let last ← ns.getLast?
  let bytes := ns.dropLast
  if bytes.any (· > 255) || last ≥ Nat.pow 256 (5 - ns.length) then none
  return (bytes.foldl (fun n b => 256 * n + b) 0) * Nat.pow 256 (5 - ns.length) + last

/-! ## 3. Sixteen-byte addresses -/

/-- One group of up to four hexadecimal digits. -/
def ipv6Group? (cs : List Char) : Option Nat :=
  if cs = [] || cs.length > 4 then none else digits? 16 cs

/-- The two groups that four decimal bytes make. -/
def ipv6Tail? (cs : List Char) : Option (List Nat) := do
  let parts := Text.pieces '.' cs
  if parts.length ≠ 4 then none
  let bytes ← parts.mapM fun p =>
    if p = [] || !p.all Char.isDigit || (p.length > 1 && p.head? = some '0') then none
    else (digits? 10 p).bind fun n => if n > 255 then none else some n
  match bytes with
  | [a, b, c, d] => some [256 * a + b, 256 * c + d]
  | _ => none

/-- The groups between colons; the last may be four decimal bytes if `tail` allows it. -/
def ipv6Groups? (tail : Bool) (cs : List Char) : Option (List Nat) :=
  if cs = [] then some []
  else
    let parts := Text.pieces ':' cs
    let last := parts.getLast?.getD []
    if tail && last.contains '.' then do
      let front ← parts.dropLast.mapM ipv6Group?
      let back ← ipv6Tail? last
      return front ++ back
    else parts.mapM ipv6Group?

/-- Cuts at the first pair of colons. -/
def cutAtPair : List Char → List Char × Option (List Char)
  | ':' :: ':' :: rest => ([], some rest)
  | c :: cs => ((c :: (cutAtPair cs).1), (cutAtPair cs).2)
  | [] => ([], none)

/-- The eight groups of an address: all written out, or with one pair of colons for a run of
zeros. -/
def ipv6? (cs : List Char) : Option (List Nat) :=
  match cutAtPair cs with
  | (all, none) => (ipv6Groups? true all).bind fun gs => if gs.length = 8 then some gs else none
  | (front, some back) => do
    let fs ← ipv6Groups? false front
    let bs ← ipv6Groups? true back
    if fs.length + bs.length > 7 then none
    return fs ++ List.replicate (8 - fs.length - bs.length) 0 ++ bs

/-- The address between square brackets. -/
def bracketed? (cs : List Char) : Option Host :=
  if cs.getLast? = some ']' then (ipv6? (cs.drop 1).dropLast).map ipv6 else none

/-! ## 4. Reading a host -/

/-- Characters that no host contains. -/
def isForbidden (c : Char) : Bool :=
  c.toNat = 0 || "\t\n\r #/:<>?@[\\]^|".toList.contains c

/-- Characters that no domain name contains; the last one stands where bytes are no text. -/
def isForbiddenInDomain (c : Char) : Bool :=
  isForbidden c || c.toNat < 0x20 || c = '%' || c.toNat = 0x7F || c = Text.replacement

/-- The host of a web address. -/
def special? (cs : List Char) : Option Host :=
  if cs.head? = some '[' then bracketed? cs
  else
    let name := (Text.percentDecode cs).map Char.toLower
    if name = [] || name.any isForbiddenInDomain then none
    else if endsInNumber name then (ipv4? name).map ipv4
    else some (.domain (String.ofList name))

/-- The host of an address whose scheme gives hosts no structure. -/
def plain? (cs : List Char) : Option Host :=
  if cs.head? = some '[' then bracketed? cs
  else if cs.any isForbidden then none
  else some (.domain (String.ofList (percentEncode (fun _ => false) cs)))

end Host

end ApiTypes
