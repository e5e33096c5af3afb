/-
# Reading JSON text

A recursive descent over the characters.  Every call takes at least one character, so the
length of the text bounds the calls; the depth of nesting is bounded by the caller.

* `Json.read?` reads a whole text, absent when it is not one JSON value.
-/
import ApiTypes.Decimal.Scaled
import ApiTypes.Json.Basic
import ApiTypes.Text.Utf8

namespace ApiTypes.Json

/-! ## 1. Blanks, numbers, strings -/

/-- The white space that may stand between tokens. -/
def isSpace (c : Char) : Bool := c = ' ' || c = '\n' || c = '\t' || c = '\r'

/-- The text after the white space at its front. -/
def skipSpace (cs : List Char) : List Char := cs.dropWhile isSpace

/-- The exponent at the front of a text: `e`, an optional sign, digits. -/
def exponentPart? : List Char → Option (Int × List Char)
  | c :: rest =>
    if c = 'e' || c = 'E' then
      let (negative, rest) := match rest with
        | '-' :: r => (true, r)
        | '+' :: r => (false, r)
        | r => (false, r)
      let (ds, rest) := spanDigits rest
      if ds = [] then none
      else some (if negative then -(digitsValue ds : Int) else digitsValue ds, rest)
    else some (0, c :: rest)
  | [] => some (0, [])

/-- The number at the front of a text whose sign is read.  A literal without fraction and
exponent is an integer if it fits 64 bits, except that minus zero is the double. -/
def unsignedNumber? (negative : Bool) (cs : List Char) : Option (Json × List Char) := do
  let (whole, rest) := spanDigits cs
  if whole = [] || (whole.length > 1 && whole.head? = some '0') then none
  let (fraction, rest, pointed) := match rest with
    | '.' :: r => ((spanDigits r).1, (spanDigits r).2, true)
    | r => ([], r, false)
  if pointed && fraction = [] then none
  let hasExponent := match rest with
    | c :: _ => c = 'e' || c = 'E'
    | [] => false
  let (e, rest) ← exponentPart? rest
  let n := digitsValue whole
  let value : Int := if negative then -(n : Int) else n
  if !pointed && !hasExponent && JsonNumber.isInteger value && !(negative && n = 0) then
    some (number (.int value), rest)
  else
    let x ← Scaled.toBinary64? negative whole fraction e
    some (number (.float x), rest)

/-- The value of four hexadecimal digits. -/
def hex4? (a b c d : Char) : Option Nat := do
  let a ← Text.hexDigit? a
  let b ← Text.hexDigit? b
  let c ← Text.hexDigit? c
  let d ← Text.hexDigit? d
  return ((a * 16 + b) * 16 + c) * 16 + d

/-- The characters up to the closing quotation mark, and what follows it.  Two escaped
surrogates make one character; a lone one makes none. -/
def stringBody (acc : List Char) : List Char → Option (String × List Char)
  | [] => none
  | c :: cs =>
    if c = '"' then some (String.ofList acc.reverse, cs)
    else if c = '\\' then
      match cs with
      | '"' :: r => stringBody ('"' :: acc) r
      | '\\' :: r => stringBody ('\\' :: acc) r
      | '/' :: r => stringBody ('/' :: acc) r
      | 'b' :: r => stringBody ('\x08' :: acc) r
      | 'f' :: r => stringBody ('\x0c' :: acc) r
      | 'n' :: r => stringBody ('\n' :: acc) r
      | 'r' :: r => stringBody ('\r' :: acc) r
      | 't' :: r => stringBody ('\t' :: acc) r
      | 'u' :: a :: b :: c :: d :: r =>
        match hex4? a b c d with
        | none => none
        | some n =>
          if n < 0xD800 || 0xE000 ≤ n then stringBody (Char.ofNat n :: acc) r
          else if 0xDC00 ≤ n then none
          else match r with
            | '\\' :: 'u' :: a :: b :: c :: d :: r =>
              match hex4? a b c d with
              | none => none
              | some m =>
                if 0xDC00 ≤ m && m < 0xE000 then
                  stringBody (Char.ofNat (0x10000 + (n - 0xD800) * 0x400 + (m - 0xDC00)) :: acc) r
                else none
            | _ => none
      | _ => none
    else if c.toNat < 0x20 then none
    else stringBody (c :: acc) cs

/-! ## 2. Values -/

/-- The word at the front of a text, and what follows it. -/
def word? (word : String) (value : Json) (cs : List Char) : Option (Json × List Char) :=
  if word.toList.isPrefixOf cs then some (value, cs.drop word.length) else none

mutual
/-- The value at the front of a text, nested at most `depth` deep. -/
def value? : Nat → Nat → List Char → Option (Json × List Char)
  | 0, _, _ => none
  | fuel + 1, depth, cs =>
    match skipSpace cs with
    | '"' :: r => (stringBody [] r).map fun (s, r) => (string s, r)
    | '-' :: r => unsignedNumber? true r
    | 'n' :: r => word? "null" null ('n' :: r)
    | 't' :: r => word? "true" (bool true) ('t' :: r)
    | 'f' :: r => word? "false" (bool false) ('f' :: r)
    | '[' :: r =>
      if depth = 0 then none
      else match skipSpace r with
        | ']' :: r => some (array [], r)
        | r => items? fuel (depth - 1) [] r
    | '{' :: r =>
      if depth = 0 then none
      else match skipSpace r with
        | '}' :: r => some (object [], r)
        | r => fields? fuel (depth - 1) [] r
    | r => unsignedNumber? false r

/-- The items up to the closing bracket, after those already read. -/
def items? : Nat → Nat → List Json → List Char → Option (Json × List Char)
  | 0, _, _, _ => none
  | fuel + 1, depth, acc, cs =>
    match value? fuel depth cs with
    | none => none
    | some (v, r) =>
      match skipSpace r with
      | ',' :: r => items? fuel depth (v :: acc) r
      | ']' :: r => some (array (v :: acc).reverse, r)
      | _ => none

/-- The fields up to the closing brace, after those already read. -/
def fields? : Nat → Nat → List (String × Json) → List Char → Option (Json × List Char)
  | 0, _, _, _ => none
  | fuel + 1, depth, acc, cs =>
    match skipSpace cs with
    | '"' :: r =>
      match stringBody [] r with
      | none => none
      | some (key, r) =>
        match skipSpace r with
        | ':' :: r =>
          match value? fuel depth r with
          | none => none
          | some (v, r) =>
            match skipSpace r with
            | ',' :: r => fields? fuel depth (setField key v acc) r
            | '}' :: r => some (object (setField key v acc), r)
            | _ => none
        | _ => none
    | _ => none
end

/-- The value that a text spells, if it spells one nested at most `depth` deep. -/
def read? (depth : Nat) (text : String) : Option Json :=
  let cs := text.toList
  match value? (cs.length + 1) depth cs with
  | some (v, r) => if skipSpace r = [] then some v else none
  | none => none

end ApiTypes.Json
