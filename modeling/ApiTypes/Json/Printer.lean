/-
# JSON text

Two layouts of one format.  The compact text has no white space at all; the indented text has
one item or field a line, two spaces deeper than its container.

* `JsonNumber.form` is the form of doubles: digits in place from 0.00001 up to 10 ^ 16, and a
  sign on every exponent elsewhere.
* `Json.compact` and `Json.indented` write a value.
-/
import ApiTypes.Json.Basic
import ApiTypes.Text.Basic

namespace ApiTypes

namespace JsonNumber

/-- Doubles are written in place from `1e-5` up to `1e16`, and with a signed exponent beyond. -/
def form : DecimalForm := ⟨-5, 15, true⟩

/-- The text of a number. -/
def written : JsonNumber → String
  | int value => toString value
  | float value => value.written form

end JsonNumber

namespace Json

/-! ## 1. Compact text -/

mutual
/-- A value without white space. -/
def compact : Json → String
  | null => "null"
  | bool true => "true"
  | bool false => "false"
  | number n => n.written
  | string s => Text.quote s
  | array xs => "[" ++ Text.join "," (compactItems xs) ++ "]"
  | object fs => "\x7b" ++ Text.join "," (compactFields fs) ++ "\x7d"

/-- The texts of the items. -/
def compactItems : List Json → List String
  | [] => []
  | x :: xs => compact x :: compactItems xs

/-- The texts of the fields. -/
def compactFields : List (String × Json) → List String
  | [] => []
  | (k, v) :: rest => (Text.quote k ++ ":" ++ compact v) :: compactFields rest
end

/-! ## 2. Indented text -/

/-- The line break before a line at the given level. -/
def lineBreak (level : Nat) : String := "\n" ++ String.ofList (List.replicate (2 * level) ' ')

/-- A bracketed list of parts, each on its own line; nothing stands between empty brackets. -/
def bracketed (opening closing : String) (level : Nat) (parts : List String) : String :=
  if parts.isEmpty then opening ++ closing
  else
    opening ++ lineBreak (level + 1) ++ Text.join ("," ++ lineBreak (level + 1)) parts
      ++ lineBreak level ++ closing

mutual
/-- A value with one item or field a line, inside a container at the given level. -/
def indentedAt (level : Nat) : Json → String
  | array xs => bracketed "[" "]" level (indentedItems (level + 1) xs)
  | object fs => bracketed "\x7b" "\x7d" level (indentedFields (level + 1) fs)
  | null => "null"
  | bool true => "true"
  | bool false => "false"
  | number n => n.written
  | string s => Text.quote s

/-- The texts of the items. -/
def indentedItems (level : Nat) : List Json → List String
  | [] => []
  | x :: xs => indentedAt level x :: indentedItems level xs

/-- The texts of the fields. -/
def indentedFields (level : Nat) : List (String × Json) → List String
  | [] => []
  | (k, v) :: rest => (Text.quote k ++ ": " ++ indentedAt level v) :: indentedFields level rest
end

/-- A value with one item or field a line. -/
def indented (v : Json) : String := indentedAt 0 v

end Json

end ApiTypes
