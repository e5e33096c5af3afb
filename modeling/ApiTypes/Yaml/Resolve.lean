/-
# The values of scalars

A plain scalar without a tag is null, a truth value or a number if it is spelled like one, and
a text otherwise.  The core tags ask for a value of one kind; any other tag makes a scalar a
text, except that a tag of one's own, which starts with an exclamation mark, stays with the
value.

* `Resolve.plain` resolves a plain scalar, `Resolve.scalar` any scalar.
-/
import ApiTypes.Decimal.Numeral
import ApiTypes.Text.Utf8
import ApiTypes.Yaml.Error
import ApiTypes.Yaml.Value

namespace ApiTypes.Yaml.Resolve

/-! ## 1. Words -/

/-- Whether a text is a word for null. -/
def isNull (text : String) : Bool := ["null", "Null", "NULL", "~"].contains text

/-- The truth value that a word stands for. -/
def bool? (text : String) : Option Bool :=
  if ["true", "True", "TRUE"].contains text then some true
  else if ["false", "False", "FALSE"].contains text then some false
  else none

/-! ## 2. Numbers -/

/-- The text after a plus sign, if one stands in front. -/
def withoutPlus : List Char → List Char
  | '+' :: cs => cs
  | cs => cs

/-- The text after a sign, if one stands in front. -/
def withoutSign : List Char → List Char
  | '+' :: cs => cs
  | '-' :: cs => cs
  | cs => cs

/-- Whether a text is made of digits after a zero, which is no way to write a number. -/
def isPadded (cs : List Char) : Bool :=
  match withoutSign cs with
  | '0' :: rest => rest ≠ [] && rest.all Char.isDigit
  | _ => false

/-- The value of the digits of a radix. -/
def digits? (radix : Nat) (cs : List Char) : Option Nat :=
  if cs = [] then none
  else cs.foldlM (fun n c =>
    match Text.hexDigit? c with
    | some d => if d < radix then some (radix * n + d) else none
    | none => none) 0

/-- The size of an integer without a sign: decimal, or in the radix that its front names. -/
def magnitude? (decimal : Bool) : List Char → Option Nat
  | '0' :: 'x' :: cs => digits? 16 cs
  | '0' :: 'o' :: cs => digits? 8 cs
  | '0' :: 'b' :: cs => digits? 2 cs
  | cs => if decimal then digits? 10 cs else none

/-- An integer as it is spelled: its sign and its size. -/
def integer? (cs : List Char) : Option (Bool × Nat) :=
  match cs with
  | '-' :: rest => (magnitude? (!isPadded cs) rest).map (true, ·)
  | _ => (magnitude? (!isPadded cs) (withoutPlus cs)).map (false, ·)

/-- What an integer reads as: one of 64 bits is a number, and one of 128 bits an error; what is
greater is none. -/
inductive IntegerReading where
  | number (value : Int)
  | tooLarge
  | none
  deriving DecidableEq, Repr

/-- Reads an integer. -/
def readInteger (cs : List Char) : IntegerReading :=
  match integer? cs with
  | some (false, n) =>
    if n < Nat.pow 2 64 then .number n else if n < Nat.pow 2 128 then .tooLarge else .none
  | some (true, n) =>
    if n ≤ Nat.pow 2 63 then .number (-(n : Int))
    else if n ≤ Nat.pow 2 127 then .tooLarge
    else .none
  | none => .none

/-- The double that a text spells; a decimal beyond the largest is none. -/
def float? (cs : List Char) : Option Number :=
  let unsigned := withoutPlus cs
  let text := String.ofList unsigned
  if cs ≠ unsigned && withoutSign unsigned ≠ unsigned then none
  else if [".inf", ".Inf", ".INF"].contains text then some (.infinite false)
  else if ["-.inf", "-.Inf", "-.INF"].contains text then some (.infinite true)
  else if cs = unsigned && [".nan", ".NaN", ".NAN"].contains text then some .nan
  else ((Numeral.read? unsigned).bind Numeral.toBinary64?).map .float

/-! ## 3. Scalars -/

/-- The value of a plain scalar. -/
def plain (text : String) : Except Error Value :=
  let cs := text.toList
  if text = "" || isNull text then .ok .null
  else
    match bool? text with
    | some b => .ok (.bool b)
    | none =>
      match readInteger cs with
      | .number i => .ok (.number (.int i))
      | .tooLarge => .error (.unexpected "an integer of 64 bits")
      | .none =>
        match if isPadded cs then none else float? cs with
        | some x => .ok (.number x)
        | none => .ok (.string text)

/-- The value of a scalar without a tag. -/
def untagged (isPlain : Bool) (text : String) : Except Error Value :=
  if isPlain then plain text else .ok (.string text)

/-- The value, or what was expected in its place. -/
def orExpected {α : Type} (expected : String) : Option α → Except Error α
  | some a => .ok a
  | none => .error (.unexpected expected)

/-- A core tag in full. -/
def coreTag (name : String) : String := "tag:yaml.org,2002:" ++ name

/-- Whether a tag is one of the document's own. -/
def isOwnTag (tag : String) : Bool := tag.toList.head? = some '!'

/-- The value of a scalar. -/
def scalar (tag : Option String) (isPlain : Bool) (text : String) : Except Error Value :=
  match tag with
  | none => untagged isPlain text
  | some tag =>
    if isOwnTag tag then do return .tagged tag (← untagged isPlain text)
    else if tag = coreTag "bool" then
      (orExpected "a boolean" (bool? text)).map .bool
    else if tag = coreTag "int" then
      match readInteger text.toList with
      | .number i => .ok (.number (.int i))
      | _ => .error (.unexpected "an integer")
    else if tag = coreTag "float" then
      (orExpected "a float" (float? text.toList)).map .number
    else if tag = coreTag "null" then
      if isNull text then .ok .null else .error (.unexpected "null")
    else .ok (.string text)

end ApiTypes.Yaml.Resolve
