/-
# Names in generated text

* `Naming.propertyKey` writes the name of a member: bare if it is an identifier, quoted
  otherwise.
* `Naming.fileStem` makes the name of a file out of any text; `Naming.fileStemChars_ne_nil` says
  that it is never empty.
* `Naming.distinctNames` numbers names that repeat.
-/
import ApiTypes.Text.Basic

namespace ApiTypes.Naming

/-- Whether a name can start with a character. -/
def isIdentifierStart (c : Char) : Bool := c.isAlpha || c = '_' || c = '$'

/-- Whether a name can stand as a member without quotation marks. -/
def isIdentifier (name : String) : Bool :=
  match name.toList with
  | [] => false
  | c :: cs => isIdentifierStart c && cs.all fun c => isIdentifierStart c || c.isDigit

/-- The name of a member as it is written. -/
def propertyKey (name : String) : String :=
  if isIdentifier name then name else Text.quote name

/-- Whether a character can stand in the name of a file. -/
def isFileChar (c : Char) : Bool := c.isAlphanum || c = '-' || c = '_' || c = '.'

/-- The characters of a file name: what cannot stand in one is an underscore, and so is a name
of no characters, or of dots alone. -/
def fileStemChars (cs : List Char) : List Char :=
  let kept := cs.map fun c => if isFileChar c then c else '_'
  if kept.all (· = '.') then ['_'] else kept

/-- The file name of a text. -/
def fileStem (name : String) : String := String.ofList (fileStemChars name.toList)

theorem fileStemChars_ne_nil (cs : List Char) : fileStemChars cs ≠ [] := by
  cases cs with
  | nil => decide
  | cons c cs =>
    simp only [fileStemChars]
    split <;> simp

/-- A name with a number behind it; the first of a series is the name itself. -/
def numbered (base : String) (n : Nat) : String :=
  if n ≤ 1 then base else base ++ "_" ++ toString n

/-- The first name of a series from a number on that is not taken, among some tries. -/
def firstFree (taken : List String) (base : String) : Nat → Nat → String
  | 0, n => numbered base n
  | tries + 1, n =>
    if taken.contains (numbered base n) then firstFree taken base tries (n + 1) else numbered base n

/-- The name itself, or else its first numbered form that is not taken.  The forms differ, so
one more of them than there are taken names is enough. -/
def freeName (taken : List String) (base : String) : String := firstFree taken base taken.length 1

/-- Numbers the names of a list that are taken, or that repeat an earlier one. -/
def distinctFrom (taken : List String) : List String → List String
  | [] => []
  | base :: rest => freeName taken base :: distinctFrom (freeName taken base :: taken) rest

/-- Numbers the names of a list that repeat an earlier one. -/
def distinctNames (names : List String) : List String := distinctFrom [] names

end ApiTypes.Naming
