/-
# YAML text

A value is written in block layout: a line for each item or entry, nested collections two
columns further in, except that a sequence under a key starts at the column of the key.  A text
is plain where it reads back as the same text, and quoted otherwise; a text of several lines is
a literal block.

* `Value.written` writes a collection; `Value.keyText` is the text of a value as a key, which is
  the value's own text if it is no collection.
-/
import ApiTypes.Decimal.Shortest
import ApiTypes.Text.Basic
import ApiTypes.Yaml.Cursor
import ApiTypes.Yaml.Resolve

namespace ApiTypes.Yaml

/-! ## 1. Numbers -/

/-- Doubles are written in place from `1e-5` up to `1e16`, and without a plus sign beyond. -/
def Number.form : DecimalForm := ⟨-5, 15, false⟩

/-- The text of a number. -/
def Number.written : Number → String
  | .int value => toString value
  | .float value => value.written form
  | .infinite negative => if negative then "-.inf" else ".inf"
  | .nan => ".nan"

/-! ## 2. How a text can be written -/

namespace TextStyle

/-- The characters that need no escape. -/
def isPrintable (c : Char) : Bool :=
  let n := c.toNat
  n = 0xA || (0x20 ≤ n && n ≤ 0x7E) || (0xA0 ≤ n && n ≤ 0xD7FF)
    || (0xE000 ≤ n && n ≤ 0xFFFD && n ≠ 0xFEFF)

/-- The marks that a plain text cannot start with. -/
def startMarks : List Char :=
  ['#', ',', '[', ']', '{', '}', '&', '*', '!', '|', '>', '\'', '"', '%', '@', '\x60']

/-- Whether a mark at the front of a text keeps it from being plain. -/
def marksStart : List Char → Bool
  | '-' :: '-' :: '-' :: _ => true
  | '.' :: '.' :: '.' :: _ => true
  | c :: rest => startMarks.contains c || (['?', ':', '-'].contains c && endsWord rest)
  | [] => false

/-- Whether a mark after the first character of a text keeps it from being plain. -/
def marksInside : List Char → Bool
  | a :: b :: rest =>
    (b = ':' && endsWord rest) || (b = '#' && (isBlank a || isBreak a)) || marksInside (b :: rest)
  | _ => false

/-- Whether two characters of two kinds follow each other in a text. -/
def hasPair (p q : Char → Bool) : List Char → Bool
  | a :: b :: rest => (p a && q b) || hasPair p q (b :: rest)
  | _ => false

/-- Whether blanks before line breaks, or characters without a form, call for escapes. -/
def needsEscapes (cs : List Char) : Bool :=
  cs.any (!isPrintable ·) || hasPair (· = ' ') isBreak cs

/-- Whether a text that is not empty can be plain. -/
def canBePlain (cs : List Char) : Bool :=
  cs.head? ≠ some ' ' && cs.getLast? ≠ some ' ' && !cs.any isBreak && !needsEscapes cs
    && !marksStart cs && !marksInside cs

/-- Whether a text can stand between single quotes. -/
def canBeSingle (cs : List Char) : Bool := !needsEscapes cs && !hasPair isBreak (· = ' ') cs

/-- Whether a text can be a literal block. -/
def canBeLiteral (cs : List Char) : Bool := !needsEscapes cs && cs.getLast? ≠ some ' '

/-- The words that some readers take for truth values. -/
def cautionWords : List String :=
  ["y", "Y", "yes", "Yes", "YES", "n", "N", "no", "No", "NO", "on", "On", "ON", "off", "Off",
    "OFF"]

/-- Whether a plain text would read as something else than the text. -/
def isAmbiguous (text : String) : Bool :=
  cautionWords.contains text || Resolve.isPadded text.toList ||
    match Resolve.plain text with
    | .ok (.string _) => false
    | .ok _ => true
    | .error _ => false

end TextStyle

/-! ## 3. Scalars -/

namespace Printer

open TextStyle

/-- Spaces up to a column. -/
def spaces (count : Nat) : List Char := List.replicate count ' '

/-- A hexadecimal digit, in upper case. -/
def upperHex (n : Nat) : Char := (Text.hexChar n).toUpper

/-- The hexadecimal digits of a number, the given number of them. -/
def hexDigits (n : Nat) : Nat → List Char
  | 0 => []
  | count + 1 => hexDigits (n / 16) count ++ [upperHex n]

/-- A character between double quotes. -/
def escape (c : Char) : List Char :=
  let n := c.toNat
  match [(0, '0'), (7, 'a'), (8, 'b'), (9, 't'), (0xA, 'n'), (0xB, 'v'), (0xC, 'f'), (0xD, 'r'),
      (0x1B, 'e'), (0x22, '"'), (0x5C, '\\'), (0x85, 'N'), (0x2028, 'L'),
      (0x2029, 'P')].lookup n with
  | some letter => ['\\', letter]
  | none =>
    if isPrintable c then [c]
    else if n ≤ 0xFF then '\\' :: 'x' :: hexDigits n 2
    else if n ≤ 0xFFFF then '\\' :: 'u' :: hexDigits n 4
    else '\\' :: 'U' :: hexDigits n 8

/-- A text between double quotes. -/
def doubleQuoted (cs : List Char) : List Char := '"' :: cs.flatMap escape ++ ['"']

/-- Characters with the column restored after each run of line breaks. -/
def restored (indent : Nat) : Bool → List Char → List Char
  | broken, [] => if broken then spaces indent else []
  | broken, c :: cs =>
    if isBreak c then c :: restored indent true cs
    else (if broken then spaces indent else []) ++ (c :: restored indent false cs)

/-- A text between single quotes, on a line of a column. -/
def singleQuoted (indent : Nat) (cs : List Char) : List Char :=
  '\'' :: restored indent false (cs.flatMap fun c => if c = '\'' then ['\'', '\''] else [c])
    ++ ['\'']

/-- The header of a literal block. -/
def literalHeader (cs : List Char) : List Char :=
  let hint := if (cs.head?.map fun c => c = ' ' || isBreak c).getD false then ['2'] else []
  let chomping := match cs.reverse with
    | [] => ['-']
    | [c] => if isBreak c then ['+'] else ['-']
    | c :: d :: _ => if !isBreak c then ['-'] else if isBreak d then ['+'] else []
  '|' :: hint ++ chomping

/-- The lines of a literal block. -/
def literalLines (indent : Nat) (cs : List Char) : List (List Char) :=
  let lines := Text.pieces '\n' cs
  let lines := if lines.getLast? = some [] then lines.dropLast else lines
  literalHeader cs :: lines.map (restored indent false)

/-- The lines of a text that is written after a mark at a column; a key stands on one line. -/
def textLines (indent : Nat) (isKey : Bool) (s : String) : List (List Char) :=
  let cs := s.toList
  if cs.contains '\n' then
    if canBeLiteral cs && !isKey then literalLines indent cs else [doubleQuoted cs]
  else if !isAmbiguous s && canBePlain cs then [cs]
  else if canBeSingle cs then [singleQuoted indent cs]
  else [doubleQuoted cs]

/-- The lines of a value that is no collection. -/
def scalarLines (indent : Nat) (isKey : Bool) : Value → List (List Char)
  | .null => ["null".toList]
  | .bool b => [(if b then "true" else "false").toList]
  | .number n => [n.written.toList]
  | .string s => textLines indent isKey s
  | .sequence _ => ["[]".toList]
  | .mapping _ => ["{}".toList]
  | .tagged _ _ => []

/-! ## 4. Collections -/

/-- Puts a mark before the first of some lines, and as many spaces before the others. -/
def hang (mark : List Char) (lines : List (List Char)) : List (List Char) :=
  match lines with
  | [] => [mark]
  | first :: rest =>
    (mark ++ first) :: rest.map fun line => if line = [] then [] else spaces 2 ++ line

/-- How a value is laid out. -/
inductive Layout where
  | scalar
  | sequence
  | mapping
  deriving DecidableEq, Repr

/-- The layout of a value; empty collections are written like scalars. -/
def layout : Value → Layout
  | .sequence items => if items.isEmpty then .scalar else .sequence
  | .mapping entries => if entries.isEmpty then .scalar else .mapping
  | .tagged _ v => layout v
  | _ => .scalar

/-- Whether a value fits before a colon: it is short, and on one line. -/
def isSimpleKey (v : Value) : Bool :=
  layout v = .scalar &&
    match v with
    | .string s => s.utf8ByteSize ≤ 128 && !s.toList.any isBreak
    | .tagged tag (.string s) => tag.utf8ByteSize + s.utf8ByteSize ≤ 128 && !s.toList.any isBreak
    | _ => true

/-- The lines of the value of a key, given the lines of the value by itself. -/
def valueLines (key : List Char) (v : Value) (lines : List (List Char)) : List (List Char) :=
  let mark := key ++ [':']
  match layout v, v with
  | .scalar, _ => hang (mark ++ [' ']) lines
  | .sequence, .tagged _ _ => (mark ++ ' ' :: lines.headD []) :: lines.drop 1
  | .sequence, _ => mark :: lines
  | .mapping, .tagged _ _ => hang (mark ++ [' ']) lines
  | .mapping, _ => hang mark ([] :: lines)

mutual
/-- The lines of a value that is written after a mark at a column. -/
def lines (indent : Nat) (isKey : Bool) : Value → List (List Char)
  | .sequence items =>
    if items.isEmpty then ["[]".toList] else itemLines indent items
  | .mapping entries =>
    if entries.isEmpty then ["{}".toList] else entryLines indent entries
  | .tagged tag v =>
    let inner := lines indent isKey v
    match layout v with
    | .scalar => (tag.toList ++ ' ' :: inner.headD []) :: inner.drop 1
    | _ => tag.toList :: inner
  | v => scalarLines indent isKey v

/-- The lines of the items of a sequence. -/
def itemLines (indent : Nat) : List Value → List (List Char)
  | [] => []
  | v :: rest => hang ['-', ' '] (lines (indent + 2) false v) ++ itemLines indent rest

/-- The lines of the entries of a mapping. -/
def entryLines (indent : Nat) : List (Value × Value) → List (List Char)
  | [] => []
  | (k, v) :: rest =>
    (if isSimpleKey k then
        let inner := if layout v = .sequence then indent else indent + 2
        valueLines ((lines indent true k).headD []) v (lines inner false v)
      else
        hang ['?', ' '] (lines (indent + 2) false k)
          ++ hang [':', ' '] (lines (indent + 2) false v))
      ++ entryLines indent rest
end

end Printer

/-! ## 5. Keys -/

namespace Value

/-- The text of a collection, without white space at its end. -/
def written (v : Value) : String :=
  Text.trimEnd (Text.join "\n" ((Printer.lines 0 false v).map String.ofList))

/-- The text of a value as the key of an object. -/
def keyText : Value → String
  | .string s => s
  | .number n => n.written
  | .bool b => if b then "true" else "false"
  | .null => "null"
  | .tagged _ v => keyText v
  | .sequence items => written (.sequence items)
  | .mapping entries => written (.mapping entries)

end Value

end ApiTypes.Yaml
