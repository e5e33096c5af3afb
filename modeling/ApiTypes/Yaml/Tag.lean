/-
# Tags and directives in a YAML text

A tag is written in full between angle brackets, or as a handle and a suffix.  Handles are
declared by directives, which stand before a document.

* `Tag.scan` reads a tag, `Tag.resolve?` puts the meaning of its handle in front.
* `Directive.scan` reads a directive.
-/
import ApiTypes.Text.Utf8
import ApiTypes.Yaml.Cursor

namespace ApiTypes.Yaml

/-! ## 1. Tags -/

/-- A tag as it is written; a tag in full has no handle. -/
structure Tag where
  handle : String
  suffix : String
  deriving DecidableEq, Repr

namespace Tag

/-- The characters of a tag that stand for themselves. -/
def isUriChar (c : Char) : Bool :=
  isNameChar c || [';', '/', '?', ':', '@', '&', '=', '+', '$', '.', '!', '~', '*', '\'', '(',
    ')'].contains c

/-- The characters that only a tag between angle brackets or a directive can hold. -/
def isVerbatimChar (c : Char) : Bool := c = ',' || c = '[' || c = ']'

/-- How many bytes follow the first byte of a character. -/
def furtherBytes? (b : Nat) : Option Nat :=
  if b < 0x80 then some 0
  else if 0xC0 ≤ b && b < 0xE0 then some 1
  else if 0xE0 ≤ b && b < 0xF0 then some 2
  else if 0xF0 ≤ b && b < 0xF8 then some 3
  else none

/-- The byte that a percent sign and two digits at the front of a text stand for. -/
def percentByte? : List Char → Option UInt8
  | '%' :: a :: b :: _ => do
    return UInt8.ofNat (16 * (← Text.hexDigit? a) + (← Text.hexDigit? b))
  | _ => none

/-- Reads the bytes of a character after its first one. -/
def trailing? : Nat → List Char → Option (List UInt8)
  | 0, _ => some []
  | count + 1, cs => do
    let b ← percentByte? cs
    if b.toNat / 64 = 2 then return b :: (← trailing? count (cs.drop 3)) else none

/-- The bytes of the character that percent signs at the front of a text spell. -/
def escaped? (cs : List Char) : Option (List UInt8) := do
  let b ← percentByte? cs
  return b :: (← trailing? (← furtherBytes? b.toNat) (cs.drop 3))

/-- Reads the characters of a tag, after the bytes already read. -/
def uriFrom (verbatim : Bool) : Nat → List UInt8 → Cursor → Except Error (List UInt8 × Cursor)
  | 0, acc, c => .ok (acc, c)
  | fuel + 1, acc, c =>
    match c.next? with
    | none => .ok (acc, c)
    | some x =>
      if x = '%' then
        match escaped? c.rest with
        | some bytes => uriFrom verbatim fuel (acc ++ bytes) (c.skip (3 * bytes.length))
        | none => c.fail "a malformed escape in a tag"
      else if isUriChar x || (verbatim && isVerbatimChar x) then
        uriFrom verbatim fuel (acc ++ Text.utf8Bytes [x]) c.skip
      else .ok (acc, c)

/-- Reads the characters of a tag, of which there must be some unless `head` has been read. -/
def uri (verbatim : Bool) (head : List Char) (c : Cursor) : Except Error (String × Cursor) := do
  let (bytes, d) ← uriFrom verbatim (c.rest.length + 1) (Text.utf8Bytes (head.drop 1)) c
  if head = [] && d.index = c.index then c.fail "a tag without characters"
  return (String.ofList (Text.decodeLossy bytes), d)

/-- Reads an exclamation mark, name characters, and another exclamation mark if one follows. -/
def readHandle (c : Cursor) : List Char × Cursor :=
  let (name, d) := c.skip.takeWhile isNameChar
  if d.sees '!' then ('!' :: name ++ ['!'], d.skip) else ('!' :: name, d)

/-- Whether a handle is complete. -/
def isHandle (cs : List Char) : Bool := cs.length > 1 && cs.getLast? = some '!'

/-- Reads a tag between angle brackets. -/
def verbatim (c : Cursor) : Except Error (Tag × Cursor) := do
  let (suffix, c) ← uri true [] (c.skip 2)
  if !c.sees '>' then c.fail "the tag is not closed"
  return (⟨"", suffix⟩, c.skip)

/-- Reads a tag with a handle, or with a single exclamation mark in front. -/
def short (c : Cursor) : Except Error (Tag × Cursor) := do
  let (head, d) := readHandle c
  if isHandle head then
    let (suffix, d) ← uri false [] d
    return (⟨String.ofList head, suffix⟩, d)
  else
    let (suffix, d) ← uri false head d
    return (if suffix = "" then ⟨"", "!"⟩ else ⟨"!", suffix⟩, d)

/-- Reads a tag whose exclamation mark comes next. -/
def scan (inFlow : Bool) (c : Cursor) : Except Error (Tag × Cursor) := do
  let (tag, d) ← match c.rest with
    | _ :: '<' :: _ => verbatim c
    | _ => short c
  if endsWord d.rest || (inFlow && d.sees ',') then return (tag, d)
  else d.fail "white space is expected after a tag"

/-- The handles that need no declaration. -/
def defaultHandles : List (String × String) := [("!", "!"), ("!!", "tag:yaml.org,2002:")]

/-- The tag in full, where its handle is declared. -/
def resolve? (handles : List (String × String)) (t : Tag) : Option String :=
  if t.handle = "" then some t.suffix else (handles.lookup t.handle).map (· ++ t.suffix)

end Tag

/-! ## 2. Directives -/

/-- A declaration before a document: of the version, or of a handle. -/
inductive Directive where
  | version (major minor : Nat)
  | handle (name meaning : String)
  deriving DecidableEq, Repr

namespace Directive

/-- Reads a number of one to nine digits. -/
def number (c : Cursor) : Except Error (Nat × Cursor) :=
  let (digits, d) := c.takeWhile Char.isDigit
  if digits = [] then c.fail "a number is expected"
  else if digits.length > 9 then c.fail "an extremely long number"
  else .ok (digits.foldl (fun n x => 10 * n + (x.toNat - 48)) 0, d)

/-- Reads a version. -/
def versionValue (c : Cursor) : Except Error (Directive × Cursor) := do
  let (major, c) ← number (c.skipWhile isBlank)
  if !c.sees '.' then c.fail "a point is expected"
  let (minor, c) ← number c.skip
  return (.version major minor, c)

/-- Reads a handle and its meaning. -/
def handleValue (c : Cursor) : Except Error (Directive × Cursor) := do
  let c := c.skipWhile isBlank
  if !c.sees '!' then c.fail "an exclamation mark is expected"
  let (name, c) := Tag.readHandle c
  if name ≠ ['!'] && !Tag.isHandle name then c.fail "an exclamation mark is expected"
  if !((c.next?.map isBlank).getD false) then c.fail "white space is expected"
  let (meaning, c) ← Tag.uri true [] (c.skipWhile isBlank)
  if !endsWord c.rest then c.fail "white space is expected"
  return (.handle (String.ofList name) meaning, c)

/-- Reads a directive whose percent sign comes next, and the rest of its line. -/
def scan (c : Cursor) : Except Error (Directive × Cursor) := do
  let (name, c) := c.skip.takeWhile isNameChar
  if name = [] then c.fail "the name of a directive is expected"
  if !endsWord c.rest then c.fail "a character that no directive has"
  let (directive, c) ←
    if name = "YAML".toList then versionValue c
    else if name = "TAG".toList then handleValue c
    else c.fail "an unknown directive"
  let c := (c.skipWhile isBlank).skipComment
  if !endsLine c.rest then c.fail "a comment or a line break is expected"
  return (directive, c.skipLine)

end Directive

end ApiTypes.Yaml
