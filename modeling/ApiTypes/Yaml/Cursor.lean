/-
# Places in a YAML text

A cursor is what is left of a text together with the place reached: the line, the column and
the number of characters before it.  The layout of a text is part of its meaning, so every
step keeps the place up to date.

* `Cursor.skip` and `Cursor.skipLine` take steps, `Cursor.takeWhile` takes many.
* `isBreak`, `isBlank` and `isNameChar` are the classes of characters.
-/
import ApiTypes.Yaml.Error

namespace ApiTypes.Yaml

/-! ## 1. Characters -/

/-- The characters that end a line. -/
def isBreak (c : Char) : Bool :=
  c = '\n' || c = '\r' || c.toNat = 0x85 || c.toNat = 0x2028 || c.toNat = 0x2029

/-- The space and the tab. -/
def isBlank (c : Char) : Bool := c = ' ' || c = '\t'

/-- The characters of anchors, directives and tag handles. -/
def isNameChar (c : Char) : Bool := c.isAlphanum || c = '_' || c = '-'

/-- The mark that can stand at the front of a text. -/
def isByteOrderMark (c : Char) : Bool := c.toNat = 0xFEFF

/-- The characters that a text may hold: all but control characters and non-characters. -/
def isAllowed (c : Char) : Bool :=
  let n := c.toNat
  n = 9 || n = 0xA || n = 0xD || (0x20 ≤ n && n ≤ 0x7E) || n = 0x85
    || (0xA0 ≤ n && n ≤ 0xD7FF) || (0xE000 ≤ n && n ≤ 0xFFFD) || 0x10000 ≤ n

/-- Whether a text ends, or a blank or a line break stands at its front. -/
def endsWord : List Char → Bool
  | [] => true
  | c :: _ => isBlank c || isBreak c

/-- Whether a text ends, or a line break stands at its front. -/
def endsLine : List Char → Bool
  | [] => true
  | c :: _ => isBreak c

/-! ## 2. Cursors -/

/-- The rest of a text, and where it starts. -/
structure Cursor where
  rest : List Char
  line : Nat := 0
  column : Nat := 0
  index : Nat := 0

namespace Cursor

/-- The next character. -/
def next? (c : Cursor) : Option Char := c.rest.head?

/-- Whether a character comes next. -/
def sees (c : Cursor) (x : Char) : Bool := c.next? = some x

/-- The cursor past some characters of its line. -/
def skip (c : Cursor) (count : Nat := 1) : Cursor :=
  { c with rest := c.rest.drop count, column := c.column + count, index := c.index + count }

/-- The cursor past one line break, where there is one. -/
def skipLine (c : Cursor) : Cursor :=
  match c.rest with
  | '\r' :: '\n' :: rest => ⟨rest, c.line + 1, 0, c.index + 2⟩
  | b :: rest => if isBreak b then ⟨rest, c.line + 1, 0, c.index + 1⟩ else c
  | [] => c

/-- What a line break stands for: a line feed, or itself if it is one of the two separators. -/
def breakText (c : Cursor) : List Char :=
  match c.rest with
  | b :: _ =>
    if b.toNat = 0x2028 || b.toNat = 0x2029 then [b]
    else if isBreak b then ['\n'] else []
  | [] => []

/-- The longest run of characters that satisfy `p`, none of which is a line break. -/
def takeWhile (c : Cursor) (p : Char → Bool) : List Char × Cursor :=
  let run := c.rest.takeWhile p
  (run, c.skip run.length)

/-- The cursor past the longest run of characters that satisfy `p`. -/
def skipWhile (c : Cursor) (p : Char → Bool) : Cursor := (c.takeWhile p).2

/-- The cursor past a comment, if one starts here. -/
def skipComment (c : Cursor) : Cursor := if c.sees '#' then c.skipWhile (!isBreak ·) else c

/-- Whether a document starts or ends here: at the margin stand three hyphens or three dots,
and nothing else. -/
def atDocumentMark (c : Cursor) : Bool :=
  c.column = 0 &&
    match c.rest with
    | '-' :: '-' :: '-' :: rest => endsWord rest
    | '.' :: '.' :: '.' :: rest => endsWord rest
    | _ => false

/-- A broken rule at this place. -/
def fail {α : Type} (c : Cursor) (rule : String) : Except Error α := .error (.malformed rule c.line)

end Cursor

end ApiTypes.Yaml
