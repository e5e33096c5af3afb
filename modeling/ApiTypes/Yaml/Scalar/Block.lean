/-
# Block scalars

A block scalar takes the lines below its header that are indented more than what it belongs
to.  A literal one keeps its line breaks, a folded one joins lines that do not start with a
blank.  The header can fix the indentation, and say what becomes of the line breaks at the end.

* `Block.scan` reads a block scalar.
-/
import ApiTypes.Yaml.Cursor

namespace ApiTypes.Yaml.Block

/-! ## 1. The header -/

/-- What becomes of the line breaks at the end: none is left, one is, or all are. -/
inductive Chomping where
  | strip
  | clip
  | keep
  deriving DecidableEq, Repr

/-- The mark of a way of chomping. -/
def chomping? (c : Cursor) : Option Chomping :=
  match c.next? with
  | some '+' => some .keep
  | some '-' => some .strip
  | _ => none

/-- The digit of an indentation. -/
def digit? (c : Cursor) : Option Nat := (c.next?.filter Char.isDigit).map fun x => x.toNat - 48

/-- The header: the way of chomping and the indentation, in either order. -/
def header (c : Cursor) : Except Error (Chomping × Option Nat × Cursor) :=
  match chomping? c, digit? c with
  | some chomping, _ =>
    match digit? c.skip with
    | some 0 => c.fail "an indentation of zero"
    | some n => .ok (chomping, some n, c.skip 2)
    | none => .ok (chomping, none, c.skip)
  | none, some 0 => c.fail "an indentation of zero"
  | none, some n =>
    match chomping? c.skip with
    | some chomping => .ok (chomping, some n, c.skip 2)
    | none => .ok (.clip, some n, c.skip)
  | none, none => .ok (.clip, none, c)

/-! ## 2. The lines -/

/-- Takes spaces and line breaks up to a line that holds something, and gives the line breaks.
Without an indentation all spaces are taken, and the greatest column reached is given too. -/
def emptyLines (indent : Option Nat) :
    Nat → Nat → List Char → Cursor → Except Error (List Char × Nat × Cursor)
  | 0, most, breaks, c => .ok (breaks, most, c)
  | fuel + 1, most, breaks, c =>
    let room := match indent with
      | some n => n - c.column
      | none => c.rest.length
    let c := c.skip ((c.rest.take room).takeWhile (· = ' ')).length
    let most := max most c.column
    let inside := match indent with
      | some n => c.column < n
      | none => true
    if inside && c.sees '\t' then c.fail "a tab where indentation is expected"
    else if (c.next?.map isBreak).getD false then
      emptyLines indent fuel most (breaks ++ c.breakText) c.skipLine
    else .ok (breaks, most, c)

/-- What has been read of the lines: the text, the break of the last line, the breaks of the
empty lines after it, and whether that line starts with a blank. -/
structure Lines where
  text : List Char := []
  last : List Char := []
  empty : List Char := []
  blankStart : Bool := false

/-- What stands between two lines. -/
def joint (literal : Bool) (ls : Lines) (blankStart : Bool) : List Char :=
  if !literal && ls.last = ['\n'] && !ls.blankStart && !blankStart then
    (if ls.empty = [] then [' '] else ls.empty)
  else ls.last ++ ls.empty

/-- Reads lines at an indentation, after those already read. -/
def lines (literal : Bool) (indent : Nat) : Nat → Lines → Cursor → Except Error (Lines × Cursor)
  | 0, ls, c => .ok (ls, c)
  | fuel + 1, ls, c =>
    if c.column = indent && c.rest ≠ [] then do
      let blankStart := (c.next?.map isBlank).getD false
      let (line, d) := c.takeWhile (!isBreak ·)
      let last := d.breakText
      let (empty, _, d) ← emptyLines (some indent) (d.rest.length + 1) 0 [] d.skipLine
      lines literal indent fuel
        { text := ls.text ++ joint literal ls blankStart ++ line, last, empty, blankStart } d
    else .ok (ls, c)

/-- The text of the lines, chomped. -/
def chomp (chomping : Chomping) (ls : Lines) : List Char :=
  match chomping with
  | .strip => ls.text
  | .clip => ls.text ++ ls.last
  | .keep => ls.text ++ ls.last ++ ls.empty

/-- Reads a block scalar whose mark comes next; `parent` is the indentation of what it belongs
to, which is none at the top. -/
def scan (parent : Int) (c : Cursor) : Except Error (String × Cursor) := do
  let literal := c.sees '|'
  let (chomping, increment, d) ← header c.skip
  let d := (d.skipWhile isBlank).skipComment
  if !endsLine d.rest then d.fail "a comment or a line break is expected"
  let d := d.skipLine
  let fixed := increment.map fun n => (max parent 0).toNat + n
  let (empty, most, d) ← emptyLines fixed (d.rest.length + 1) 0 [] d
  let indent := fixed.getD (max most (max (parent + 1).toNat 1))
  let (ls, d) ← lines literal indent (d.rest.length + 1) { empty } d
  return (String.ofList (chomp chomping ls), d)

end ApiTypes.Yaml.Block
