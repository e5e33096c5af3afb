/-
# Folding

Inside plain and quoted scalars a stretch of blanks and line breaks is a gap.  A gap on one
line stands for its blanks.  A gap over several lines stands for a space, or for its line
breaks but the first.

* `Gap.read` reads a gap, `Gap.text` is what it stands for.
-/
import ApiTypes.Yaml.Cursor

namespace ApiTypes.Yaml

/-- A stretch of blanks and line breaks: the blanks before the first line break, that line
break, those after it, and whether the gap leaves the line. -/
structure Gap where
  blanks : List Char := []
  first : List Char := []
  further : List Char := []
  leavesLine : Bool := false

namespace Gap

/-- What a gap stands for. -/
def text (g : Gap) : List Char :=
  if !g.leavesLine then g.blanks
  else if g.first = ['\n'] then (if g.further = [] then [' '] else g.further)
  else g.first ++ g.further

/-- Reads the rest of a gap.  Tabs may not stand for the indentation of a later line, which
has `indent` columns. -/
def readFrom (indent : Nat) : Nat → Gap → Cursor → Except Error (Gap × Cursor)
  | 0, g, c => .ok (g, c)
  | fuel + 1, g, c =>
    match c.next? with
    | none => .ok (g, c)
    | some x =>
      if isBlank x then
        if g.leavesLine then
          if x = '\t' && c.column < indent then c.fail "a tab violates the indentation"
          else readFrom indent fuel g c.skip
        else readFrom indent fuel { g with blanks := g.blanks ++ [x] } c.skip
      else if isBreak x then
        let g := if g.leavesLine then { g with further := g.further ++ c.breakText }
          else { g with first := c.breakText, leavesLine := true }
        readFrom indent fuel g c.skipLine
      else .ok (g, c)

/-- Reads a gap; `leavesLine` says that a line break before it has been taken already. -/
def read (indent : Nat) (leavesLine : Bool) (c : Cursor) : Except Error (Gap × Cursor) :=
  readFrom indent c.rest.length { leavesLine } c

end Gap

end ApiTypes.Yaml
