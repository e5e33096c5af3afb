/-
# Plain scalars

A plain scalar stands without quotes.  It ends before a colon that a blank follows, before a
comment, before a line that is indented too little, and in a flow collection before the marks
of that collection.

* `Plain.scan` reads a plain scalar.
-/
import ApiTypes.Yaml.Scalar.Gap

namespace ApiTypes.Yaml.Plain

/-- The marks that end a scalar in a flow collection. -/
def isFlowMark (c : Char) : Bool := c = ',' || c = '[' || c = ']' || c = '{' || c = '}'

/-- Whether a scalar ends before a text. -/
def ends (inFlow : Bool) : List Char → Bool
  | [] => true
  | c :: rest => isBlank c || isBreak c || (c = ':' && endsWord rest) || (inFlow && isFlowMark c)

/-- Whether a colon comes next that stands directly before a mark of a flow collection. -/
def strayColon : List Char → Bool
  | ':' :: c :: _ => isFlowMark c || c = '?'
  | _ => false

/-- Reads characters up to the end of the scalar or the next gap, after those already read. -/
def run (inFlow : Bool) : Nat → List Char → Cursor → Except Error (List Char × Cursor)
  | 0, acc, c => .ok (acc, c)
  | fuel + 1, acc, c =>
    if inFlow && strayColon c.rest then c.fail "a colon in a plain scalar"
    else if ends inFlow c.rest then .ok (acc, c)
    else run inFlow fuel ((c.next?.getD ' ') :: acc) c.skip

/-- Reads up to the end of the scalar, after the characters and the gap already read.  The
answer tells whether the last gap leaves its line. -/
def body (inFlow : Bool) (indent : Nat) :
    Nat → List Char → Gap → Cursor → Except Error (String × Bool × Cursor)
  | 0, _, _, c => c.fail "a scalar without end"
  | fuel + 1, acc, gap, c =>
    if c.atDocumentMark || c.sees '#' then
      .ok (String.ofList acc.reverse, gap.leavesLine, c)
    else do
      let (more, c) ← run inFlow (c.rest.length + 1) [] c
      let (acc, gap) : List Char × Gap :=
        if more = [] then (acc, gap) else (more ++ (gap.text.reverse ++ acc), {})
      if !((c.next?.map fun x => isBlank x || isBreak x).getD false) then
        return (String.ofList acc.reverse, gap.leavesLine, c)
      let (gap, c) ← Gap.read indent false c
      if !inFlow && c.column < indent then
        return (String.ofList acc.reverse, gap.leavesLine, c)
      body inFlow indent fuel acc gap c

/-- Reads a plain scalar whose later lines are indented by at least `indent` columns. -/
def scan (inFlow : Bool) (indent : Nat) (c : Cursor) : Except Error (String × Bool × Cursor) :=
  body inFlow indent (c.rest.length + 1) [] {} c

end ApiTypes.Yaml.Plain
