/-
# Tokens of a YAML text

The tokens of a text are its marks and scalars, and marks for what the layout says: where a
block collection starts and ends.  That something is the key of a mapping shows only at the
colon after it, so the start of a key is noted with the position of its token and put into its
place at the end (`Scan.spliced`).

A text that could turn out to be a key is a *candidate*; there is at most one for each level of
flow collections.  A candidate is given up at the end of its line, or after 1024 characters.

* `Token.scan` gives the tokens of a text.
-/
import ApiTypes.Yaml.Scalar.Block
import ApiTypes.Yaml.Scalar.Plain
import ApiTypes.Yaml.Scalar.Quoted
import ApiTypes.Yaml.Tag

namespace ApiTypes.Yaml

/-! ## 1. Tokens -/

/-- How a scalar is written. -/
inductive ScalarStyle where
  | plain
  | quoted
  | literal
  | folded
  deriving DecidableEq, Repr

/-- A token. -/
inductive Token where
  | directive (directive : Directive)
  | documentStart
  | documentEnd
  | sequenceStart
  | mappingStart
  | blockEnd
  | openBracket
  | closeBracket
  | openBrace
  | closeBrace
  | blockEntry
  | flowEntry
  | key
  | value
  | alias (name : String)
  | anchor (name : String)
  | tag (tag : Tag)
  | scalar (style : ScalarStyle) (text : String)
  deriving DecidableEq, Repr

/-- A token that could turn out to be the first of a key: its number and its place. -/
structure Candidate where
  number : Nat
  line : Nat
  column : Nat
  index : Nat
  required : Bool
  deriving Repr

/-- Whether a candidate has been given up by a place. -/
def Candidate.isStale (k : Candidate) (c : Cursor) : Bool :=
  k.line < c.line || k.index + 1024 < c.index

/-- A scan under way. -/
structure Scan where
  cursor : Cursor
  /-- The tokens so far, the last one first. -/
  tokens : List Token := []
  /-- How many there are. -/
  count : Nat := 0
  /-- The numbers of the tokens that keys start with; `true` if a mapping starts there too. -/
  keys : List (Nat × Bool) := []
  /-- The column of the innermost block collection, and those of the ones around it. -/
  indent : Int := -1
  outer : List Int := []
  /-- The candidate at each level of flow collections, the innermost one first. -/
  candidates : List (Option Candidate) := [none]
  /-- Whether a key may start here. -/
  keyAllowed : Bool := true

namespace Scan

/-! ## 2. Steps -/

/-- Whether the scan is inside a flow collection. -/
def inFlow (s : Scan) : Bool := s.candidates.length > 1

/-- Adds a token. -/
def push (s : Scan) (t : Token) : Scan := { s with tokens := t :: s.tokens, count := s.count + 1 }

/-- Adds a token for a mark of the given length. -/
def mark (s : Scan) (t : Token) (length : Nat := 1) : Scan :=
  { s.push t with cursor := s.cursor.skip length }

/-- Ends a candidate; one at the margin of a mapping has to be a key. -/
def drop (c : Cursor) (k : Candidate) : Except Error (Option Candidate) :=
  if k.required then c.fail "a colon is expected" else .ok none

/-- Gives up the candidates whose line or length has ended. -/
def dropStale (s : Scan) : Except Error Scan := do
  let candidates ← s.candidates.mapM fun
    | some k => if k.isStale s.cursor then drop s.cursor k else .ok (some k)
    | none => .ok none
  return { s with candidates }

/-- Gives up the candidate of the innermost level. -/
def dropCandidate (s : Scan) : Except Error Scan :=
  match s.candidates with
  | some k :: rest => do return { s with candidates := (← drop s.cursor k) :: rest }
  | _ => .ok s

/-- Makes the next token a candidate, where a key may start. -/
def addCandidate (s : Scan) : Except Error Scan :=
  if s.keyAllowed then do
    let s ← s.dropCandidate
    let c := s.cursor
    let required := !s.inFlow && s.indent = (c.column : Int)
    let k : Candidate := ⟨s.count, c.line, c.column, c.index, required⟩
    return { s with candidates := some k :: s.candidates.drop 1 }
  else .ok s

/-- Whether a column is further in than the innermost block collection. -/
def isDeeper (s : Scan) (column : Nat) : Bool := !s.inFlow && s.indent < column

/-- Starts a block collection at a column. -/
def indentTo (s : Scan) (column : Nat) : Scan :=
  { s with indent := column, outer := s.indent :: s.outer }

/-- Starts a block collection at the cursor, if that is further in than the innermost one. -/
def startBlock (s : Scan) (t : Token) : Scan :=
  if s.isDeeper s.cursor.column then (s.indentTo s.cursor.column).push t else s

/-- Ends the block collections that are further in than a column. -/
def closeTo (s : Scan) (column : Int) : Scan :=
  if s.inFlow then s else go (s.outer.length + 1) s
where
  /-- Ends a number of block collections at most. -/
  go : Nat → Scan → Scan
    | 0, s => s
    | fuel + 1, s =>
      if s.indent > column then
        go fuel { s.push .blockEnd with indent := s.outer.headD (-1), outer := s.outer.drop 1 }
      else s

/-! ## 3. Between tokens -/

/-- Skips blanks, comments and line breaks.  Tabs count as blanks only where no key can start. -/
def skipGap : Nat → Scan → Scan
  | 0, s => s
  | fuel + 1, s =>
    let c := s.cursor
    let c := if c.column = 0 && (c.next?.map isByteOrderMark).getD false then c.skip else c
    let tabs := s.inFlow || !s.keyAllowed
    let c := (c.skipWhile fun x => x = ' ' || (tabs && x = '\t')).skipComment
    if (c.next?.map isBreak).getD false then
      skipGap fuel { s with cursor := c.skipLine, keyAllowed := s.keyAllowed || !s.inFlow }
    else { s with cursor := c }

/-! ## 4. Tokens -/

/-- A document mark, or a directive: all block collections end. -/
def leaveDocument (s : Scan) : Except Error Scan := do
  let s ← (s.closeTo (-1)).dropCandidate
  return { s with keyAllowed := false }

/-- Opens a flow collection. -/
def openFlow (s : Scan) (t : Token) : Except Error Scan := do
  let s := (← s.addCandidate).mark t
  return { s with candidates := none :: s.candidates, keyAllowed := true }

/-- Closes a flow collection. -/
def closeFlow (s : Scan) (t : Token) : Except Error Scan := do
  let s := (← s.dropCandidate).mark t
  return { s with
    candidates := if s.inFlow then s.candidates.drop 1 else s.candidates
    keyAllowed := false }

/-- A comma in a flow collection. -/
def flowEntry (s : Scan) : Except Error Scan := do
  let s := (← s.dropCandidate).mark .flowEntry
  return { s with keyAllowed := true }

/-- A hyphen before an item. -/
def blockEntry (s : Scan) : Except Error Scan := do
  if !s.inFlow && !s.keyAllowed then s.cursor.fail "an item is not allowed here"
  let s ← (s.startBlock .sequenceStart).dropCandidate
  return { s.mark .blockEntry with keyAllowed := true }

/-- A question mark before a key. -/
def explicitKey (s : Scan) : Except Error Scan := do
  if !s.inFlow && !s.keyAllowed then s.cursor.fail "a key is not allowed here"
  let s ← (s.startBlock .mappingStart).dropCandidate
  return { s.mark .key with keyAllowed := !s.inFlow }

/-- A colon before a value.  It makes a key of the candidate, if there is one. -/
def valueMark (s : Scan) : Except Error Scan :=
  match s.candidates with
  | some k :: rest =>
    let starts := s.isDeeper k.column
    let s := { s with keys := (k.number, starts) :: s.keys, candidates := none :: rest }
    let s := if starts then s.indentTo k.column else s
    .ok { s.mark .value with keyAllowed := false }
  | _ =>
    if !s.inFlow && !s.keyAllowed then s.cursor.fail "a value is not allowed here"
    else
      let s := (s.startBlock .mappingStart).mark .value
      .ok { s with keyAllowed := !s.inFlow }

/-- An anchor or an alias: a name after its mark. -/
def named (s : Scan) (token : String → Token) : Except Error Scan := do
  let s ← s.addCandidate
  let (name, c) := s.cursor.skip.takeWhile isNameChar
  let ends := endsWord c.rest
    || (c.next?.map fun x => ['?', ':', ',', ']', '}', '%', '@', '\x60'].contains x).getD false
  if name = [] || !ends then c.fail "a name is expected"
  return { s.push (token (String.ofList name)) with cursor := c, keyAllowed := false }

/-- A tag. -/
def tag (s : Scan) : Except Error Scan := do
  let s ← s.addCandidate
  let (t, c) ← Tag.scan s.inFlow s.cursor
  return { s.push (.tag t) with cursor := c, keyAllowed := false }

/-- A block scalar. -/
def blockScalar (s : Scan) : Except Error Scan := do
  let s ← s.dropCandidate
  let style := if s.cursor.sees '|' then .literal else .folded
  let (text, c) ← Block.scan s.indent s.cursor
  return { s.push (.scalar style text) with cursor := c, keyAllowed := true }

/-- A quoted scalar. -/
def quotedScalar (s : Scan) (quote : Char) : Except Error Scan := do
  let s ← s.addCandidate
  let (text, c) ← Quoted.scan quote s.cursor
  return { s.push (.scalar .quoted text) with cursor := c, keyAllowed := false }

/-- A plain scalar; a key may start on the line after it. -/
def plainScalar (s : Scan) : Except Error Scan := do
  let s ← s.addCandidate
  let (text, leavesLine, c) ← Plain.scan s.inFlow (s.indent + 1).toNat s.cursor
  return { s.push (.scalar .plain text) with cursor := c, keyAllowed := leavesLine }

/-- Whether a plain scalar can start with a character that has a text behind it. -/
def startsPlain (inFlow : Bool) (x : Char) (rest : List Char) : Bool :=
  if x = '-' then !((rest.head?.map isBlank).getD false)
  else if x = '?' || x = ':' then !inFlow && !endsWord rest
  else !isBlank x && !([',', '[', ']', '{', '}', '#', '&', '*', '!', '|', '>', '\'', '"', '%', '@',
    '\x60'].contains x)

/-- Reads the token that starts at the cursor. -/
def token (s : Scan) (x : Char) (rest : List Char) : Except Error Scan :=
  if s.cursor.column = 0 && x = '%' then do
    let s ← s.leaveDocument
    let (d, c) ← Directive.scan s.cursor
    return { s.push (.directive d) with cursor := c }
  else if s.cursor.atDocumentMark then do
    return (← s.leaveDocument).mark (if x = '-' then .documentStart else .documentEnd) 3
  else if x = '[' then s.openFlow .openBracket
  else if x = '{' then s.openFlow .openBrace
  else if x = ']' then s.closeFlow .closeBracket
  else if x = '}' then s.closeFlow .closeBrace
  else if x = ',' then s.flowEntry
  else if x = '-' && endsWord rest then s.blockEntry
  else if x = '?' && (s.inFlow || endsWord rest) then s.explicitKey
  else if x = ':' && (s.inFlow || endsWord rest) then s.valueMark
  else if x = '*' then s.named .alias
  else if x = '&' then s.named .anchor
  else if x = '!' then s.tag
  else if (x = '|' || x = '>') && !s.inFlow then s.blockScalar
  else if x = '\'' || x = '"' then s.quotedScalar x
  else if startsPlain s.inFlow x rest then s.plainScalar
  else s.cursor.fail "no token starts with this character"

/-- The tokens with the starts of keys in their places. -/
def spliced (s : Scan) : List Token :=
  go 0 (s.keys.mergeSort fun a b => a.1 ≤ b.1) s.tokens.reverse
where
  /-- Splices the tokens from a number on. -/
  go : Nat → List (Nat × Bool) → List Token → List Token
    | _, _, [] => []
    | n, (m, starts) :: keys, t :: tokens =>
      if m = n then
        (if starts then [.mappingStart, .key, t] else [.key, t]) ++ go (n + 1) keys tokens
      else t :: go (n + 1) ((m, starts) :: keys) tokens
    | _, [], tokens => tokens

/-- Reads tokens up to the end of the text.  Every token takes a character. -/
def run : Nat → Scan → Except Error Scan
  | 0, s => s.cursor.fail "a text without end"
  | fuel + 1, s => do
    let s ← (skipGap (s.cursor.rest.length + 1) s).dropStale
    match s.cursor.rest with
    | [] => (s.closeTo (-1)).dropCandidate
    | x :: rest => run fuel (← (s.closeTo s.cursor.column).token x rest)

end Scan

/-- The tokens of a text. -/
def Token.scan (text : String) : Except Error (List Token) := do
  let cs := text.toList
  if !cs.all isAllowed then .error (.malformed "a control character" 0)
  let s ← Scan.run (cs.length + 1) { cursor := { rest := cs } }
  return s.spliced

end ApiTypes.Yaml
