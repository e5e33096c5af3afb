/-
# Quoted scalars

Between single quotes a quote is written twice and everything else stands for itself.  Between
double quotes a backslash starts an escape.  In both, line breaks are folded.

* `Quoted.scan` reads a quoted scalar.
-/
import ApiTypes.Text.Utf8
import ApiTypes.Yaml.Scalar.Gap

namespace ApiTypes.Yaml.Quoted

/-- The character that a letter stands for after a backslash. -/
def simpleEscape? (c : Char) : Option Char :=
  match c with
  | '0' => some (Char.ofNat 0)
  | 'a' => some (Char.ofNat 7)
  | 'b' => some (Char.ofNat 8)
  | 't' => some '\t'
  | '\t' => some '\t'
  | 'n' => some '\n'
  | 'v' => some (Char.ofNat 0xB)
  | 'f' => some (Char.ofNat 0xC)
  | 'r' => some '\r'
  | 'e' => some (Char.ofNat 0x1B)
  | ' ' => some ' '
  | '"' => some '"'
  | '/' => some '/'
  | '\\' => some '\\'
  | 'N' => some (Char.ofNat 0x85)
  | '_' => some (Char.ofNat 0xA0)
  | 'L' => some (Char.ofNat 0x2028)
  | 'P' => some (Char.ofNat 0x2029)
  | _ => none

/-- How many hexadecimal digits follow a letter after a backslash. -/
def codeLength? (c : Char) : Option Nat :=
  match c with
  | 'x' => some 2
  | 'u' => some 4
  | 'U' => some 8
  | _ => none

/-- The value of hexadecimal digits. -/
def hexValue? (cs : List Char) : Option Nat :=
  cs.foldlM (fun n c => (Text.hexDigit? c).map (16 * n + ·)) 0

/-- The character of a number; surrogates are none. -/
def charOf? (n : Nat) : Option Char := if n.isValidChar then some (Char.ofNat n) else none

/-- The character of the escape that follows a backslash, and the length of the escape. -/
def escape? (cs : List Char) : Option (Char × Nat) := do
  let c ← cs.head?
  match simpleEscape? c with
  | some x => return (x, 2)
  | none =>
    let length ← codeLength? c
    let digits := (cs.drop 1).take length
    if digits.length < length then none
    else return (← charOf? (← hexValue? digits), 2 + length)

/-- Reads characters up to a blank, a line break or the closing quote, after those already
read.  A backslash before a line break takes the break along, which the answer tells. -/
def run (quote : Char) : Nat → List Char → Cursor → Except Error (List Char × Bool × Cursor)
  | 0, acc, c => .ok (acc, false, c)
  | fuel + 1, acc, c =>
    match c.rest with
    | [] => .ok (acc, false, c)
    | x :: rest =>
      if isBlank x || isBreak x then .ok (acc, false, c)
      else if quote = '\'' && x = '\'' && rest.head? = some '\'' then
        run quote fuel ('\'' :: acc) (c.skip 2)
      else if x = quote then .ok (acc, false, c)
      else if quote = '"' && x = '\\' then
        if (rest.head?.map isBreak).getD false then .ok (acc, true, c.skip.skipLine)
        else
          match escape? rest with
          | some (y, length) => run quote fuel (y :: acc) (c.skip length)
          | none => c.fail "unknown or malformed escape"
      else run quote fuel (x :: acc) c.skip

/-- Reads up to the closing quote and past it, after the characters already read. -/
def body (quote : Char) : Nat → List Char → Cursor → Except Error (String × Cursor)
  | 0, _, c => c.fail "the quote is not closed"
  | fuel + 1, acc, c =>
    if c.atDocumentMark then c.fail "a document mark inside a quoted scalar"
    else if c.rest = [] then c.fail "the quote is not closed"
    else do
      let (acc, broken, c) ← run quote (c.rest.length + 1) acc c
      if c.sees quote then return (String.ofList acc.reverse, c.skip)
      let (gap, c) ← Gap.read 0 broken c
      body quote fuel (gap.text.reverse ++ acc) c

/-- Reads a scalar whose opening quote comes next. -/
def scan (quote : Char) (c : Cursor) : Except Error (String × Cursor) :=
  body quote (c.rest.length + 1) [] c.skip

end ApiTypes.Yaml.Quoted
