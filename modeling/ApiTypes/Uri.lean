/-
# Addresses of documents

An absolute address is read the way a browser reads one, so that two spellings of one address
are seen to be the same: white space around it is dropped, the scheme and the host fold to
lower case, the scheme's own port is left out, `.` and `..` are followed, and a backslash
separates segments where the scheme belongs to the web.  Names of hosts are read as `Host.special?`
says, so without the tables for letters outside ASCII.

* `Uri.parse?` reads an absolute address; a relative one is none.
* A `Uri` keeps the parts that tell documents apart: no user, no query and no fragment.
-/
import ApiTypes.Text.Basic
import ApiTypes.Uri.Host

namespace ApiTypes

/-- The parts of an address that say which document it names. -/
structure Uri where
  scheme : String
  host : Option Host
  port : Option Nat
  path : String
  deriving DecidableEq, Repr

namespace Uri

/-! ## 1. Schemes -/

/-- How the text after the scheme is read. -/
inductive Style where
  /-- Always a host, and backslashes are slashes. -/
  | web
  /-- Like the web, but the host may be missing. -/
  | file
  /-- A host only after two slashes. -/
  | other
  deriving DecidableEq

/-- The style of a scheme. -/
def styleOf (scheme : String) : Style :=
  if ["http", "https", "ws", "wss", "ftp"].contains scheme then .web
  else if scheme = "file" then .file
  else .other

/-- The port that a scheme has when none is written. -/
def defaultPort? (scheme : String) : Option Nat :=
  if scheme = "http" || scheme = "ws" then some 80
  else if scheme = "https" || scheme = "wss" then some 443
  else if scheme = "ftp" then some 21
  else none

/-- The scheme in lower case and what follows its colon. -/
def scheme? (cs : List Char) : Option (String × List Char) :=
  let isSchemeChar (c : Char) := c.isAlphanum || c = '+' || c = '-' || c = '.'
  match cs with
  | [] => none
  | c :: _ =>
    if !c.isAlpha then none
    else match cs.dropWhile isSchemeChar with
      | ':' :: rest => some (String.ofList ((cs.takeWhile isSchemeChar).map Char.toLower), rest)
      | _ => none

/-! ## 2. Paths -/

/-- Whether a character separates segments. -/
def isSlash (style : Style) (c : Char) : Bool := c = '/' || (style ≠ .other && c = '\\')

/-- Whether a character ends the host part. -/
def endsHost (style : Style) (c : Char) : Bool := isSlash style c || c = '?' || c = '#'

/-- Characters that are written with percent signs in a path. -/
def isEscapedInPath (c : Char) : Bool := " \"#<>?\x60\x7b\x7d".toList.contains c

/-- The segment `.`, whose dot may be percent-encoded. -/
def isSingleDot (cs : List Char) : Bool := Text.percentDecode cs = ['.']

/-- The segment `..`, whose dots may be percent-encoded. -/
def isDoubleDot (cs : List Char) : Bool := Text.percentDecode cs = ['.', '.']

/-- A letter and a colon or bar, which name a drive. -/
def isDrive : List Char → Bool
  | [c, d] => c.isAlpha && (d = ':' || d = '|')
  | _ => false

/-- Follows the segments from left to right.  `before` holds those kept so far, the last one
first; a dot segment at the end leaves an empty segment. -/
def follow (style : Style) (before : List (List Char)) : List (List Char) → List (List Char)
  | [] => before.reverse
  | s :: rest =>
    let close (kept : List (List Char)) := if rest.isEmpty then [] :: kept else kept
    if isDoubleDot s then
      let kept := match before with
        | [d] => if style = .file && isDrive d then before else []
        | kept => kept.drop 1
      follow style (close kept) rest
    else if isSingleDot s then follow style (close before) rest
    else
      let s := Host.percentEncode isEscapedInPath s
      let s := if style = .file && before.isEmpty && isDrive s then s.take 1 ++ [':'] else s
      follow style (s :: before) rest

/-- The path that the text after the first slash spells. -/
def pathOf (style : Style) (cs : List Char) : String :=
  let cs := cs.takeWhile fun c => c ≠ '?' && c ≠ '#'
  let segments := Text.pieces '/' (cs.map fun c => if isSlash style c then '/' else c)
  let segments := follow style [] segments
  let segments := if style = .file then
      (match segments.dropWhile List.isEmpty with
        | [] => [[]]
        | kept => kept)
    else segments
  "/" ++ Text.join "/" (segments.map String.ofList)

/-- The path where it starts right after the host. -/
def pathAfterHost (style : Style) (cs : List Char) : String :=
  match cs with
  | [] => if style = .other then "" else "/"
  | c :: rest =>
    if isSlash style c then pathOf style rest
    else if style = .other && (c = '?' || c = '#') then ""
    else pathOf style cs

/-! ## 3. Hosts and ports -/

/-- Cuts the port off a host; a colon between square brackets is part of the host. -/
def cutPort : Bool → List Char → List Char × Option (List Char)
  | _, [] => ([], none)
  | inside, c :: cs =>
    if c = ':' && !inside then ([], some cs)
    else
      let inside := if c = '[' then true else if c = ']' then false else inside
      (c :: (cutPort inside cs).1, (cutPort inside cs).2)

/-- The port that digits spell: none if there are none, or if it is the scheme's own. -/
def port? (scheme : String) (cs : List Char) : Option (Option Nat) :=
  if !cs.all Char.isDigit then none
  else
    match Host.digits? 10 cs with
    | none => none
    | some n =>
      if n ≥ Nat.pow 2 16 then none
      else if cs = [] || defaultPort? scheme = some n then some none
      else some (some n)

/-- The rest after the last at sign, and whether nothing stands before the only one. -/
def dropUser (cs : List Char) : List Char × Bool :=
  if cs.contains '@' then
    ((cs.reverse.takeWhile (· ≠ '@')).reverse, cs.head? = some '@' && cs.count '@' = 1)
  else (cs, false)

/-- Reads host, port and path where a host is expected. -/
def withHost? (scheme : String) (cs : List Char) : Option Uri := do
  let style := styleOf scheme
  let front := cs.takeWhile (!endsHost style ·)
  let after := cs.drop front.length
  let (named, emptyUser) := dropUser front
  if emptyUser && named = [] && after ≠ [] then none
  let (hostText, portText) := cutPort false named
  if hostText = [] && (portText.isSome || style ≠ .other) then none
  let host ←
    if hostText = [] then some none
    else if style = .other then (Host.plain? hostText).map some
    else (Host.special? hostText).map some
  -- outside the web a backslash ends the port and starts the path
  let portText := portText.getD []
  let digits := portText.takeWhile (· ≠ '\\')
  let after := portText.drop digits.length ++ after
  let port ← port? scheme digits
  return ⟨scheme, host, port, pathAfterHost style after⟩

/-! ## 4. Addresses -/

/-- Reads what follows `file:`. -/
def file? (cs : List Char) : Option Uri :=
  match cs with
  | a :: b :: rest =>
    if isSlash .file a && isSlash .file b then do
      let hostText := rest.takeWhile (!endsHost .file ·)
      if isDrive hostText then return ⟨"file", none, none, pathOf .file rest⟩
      let host ←
        if hostText = [] then some none
        else (Host.special? hostText).map fun h => if h = .domain "localhost" then none else some h
      return ⟨"file", host, none, pathAfterHost .file (rest.drop hostText.length)⟩
    else if isSlash .file a then some ⟨"file", none, none, pathOf .file (b :: rest)⟩
    else some ⟨"file", none, none, pathOf .file cs⟩
  | [a] => some ⟨"file", none, none, pathOf .file (if isSlash .file a then [] else cs)⟩
  | [] => some ⟨"file", none, none, "/"⟩

/-- Reads what follows a scheme outside the web. -/
def other? (scheme : String) (cs : List Char) : Option Uri :=
  match cs with
  | '/' :: '/' :: rest => withHost? scheme rest
  | '/' :: rest => some ⟨scheme, none, none, pathOf .other rest⟩
  | cs =>
    let path := cs.takeWhile fun c => c ≠ '?' && c ≠ '#'
    some ⟨scheme, none, none, String.ofList (Host.percentEncode (fun _ => false) path)⟩

/-- Reads an absolute address. -/
def parse? (text : String) : Option Uri := do
  let cs := Text.trimWhile (fun c => c.toNat ≤ 0x20) text.toList
  let cs := cs.filter fun c => c ≠ '\t' && c ≠ '\n' && c ≠ '\r'
  let (scheme, rest) ← scheme? cs
  match styleOf scheme with
  | .web => withHost? scheme (rest.dropWhile fun c => c = '/' || c = '\\')
  | .file => file? rest
  | .other => other? scheme rest

end Uri

end ApiTypes
