/-
# Pointers

A pointer names a node of a document by the keys and positions on the way to it from the
root.  Its text is a fragment: `#` and, for each segment, a slash and the segment with `~`
written `~0` and `/` written `~1`.  Reading undoes these two and decodes percent signs as well.

* `Pointer.text` and `Pointer.parse?` write and read a pointer.
* `Pointer.find?` follows a pointer through a JSON value.
* `Pointer.insert` adds a pointer to an ascending list without repetition, which is how a set
  of pointers is kept: two such lists with the same members are the same list.
-/
import ApiTypes.Json.Basic
import ApiTypes.Text.Basic
import ApiTypes.Text.Utf8

namespace ApiTypes

/-- The way from the root of a document to a node. -/
structure Pointer where
  segments : List String
  deriving DecidableEq, Repr, Inhabited

namespace Pointer

/-! ## 1. Building -/

/-- The document itself. -/
def root : Pointer := ⟨[]⟩

/-- One step further. -/
def child (p : Pointer) (segment : String) : Pointer := ⟨p.segments ++ [segment]⟩

/-- Several steps further. -/
def descend (p : Pointer) (segments : List String) : Pointer := ⟨p.segments ++ segments⟩

/-- The item of an array. -/
def item (p : Pointer) (index : Nat) : Pointer := p.child (toString index)

/-- The enclosing node; the root has none. -/
def parent? (p : Pointer) : Option Pointer :=
  if p.segments = [] then none else some ⟨p.segments.dropLast⟩

/-- The last segment; the root has none. -/
def last? (p : Pointer) : Option String := p.segments.getLast?

/-- Whether the pointer is the root. -/
def isRoot (p : Pointer) : Bool := p.segments.isEmpty

@[simp] theorem parent?_child (p : Pointer) (s : String) : (p.child s).parent? = some p := by
  simp [parent?, child]

@[simp] theorem last?_child (p : Pointer) (s : String) : (p.child s).last? = some s := by
  simp [last?, child]

theorem child_inj {p q : Pointer} {s t : String} : p.child s = q.child t ↔ p = q ∧ s = t := by
  constructor
  · intro h
    have hparent := congrArg parent? h
    have hlast := congrArg last? h
    simp only [parent?_child, last?_child, Option.some.injEq] at hparent hlast
    exact ⟨hparent, hlast⟩
  · rintro ⟨rfl, rfl⟩
    rfl

/-! ## 2. Text -/

/-- A character of a segment in the text of a pointer. -/
def encodeChar (c : Char) : List Char :=
  if c = '~' then ['~', '0'] else if c = '/' then ['~', '1'] else [c]

/-- A segment in the text of a pointer. -/
def encodeSegment (cs : List Char) : List Char := cs.flatMap encodeChar

/-- Undoes the two escapes; a tilde before anything else stands for itself. -/
def unescape : List Char → List Char
  | '~' :: '0' :: cs => '~' :: unescape cs
  | '~' :: '1' :: cs => '/' :: unescape cs
  | c :: cs => c :: unescape cs
  | [] => []

/-- The segment that a stretch between slashes stands for. -/
def decodeSegment (cs : List Char) : List Char := Text.percentDecode (unescape cs)

/-- The fragment of a pointer. -/
def chars (p : Pointer) : List Char :=
  '#' :: p.segments.flatMap fun s => '/' :: encodeSegment s.toList

/-- The text of a pointer. -/
def text (p : Pointer) : String := String.ofList p.chars

/-- The pointer that a fragment spells: `#` alone, or `#/` and segments. -/
def parseChars? : List Char → Option Pointer
  | ['#'] => some root
  | '#' :: '/' :: cs =>
    some ⟨(Text.pieces '/' cs).map fun s => String.ofList (decodeSegment s)⟩
  | _ => none

/-- The pointer that a text spells, if it is the fragment of one. -/
def parse? (text : String) : Option Pointer := parseChars? text.toList

/-- Undoing the escapes of a segment gives the segment. -/
theorem unescape_encodeSegment (cs : List Char) : unescape (encodeSegment cs) = cs := by
  induction cs with
  | nil => rfl
  | cons c cs ih =>
    by_cases h : c = '~'
    · subst h; simpa [encodeSegment, encodeChar, unescape] using ih
    · by_cases h' : c = '/'
      · subst h'; simpa [encodeSegment, encodeChar, unescape] using ih
      · simp only [encodeSegment, List.flatMap_cons, encodeChar, h, h', if_false,
          List.cons_append, List.nil_append]
        rw [unescape]
        · exact congrArg _ ih
        · rintro _ rfl; exact absurd rfl h
        · rintro _ rfl; exact absurd rfl h

/-! ## 3. Following a pointer -/

/-- The position that a segment names in an array: digits, with at most a plus sign in front,
whose value fits 64 bits. -/
def position? (segment : String) : Option Nat :=
  let digits := match segment.toList with
    | '+' :: cs => cs
    | cs => cs
  if digits ≠ [] && digits.all Char.isDigit && digitsValue digits < Nat.pow 2 64 then
    some (digitsValue digits)
  else none

/-- The node one segment below a value. -/
def step? (v : Json) (segment : String) : Option Json :=
  match v with
  | .object fields => Json.lookup segment fields
  | .array items => (position? segment).bind (items[·]?)
  | _ => none

/-- The node that a list of segments leads to. -/
def findFrom? (v : Json) : List String → Option Json
  | [] => some v
  | s :: rest => (step? v s).bind (findFrom? · rest)

/-- The node that a pointer names. -/
def find? (root : Json) (p : Pointer) : Option Json := findFrom? root p.segments

/-! ## 4. Sets of pointers -/

/-- Pointers are compared by their segments, so an enclosing node comes before the nodes in
it. -/
def precedes (p q : Pointer) : Bool := Text.precedes p.segments q.segments

/-- Adds a pointer to an ascending list, in its place; one that is there is not repeated. -/
def insert (p : Pointer) : List Pointer → List Pointer
  | [] => [p]
  | q :: qs =>
    if p = q then q :: qs
    else if p.precedes q then p :: q :: qs
    else q :: insert p qs

/-- Inserting adds the pointer and nothing else. -/
@[simp] theorem mem_insert {p q : Pointer} {ps : List Pointer} :
    q ∈ insert p ps ↔ q = p ∨ q ∈ ps := by
  induction ps with
  | nil => simp [insert]
  | cons r rs ih =>
    unfold insert
    split
    · subst_vars; simp
    · split
      · simp
      · simp only [List.mem_cons, ih]
        constructor
        · rintro (h | h | h) <;> simp [h]
        · rintro (h | h | h) <;> simp [h]

end Pointer

end ApiTypes
