/-
# Texts

White space is the property of that name in the Unicode standard, so a text in any script is
trimmed the same way.  A line feed ends a line, and a carriage return right before it belongs to
the line end; the last line need not be ended, and an empty rest after the last line feed is no
line.  A JSON string stands between quotation marks; inside it the quotation mark, the backslash
and the control characters below U+0020 are escaped and every other character stands for itself.

* `Text.isBlank` is the property, `Text.trim` removes white space from both ends.
* `Text.pieces` cuts a text at every separator, `Text.cutAtFirst` at the first one only, and
  `Text.join` puts a separator between texts.
* `Text.lines` gives the lines.
* `Text.precedes` is the order in which a dictionary has lists of texts: the first difference
  decides, and a list comes before those that go on after it.
* `Text.escape` escapes one character, `Text.quote` writes a whole string.
-/
namespace ApiTypes.Text

/-! ## 1. White space -/

/-- The characters with the property White_Space. -/
def isBlank (c : Char) : Bool :=
  let n := c.toNat
  (9 ≤ n && n ≤ 13) || n = 0x20 || n = 0x85 || n = 0xA0 || n = 0x1680
    || (0x2000 ≤ n && n ≤ 0x200A) || n = 0x2028 || n = 0x2029 || n = 0x202F || n = 0x205F
    || n = 0x3000

/-- Removes from the end the characters that satisfy `p`. -/
def dropEndWhile (p : Char → Bool) (cs : List Char) : List Char :=
  (cs.reverse.dropWhile p).reverse

/-- Removes the characters that satisfy `p` from both ends. -/
def trimWhile (p : Char → Bool) (cs : List Char) : List Char :=
  dropEndWhile p (cs.dropWhile p)

/-- The text without white space at its ends. -/
def trim (s : String) : String := String.ofList (trimWhile isBlank s.toList)

/-- The text without white space at its end. -/
def trimEnd (s : String) : String := String.ofList (dropEndWhile isBlank s.toList)

/-! ## 2. Cutting and joining -/

/-- The stretches between separators: one more than there are separators. -/
def pieces (separator : Char) : List Char → List (List Char)
  | [] => [[]]
  | c :: cs =>
    if c = separator then [] :: pieces separator cs
    else match pieces separator cs with
      | [] => [[c]]
      | p :: ps => (c :: p) :: ps

/-- What stands before the first separator, and what stands after it if there is one. -/
def cutAtFirst (separator : Char) (cs : List Char) : List Char × Option (List Char) :=
  match cs.dropWhile (· ≠ separator) with
  | [] => (cs, none)
  | _ :: rest => (cs.takeWhile (· ≠ separator), some rest)

/-- The texts with `separator` between each two. -/
def join (separator : String) (texts : List String) : String := separator.intercalate texts

theorem pieces_ne_nil (separator : Char) (cs : List Char) : pieces separator cs ≠ [] := by
  cases cs with
  | nil => simp [pieces]
  | cons c cs =>
    unfold pieces
    split
    · simp
    · split <;> simp

/-- A text without separators is one piece. -/
theorem pieces_of_notMem {separator : Char} {cs : List Char} (h : separator ∉ cs) :
    pieces separator cs = [cs] := by
  induction cs with
  | nil => rfl
  | cons c cs ih =>
    simp only [List.mem_cons, not_or] at h
    simp [pieces, ih h.2, Ne.symm h.1]

/-- A separator ends the first piece. -/
theorem pieces_append {separator : Char} {cs : List Char} (h : separator ∉ cs)
    (rest : List Char) :
    pieces separator (cs ++ separator :: rest) = cs :: pieces separator rest := by
  induction cs with
  | nil => simp [pieces]
  | cons c cs ih =>
    simp only [List.mem_cons, not_or] at h
    simp [pieces, ih h.2, Ne.symm h.1]

/-- Texts without separators are cut apart where they were put together. -/
theorem pieces_flatMap {α : Type} {separator : Char} {f : α → List Char}
    (h : ∀ x, separator ∉ f x) (x : α) (xs : List α) :
    pieces separator (f x ++ xs.flatMap fun y => separator :: f y) = (x :: xs).map f := by
  induction xs generalizing x with
  | nil => rw [List.flatMap_nil, List.append_nil, pieces_of_notMem (h x), List.map_singleton]
  | cons y ys ih =>
    rw [List.flatMap_cons, List.cons_append, pieces_append (h x), ih]
    rfl

/-- What a cut leaves out is the separator. -/
theorem eq_append_of_cutAtFirst {separator : Char} {cs before after : List Char}
    (h : cutAtFirst separator cs = (before, some after)) : cs = before ++ separator :: after := by
  have whole := List.takeWhile_append_dropWhile (p := (· ≠ separator)) (l := cs)
  have stop := List.head?_dropWhile_not (· ≠ separator) cs
  unfold cutAtFirst at h
  split at h
  · simp at h
  · next c rest hrest =>
    obtain ⟨rfl, rfl⟩ : cs.takeWhile (· ≠ separator) = before ∧ rest = after := by simpa using h
    rw [hrest] at whole stop
    have hc : c = separator := by simpa using stop
    rw [hc] at whole
    exact whole.symm

theorem infix_intercalate {α : Type} {separator x : List α} {xs : List (List α)} (h : x ∈ xs) :
    x <:+: separator.intercalate xs := by
  induction xs with
  | nil => cases h
  | cons y rest ih =>
    cases rest with
    | nil =>
      simp [List.mem_singleton.mp h]
    | cons z rest =>
      rw [List.intercalate_cons_cons]
      rcases List.mem_cons.mp h with rfl | h
      · rw [List.append_assoc]
        exact (List.prefix_append _ _).isInfix
      · exact (ih h).trans (List.suffix_append _ _).isInfix

/-- A line stands in the text of all lines. -/
theorem infix_join {separator line : String} {lines : List String} (h : line ∈ lines) :
    line.toList <:+: (join separator lines).toList := by
  rw [join, String.toList_intercalate]
  exact infix_intercalate (List.mem_map.mpr ⟨line, h, rfl⟩)

/-! ## 3. Lines -/

/-- A stretch without the carriage return at its end. -/
def withoutReturn (cs : List Char) : List Char :=
  if cs.getLast? = some '\r' then cs.dropLast else cs

/-- The lines of a text. -/
def lines (cs : List Char) : List (List Char) :=
  let ps := pieces '\n' cs
  let last := ps.getLast?.getD []
  ps.dropLast.map withoutReturn ++ (if last = [] then [] else [last])

/-! ## 4. Order -/

/-- Whether a list of texts comes before another. -/
def precedes : List String → List String → Bool
  | [], [] => false
  | [], _ :: _ => true
  | _ :: _, [] => false
  | a :: as, b :: bs => a < b || (a == b && precedes as bs)

/-! ## 5. Quoted strings -/

/-- A hexadecimal digit, in lower case. -/
def hexChar (n : Nat) : Char := (Nat.toDigits 16 (n % 16)).headD '0'

/-- A character as it stands in a JSON string. -/
def escape (c : Char) : List Char :=
  if c = '"' then ['\\', '"']
  else if c = '\\' then ['\\', '\\']
  else if c.toNat = 8 then ['\\', 'b']
  else if c.toNat = 12 then ['\\', 'f']
  else if c = '\n' then ['\\', 'n']
  else if c = '\r' then ['\\', 'r']
  else if c = '\t' then ['\\', 't']
  else if c.toNat < 0x20 then ['\\', 'u', '0', '0', hexChar (c.toNat / 16), hexChar c.toNat]
  else [c]

/-- The characters of a JSON string. -/
def quoteChars (cs : List Char) : List Char := '"' :: (cs.flatMap escape ++ ['"'])

/-- A text as a JSON string. -/
def quote (s : String) : String := String.ofList (quoteChars s.toList)

end ApiTypes.Text
