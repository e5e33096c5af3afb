/-
# Wildcards

A pattern stands for all paths that it matches.  It is cut into steps at its slashes, and a step
matches one name: `?` stands for a character, `*` for any number of them, `[…]` for one of a
set, and `[!…]` for one that is not in the set.  The step `**` stands for any number of
directories.

* `Wildcard.namePattern?` reads a step, `Wildcard.accepts` matches it with a name.
* `Wildcard.paths` lists the paths of a tree that match a pattern.
-/
import ApiTypes.Command.FileTree

namespace ApiTypes.Wildcard

/-! ## 1. Names -/

/-- A part of a pattern for names. -/
inductive Part where
  | character (c : Char)
  | anyCharacter
  | anyText
  /-- A character that lies in one of some ranges, both ends of which belong to them. -/
  | oneOf (ranges : List (Char × Char))
  /-- A character that lies in none of some ranges. -/
  | noneOf (ranges : List (Char × Char))
  deriving DecidableEq, Repr

/-- Whether a character lies in one of some ranges. -/
def inRanges (ranges : List (Char × Char)) (c : Char) : Bool :=
  ranges.any fun (low, high) => low ≤ c && c ≤ high

/-- Whether a part that stands for one character stands for a given one. -/
def Part.admits (c : Char) : Part → Bool
  | character d => c = d
  | anyCharacter => true
  | anyText => false
  | oneOf ranges => inRanges ranges c
  | noneOf ranges => !inRanges ranges c

/-- The character that a part stands for, if it is no wildcard. -/
def Part.character? : Part → Option Char
  | character c => some c
  | _ => none

/-- Whether a pattern matches a name. -/
def accepts : List Part → List Char → Bool
  | [], name => name.isEmpty
  | .anyText :: parts, name =>
    (List.range (name.length + 1)).any fun n => accepts parts (name.drop n)
  | _ :: _, [] => false
  | part :: parts, c :: name => part.admits c && accepts parts name

/-- The name that a pattern without wildcards is. -/
def literal? (parts : List Part) : Option String :=
  (parts.mapM Part.character?).map String.ofList

/-! ## 2. Reading patterns -/

/-- The ranges of a set; a character that is not part of one is a range of its own. -/
def rangesOf : List Char → List (Char × Char)
  | low :: '-' :: high :: cs => (low, high) :: rangesOf cs
  | c :: cs => (c, c) :: rangesOf cs
  | [] => []

/-- Cuts a set off, at the first closing bracket that is not the first character of the set. -/
def cutSet? : List Char → Option (List (Char × Char) × List Char)
  | [] => none
  | c :: cs =>
    match Text.cutAtFirst ']' cs with
    | (inside, some rest) => some (rangesOf (c :: inside), rest)
    | (_, none) => none

theorem length_lt_of_cutSet? {cs rest : List Char} {ranges : List (Char × Char)}
    (h : cutSet? cs = some (ranges, rest)) : rest.length < cs.length := by
  cases cs with
  | nil => simp [cutSet?] at h
  | cons c cs =>
    simp only [cutSet?] at h
    split at h
    · next inside rest' hcut =>
      obtain ⟨-, rfl⟩ : rangesOf (c :: inside) = ranges ∧ rest' = rest := by simpa using h
      rw [Text.eq_append_of_cutAtFirst hcut]
      simp only [List.length_cons, List.length_append]
      omega
    · simp at h

/-- The pattern that a text spells, if it spells one: every set is closed, and no two stars
stand together. -/
def namePattern? (cs : List Char) : Option (List Part) :=
  match cs with
  | [] => some []
  | '?' :: cs => (namePattern? cs).map (.anyCharacter :: ·)
  | '*' :: '*' :: _ => none
  | '*' :: cs => (namePattern? cs).map (.anyText :: ·)
  | '[' :: '!' :: cs =>
    match h : cutSet? cs with
    | some (ranges, rest) =>
      have := length_lt_of_cutSet? h
      (namePattern? rest).map (.noneOf ranges :: ·)
    | none => none
  | '[' :: cs =>
    match h : cutSet? cs with
    | some (ranges, rest) =>
      have := length_lt_of_cutSet? h
      (namePattern? rest).map (.oneOf ranges :: ·)
    | none => none
  | c :: cs => (namePattern? cs).map (.character c :: ·)
termination_by cs.length
decreasing_by all_goals simp_all; try omega

/-- A step of a pattern. -/
inductive Step where
  /-- Any number of directories. -/
  | anyDepth
  | name (parts : List Part)
  deriving DecidableEq, Repr

/-- The step that a text spells. -/
def step? (cs : List Char) : Option Step :=
  if cs = ['*', '*'] then some .anyDepth else (namePattern? cs).map .name

/-- The steps of a pattern after the slash at its front, if it has one.  A slash at the end adds
no step. -/
def steps? (pattern : String) : Option (List Step) :=
  let cs := pattern.toList
  let stretches := Text.pieces '/' (if cs.head? = some '/' then cs.drop 1 else cs)
  (if stretches.getLast? = some [] then stretches.dropLast else stretches).mapM step?

/-! ## 3. Matching paths -/

/-- The path of an entry of a directory; the working directory is not written. -/
def entry (directory name : String) : String :=
  if FilePath.same directory "." then name else FilePath.entry directory name

/-- The entries of a directory that a step matches, and those at any depth under it. -/
def entries (t : FileTree) (directory : String) (parts : List Part) (deep : Bool) :
    List String :=
  ((t.below directory).filter fun names =>
    (deep || names.length = 1) && (names.getLast?.map fun n => accepts parts n.toList).getD false
  ).map fun names => names.foldl entry directory

/-- What a step leads to from a directory.  A name without wildcards is looked up.  The names
`.` and `..` are matched if the pattern starts with a point. -/
def next (t : FileTree) (directory : String) (parts : List Part) : List String :=
  match literal? parts with
  | some name =>
    let path := entry directory name
    if name = "." || name = ".." then if t.isDirectory directory then [path] else []
    else if t.has path then [path] else []
  | none =>
    let special := if parts.head? = some (.character '.') && t.isDirectory directory then
        [".", ".."].filter fun name => accepts parts name.toList
      else []
    entries t directory parts false ++ special.map (FilePath.entry directory)

/-- The paths that some steps lead to from a path. -/
def follow (t : FileTree) : List Step → String → List String
  | [], path => [path]
  | .name parts :: rest, path => (next t path parts).flatMap (follow t rest)
  | [.anyDepth], path => (entries t path [.anyText] true).filter t.isDirectory
  | .anyDepth :: .anyDepth :: rest, path => follow t (.anyDepth :: rest) path
  | .anyDepth :: .name parts :: rest, path =>
    (entries t path parts true).flatMap (follow t rest)

/-- The paths of a tree that match a pattern, or nothing if it is malformed.  A pattern that
ends with a slash matches directories only. -/
def paths (t : FileTree) (pattern : String) : Option (List String) := do
  let start := if pattern.toList.head? = some '/' then "/" else "."
  let found := follow t (← steps? pattern) start
  return if pattern.toList.getLast? = some '/' then found.filter t.isDirectory else found

end ApiTypes.Wildcard
