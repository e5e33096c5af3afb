/-
# Trees of files

A command sees the files of a tree.  It names them by paths from its working directory on, and a
path says step by step which way to go; different paths can lead to one place.

* `FileTree.locate?` follows a path, `FileTree.read?` reads the file at its end.
* `FileTree.below` lists what is in a directory, at any depth.
* `FileTree.write?` writes a file, and makes the directories that it needs;
  `FileTree.contents?_put` says that it is there afterwards.
* `FileTree.changes` compares a tree with an earlier one.
-/
import ApiTypes.FilePath

namespace ApiTypes

/-! ## 1. Places -/

/-- A place: the steps to it from the working directory, of which those to a parent come first.
A step to the root can only be the first one. -/
abbrev Location := List FilePath.Component

namespace Location

/-- The directory that holds a place. -/
def parent (l : Location) : Location :=
  match l.getLast? with
  | none | some .parent | some .current => l ++ [.parent]
  | some .root => l
  | some (.named _) => l.dropLast

/-- The place to which a stretch of a path leads.  An empty stretch and a `.` stay. -/
def step (l : Location) (stretch : List Char) : Location :=
  match FilePath.component? stretch with
  | some (.named name) => l ++ [.named name]
  | some .parent => l.parent
  | _ => l

/-- The name in a step, if it has one. -/
def name? : FilePath.Component → Option String
  | .named name => some name
  | _ => none

/-- The names on the way down from a place to another. -/
def namesTo? (l target : Location) : Option (List String) :=
  (l.isPrefixOf? target).bind fun rest => rest.mapM name?

/-- A step as it is written. -/
def stepText : FilePath.Component → String
  | .root => ""
  | .current => "."
  | .parent => ".."
  | .named name => name

/-- The path of a place. -/
def path (l : Location) : String := Text.join "/" (l.map stepText)

/-- Whether a place is in the working directory. -/
def isInside (l : Location) : Bool := l.all fun c => (name? c).isSome

end Location

/-! ## 2. Looking -/

/-- Files with their contents, and directories, which need not hold anything. -/
structure FileTree where
  files : List (Location × String) := []
  directories : List Location := []

namespace FileTree

/-- The places of a tree that are named. -/
def places (t : FileTree) : List Location := t.files.map (·.1) ++ t.directories

/-- The contents of the file at a place. -/
def contents? (t : FileTree) (l : Location) : Option String := t.files.lookup l

/-- Whether there is a directory at a place: the working directory and those that hold it, and
whatever holds a place of the tree. -/
def isDirectoryAt (t : FileTree) (l : Location) : Bool :=
  l.all (· = .parent) || l = [.root] || t.directories.contains l
    || t.places.any fun target => target ≠ l && (l.namesTo? target).isSome

/-- Follows the stretches of a path.  Each of them is looked up in a directory. -/
def follow? (t : FileTree) : Location → List (List Char) → Option Location
  | l, [] => some l
  | l, stretch :: rest =>
    if t.isDirectoryAt l then t.follow? (l.step stretch) rest else none

/-- Where a path starts. -/
def start (path : String) : Location := if path.toList.head? = some '/' then [.root] else []

/-- The place to which a path leads. -/
def locate? (t : FileTree) (path : String) : Option Location :=
  if path = "" then none else t.follow? (start path) (Text.pieces '/' path.toList)

/-- The contents of the file at the end of a path. -/
def read? (t : FileTree) (path : String) : Option String := (t.locate? path).bind t.contents?

/-- Whether a path leads to a file. -/
def isFile (t : FileTree) (path : String) : Bool := (t.read? path).isSome

/-- Whether a path leads to a directory. -/
def isDirectory (t : FileTree) (path : String) : Bool :=
  ((t.locate? path).filter t.isDirectoryAt).isSome

/-- Whether a path leads to anything. -/
def has (t : FileTree) (path : String) : Bool := t.isFile path || t.isDirectory path

/-- The beginnings of a list, but for the empty one. -/
def beginnings {α : Type} (as : List α) : List (List α) :=
  (List.range as.length).map fun n => as.take (n + 1)

/-- What is in a directory, at any depth: the names on the way to it. -/
def below (t : FileTree) (directory : String) : List (List String) :=
  match t.locate? directory with
  | none => []
  | some l => ((t.places.filterMap l.namesTo?).flatMap beginnings).eraseDups

/-! ## 3. Writing -/

/-- Follows the stretches of a path, and makes the directories that are not there. -/
def make? (t : FileTree) : Location → List (List Char) → Option (FileTree × Location)
  | l, [] => if (t.contents? l).isSome then none else some (t, l)
  | l, stretch :: rest =>
    if (t.contents? l).isSome then none
    else ({ t with directories := (l :: t.directories).eraseDups } : FileTree).make?
      (l.step stretch) rest

/-- Makes a directory, and those that it is in. -/
def makeDirectory? (t : FileTree) (path : String) : Option FileTree := do
  let (made, l) ← t.make? (start path) (Text.pieces '/' path.toList)
  return { made with directories := l :: made.directories }

/-- A tree with a file at a place. -/
def put (t : FileTree) (l : Location) (contents : String) : FileTree :=
  { t with files := (l, contents) :: t.files.filter fun f => f.1 ≠ l }

/-- Writes a file of a directory; its name can have directories of its own in front. -/
def write? (t : FileTree) (directory name contents : String) : Option FileTree := do
  let path := FilePath.entry directory name
  let stretches := Text.pieces '/' path.toList
  let (made, l) ← t.make? (start path) stretches.dropLast
  let file := l.step (stretches.getLast?.getD [])
  if made.isDirectoryAt file then none else some (made.put file contents)

/-- Writes files to a directory until one cannot be written; says whether all were. -/
def writeAll (t : FileTree) (directory : String) : List (String × String) → Bool × FileTree
  | [] => (true, t)
  | (name, contents) :: rest =>
    match t.write? directory name contents with
    | some written => written.writeAll directory rest
    | none => (false, t)

/-- A file that is put somewhere is there. -/
theorem contents?_put (t : FileTree) (l : Location) (contents : String) :
    (t.put l contents).contents? l = some contents := by
  simp [put, contents?]

/-! ## 4. Comparing -/

/-- The files of a tree that an earlier one does not have, or not with these contents, in the
order of their paths. -/
def changes (t earlier : FileTree) : List (Location × String) :=
  (t.files.filter fun (l, contents) => earlier.contents? l ≠ some contents).mergeSort
    fun a b => a.1.path ≤ b.1.path

end FileTree

end ApiTypes
