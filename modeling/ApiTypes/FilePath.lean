/-
# File paths

A path is a text whose components stand between slashes.  Two texts can be the same path: a
repeated slash, a slash at the end and a `.` inside change nothing, while a `.` at the front
and a `..` anywhere are components of their own.

* `FilePath.components` gives the components, `FilePath.same` and `FilePath.atMost` compare by
  them.
* `FilePath.name?`, `FilePath.stem?` and `FilePath.extension?` take the last component apart.
-/
import ApiTypes.Text.Basic

namespace ApiTypes.FilePath

/-- A component of a path. -/
inductive Component where
  | root
  | current
  | parent
  | named (name : String)
  deriving DecidableEq, Repr

/-- The component that a stretch between slashes makes, if it makes one. -/
def component? (cs : List Char) : Option Component :=
  if cs = [] || cs = ['.'] then none
  else if cs = ['.', '.'] then some .parent
  else some (.named (String.ofList cs))

/-- The components of a path. -/
def components (path : String) : List Component :=
  let parts := Text.pieces '/' path.toList
  let front : List Component :=
    if path.toList.head? = some '/' then [.root]
    else if parts.head? = some ['.'] then [.current]
    else []
  front ++ parts.filterMap component?

/-- Whether two texts are the same path. -/
def same (a b : String) : Bool := components a = components b

/-- A text that sorts as a component does: names come last, by their code points. -/
def Component.sortKey : Component → String
  | .root => "0"
  | .current => "1"
  | .parent => "2"
  | .named name => "3" ++ name

/-- Whether a path is sorted before another or with it. -/
def atMost (a b : String) : Bool :=
  !Text.precedes ((components b).map Component.sortKey) ((components a).map Component.sortKey)

/-- The last component, if it names something. -/
def name? (path : String) : Option String :=
  match (components path).getLast? with
  | some (.named name) => some name
  | _ => none

/-- A name cut at its last dot; a name without a dot after its first character is not cut. -/
def cutName (name : String) : String × Option String :=
  let cs := name.toList
  let after := (cs.reverse.takeWhile (· ≠ '.')).reverse
  let before := cs.take (cs.length - after.length - 1)
  if !cs.contains '.' || before = [] || name = ".." then (name, none)
  else (String.ofList before, some (String.ofList after))

/-- The name without its extension. -/
def stem? (path : String) : Option String := (name? path).map fun n => (cutName n).1

/-- What follows the last dot of the name. -/
def extension? (path : String) : Option String := (name? path).bind fun n => (cutName n).2

/-- The path of an entry of a directory. -/
def entry (directory name : String) : String :=
  if directory = "" || directory.toList.getLast? = some '/' then directory ++ name
  else directory ++ "/" ++ name

end ApiTypes.FilePath
