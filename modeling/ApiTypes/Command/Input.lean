/-
# The input of a command

One text says where the documents are: an address, a directory, a file or a pattern.  Without
it, or for a hyphen, the document is the standard input.

* `Source.ofInput` lists the sources of an input, and of several in the order of their paths.
-/
import ApiTypes.Command.Fault
import ApiTypes.Command.Source
import ApiTypes.Command.Wildcard

namespace ApiTypes.Source

/-- Whether an input is the address of a document. -/
def isAddress (input : String) : Bool :=
  "http://".toList.isPrefixOf input.toList || "https://".toList.isPrefixOf input.toList

/-- The extensions of the files that are read from a directory. -/
def extensions : List String := ["yaml", "yml", "json"]

/-- Whether a file is read from a directory. -/
def isDocument (path : String) : Bool :=
  (FilePath.extension? path).any fun e => extensions.contains (e.map Char.toLower)

/-- The documents in a directory, at any depth. -/
def underDirectory (t : FileTree) (directory : String) : Except CommandFault (List Source) :=
  let inOrder := (t.below directory).mergeSort fun a b => !Text.precedes b a
  let paths := inOrder.map fun names => names.foldl FilePath.entry directory
  match paths.filter fun path => t.isFile path && isDocument path with
  | [] => .error (.noDocumentsUnder directory)
  | found => .ok (found.map .file)

/-- The files that match a pattern. -/
def matching (t : FileTree) (pattern : String) : Except CommandFault (List Source) :=
  match Wildcard.paths t pattern with
  | none => .error (.malformedPattern pattern)
  | some paths =>
    match (paths.filter t.isFile).mergeSort FilePath.atMost with
    | [] => .error (.noFilesMatch pattern)
    | found => .ok (found.map .file)

/-- Whether an input has wildcards. -/
def isPattern (input : String) : Bool := input.toList.any fun c => ['*', '?', '['].contains c

/-- Whether an input stands for files that have to be looked for. -/
def isSearch (t : FileTree) (input : String) : Bool :=
  !isAddress input && (t.isDirectory input || (!t.isFile input && isPattern input))

/-- The sources of the documents that an input stands for. -/
def ofInput (t : FileTree) (input : Option String) : Except CommandFault (List Source) :=
  match input.filter (· ≠ "-") with
  | none => .ok [.standardInput]
  | some input =>
    if isAddress input then .ok [.url input]
    else if t.isDirectory input then underDirectory t input
    else if t.isFile input then .ok [.file input]
    else if isPattern input then matching t input
    else .error (.inputNotFound input)

end ApiTypes.Source
