/-
# Where documents come from

A document is read from a file, fetched from an address, or given on the standard input.  When
several documents are written to one directory, each has a directory of its own there, whose
name comes from that of its source.

* `Source.stem` is the name of a source without its extension.
* `Source.directories` gives the names of the directories, which differ.
-/
import ApiTypes.FilePath
import ApiTypes.Naming
import ApiTypes.Text.Basic

namespace ApiTypes

/-- Where a document comes from. -/
inductive Source where
  | standardInput
  | file (path : String)
  | url (address : String)
  deriving DecidableEq, Repr

namespace Source

/-- The name of a source in messages. -/
def display : Source → String
  | standardInput => "<stdin>"
  | file path => path
  | url address => address

/-- The last part of the path of an address, which ends before a query or a fragment. -/
def urlName (url : List Char) : List Char :=
  let address := Text.dropEndWhile (· = '/') (url.takeWhile fun c => c ≠ '?' && c ≠ '#')
  (Text.pieces '/' address).getLast?.getD []

/-- The name without its extension, if the source has a name. -/
def ownStem? : Source → Option String
  | standardInput => none
  | file path => FilePath.stem? path
  | url address => FilePath.stem? (String.ofList (urlName address.toList))

/-- The name of a source without its extension; a source with no name that can be used is
called `api`. -/
def stem (s : Source) : String :=
  (s.ownStem?.filter fun name => name ≠ "" && !name.toList.contains ':').getD "api"

/-- The names of the directories of some sources. -/
def directories (sources : List Source) : List String := Naming.distinctNames (sources.map stem)

end Source

end ApiTypes
