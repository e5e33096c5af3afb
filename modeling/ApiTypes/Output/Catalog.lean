/-
# The catalog

The catalog lists the operations of the paths by tag.  Each tag has two files of one stem: the
one declares which operation a path and a method invoke, the other holds what a client needs to
know when it calls them, the names of header and cookie parameters.

* `Catalog.groups` groups operations by tag and path.
* `Catalog.files` writes the files.
-/
import ApiTypes.Json.Printer
import ApiTypes.TypeExpr.Render
import ApiTypes.Typing.Document

namespace ApiTypes.Catalog

/-! ## 1. Groups -/

/-- Changes the entry of a key; a key that is not there gets an entry at the end. -/
def updateAt {α : Type} (key : String) (fresh : α) (change : α → α) :
    List (String × α) → List (String × α)
  | [] => [(key, change fresh)]
  | (k, a) :: rest =>
    if k = key then (k, change a) :: rest else (k, a) :: updateAt key fresh change rest

/-- The operations of a tag by path, in the order in which they are met. -/
abbrev Group := List (String × List TypedOperation)

/-- The tags of an operation, one of which it always has. -/
def tagsOf (o : TypedOperation) : List String := if o.tags.isEmpty then ["default"] else o.tags

/-- Adds an operation to the group of a tag. -/
def addTo (groups : List (String × Group)) (entry : String × TypedOperation) :
    List (String × Group) :=
  updateAt entry.1 [] (updateAt entry.2.path [] (· ++ [entry.2])) groups

/-- The operations of paths, once for each tag that they declare. -/
def entries (operations : Registry) : List (String × TypedOperation) :=
  (operations.filter (·.kind = .path)).flatMap fun o => (tagsOf o).map (·, o)

/-- The groups of all tags, in the order in which the tags are met. -/
def groups (operations : Registry) : List (String × Group) := (entries operations).foldl addTo []

/-! ## 2. Files -/

/-- The lines of a path in the first file. -/
def pathLines (path : String) (os : List TypedOperation) : List String :=
  ["  " ++ Text.quote path ++ ": \x7b"]
    ++ os.map (fun o =>
      "    " ++ o.method.name ++ ": Invokable<operations[" ++ Text.quote o.name ++ "]>")
    ++ ["  \x7d"]

/-- The file that declares the paths of a tag. -/
def apiFile (runtimeModule stem : String) (description : Option String) (g : Group) : String :=
  Text.join "\n" <|
    (description.map (TypeExpr.docBlock · 0)).toList
      ++ ["import \x7b NewApis, Invokable \x7d from " ++ Text.quote runtimeModule,
        "import \x7b operations \x7d from \"../types\"",
        "import data from " ++ Text.quote ("../data/" ++ stem),
        "",
        "export type paths = \x7b"]
      ++ g.flatMap (fun (path, os) => pathLines path os)
      ++ ["\x7d", "", "export default NewApis<paths>(data)", ""]

/-- A list of names under a key, unless it is empty. -/
def namesField (key : String) (names : List String) : List (String × Json) :=
  if names.isEmpty then [] else [(key, .array (names.map .string))]

/-- What a client needs to know about an operation. -/
def operationData (o : TypedOperation) : Json :=
  .object (namesField "headers" o.headerParams ++ namesField "cookies" o.cookieParams)

/-- What a client needs to know about the operations of a path, by method. -/
def pathData (os : List TypedOperation) : Json :=
  .object (os.foldl (fun fields o => Json.setField o.method.name (operationData o) fields) [])

/-- The file that holds what a client needs to know about the paths of a tag. -/
def dataFile (server : String) (g : Group) : String :=
  "export default "
    ++ Json.indented (.object [("server", .string server),
      ("paths", .object (g.map fun (path, os) => (path, pathData os)))])
    ++ "\n"

/-- The name of the server: the title of the document. -/
def serverName (s : Spec) : String := (s.info.title.filter (· ≠ "")).getD "default"

/-- What the document says about a tag. -/
def tagDescription (s : Spec) (tag : String) : Option String :=
  ((s.tags.find? (·.name = tag)).bind (·.description)).filter fun d => Text.trim d ≠ ""

/-- The two files of a tag, by name. -/
def tagFiles (config : Config) (s : Spec) (tag stem : String) (g : Group) :
    List (String × String) :=
  [("api/" ++ stem ++ ".ts", apiFile config.runtimeModule stem (tagDescription s tag) g),
    ("data/" ++ stem ++ ".js", dataFile (serverName s) g)]

/-- The files of the catalog. -/
def files (config : Config) (s : Spec) (operations : Registry) : List (String × String) :=
  let groups := groups operations
  let stems := Naming.distinctNames (groups.map fun (tag, _) => Naming.fileStem tag)
  (groups.zip stems).flatMap fun ((tag, g), stem) => tagFiles config s tag stem g

end ApiTypes.Catalog
