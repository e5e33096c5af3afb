/-
# Output

What is made of a document: the text of each section by itself, and the files to be written,
which are the module of types and, if the options ask for it, the catalog.

* `Document.output` makes the output of a document.
-/
import ApiTypes.Output.Catalog
import ApiTypes.Output.Module

namespace ApiTypes

/-- The parts that are shown by themselves. -/
inductive Section where
  | paths
  | webhooks
  | components
  | operation (name : String)
  deriving DecidableEq, Repr

/-- The name of a section. -/
def Section.name : Section → String
  | .paths => "paths"
  | .webhooks => "webhooks"
  | .components => "components"
  | .operation name => "operations[" ++ Text.quote name ++ "]"

/-- The texts of the sections, and the contents of the files by name. -/
structure Output where
  sections : List (Section × String)
  files : List (String × String)

namespace Output

/-- The file of the module of types. -/
def typesFile : String := "types.ts"

/-- The texts of the sections. -/
def sectionTexts (config : Config) (d : TypedDocument) : List (Section × String) :=
  [(.paths, d.paths.render), (.webhooks, d.webhooks.render), (.components, d.components.render)]
    ++ (shownOperations config d.operations).map fun o => (.operation o.name, o.type.render)

/-- The files to be written. -/
def filesOf (config : Config) (s : Spec) (d : TypedDocument) : List (String × String) :=
  (typesFile, typesModule config d)
    :: (if config.catalog then Catalog.files config s d.operations else [])

/-- The contents of the module of types. -/
def moduleText (o : Output) : String := (o.files.lookup typesFile).getD ""

end Output

/-- The output for a document. -/
def Document.output (config : Config) (d : Document) : Except Fault Output := do
  let typed ← d.typed config
  return ⟨Output.sectionTexts config typed, Output.filesOf config d.spec typed⟩

end ApiTypes
