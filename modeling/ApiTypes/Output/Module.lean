/-
# The module of types

The types of a document are declared in one module: its paths, webhooks and components, and
its operations under their names.

* `Output.typesModule` writes the module.
-/
import ApiTypes.TypeExpr.Render
import ApiTypes.Typing.Document

namespace ApiTypes.Output

/-- The comment at the head of the module. -/
def banner : String :=
  "/**\n * This file was auto-generated by oats.\n"
    ++ " * Do not make direct changes to the file.\n */\n"

/-- The operations in the order in which they are shown. -/
def shownOperations (config : Config) (operations : Registry) : List TypedOperation :=
  (ordered config.alphabetize (operations.map fun o => (o.name, o))).map (·.2)

/-- The record of all operations. -/
def operationsRecord (config : Config) (operations : Registry) : TypeExpr :=
  .closed ((shownOperations config operations).map fun o =>
    .of o.name o.type false config.immutableTypes o.doc)

/-- The declaration of a name.  Records that hold something are declared in the style asked
for, all other types as aliases. -/
def declaration (style : ExportStyle) (name : String) (e : TypeExpr) : String :=
  let asAlias := "export type " ++ name ++ " = " ++ e.render ++ ";\n\n"
  match style, e with
  | .interface, .record r =>
    if r.isEmpty then asAlias
    else "export interface " ++ name ++ " " ++ TypeExpr.renderRecord 0 r ++ "\n\n"
  | _, _ => asAlias

/-- The text of the module. -/
def typesModule (config : Config) (d : TypedDocument) : String :=
  let declared := declaration config.exportStyle
  banner ++ "\nexport type WithHeaders<Content, Headers> = Content;\n\n"
    ++ declared "paths" d.paths ++ declared "webhooks" d.webhooks
    ++ declared "components" d.components
    ++ "export type external = Record<string, never>;\n\n"
    ++ declared "operations" (operationsRecord config d.operations)

end ApiTypes.Output
