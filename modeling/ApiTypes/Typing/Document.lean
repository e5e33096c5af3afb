/-
# The types of a document

Paths and webhooks are typed by records that name their operations; the operations themselves
are registered, each under its own name.  A path item that is reached by several references
registers its operations once; two operations in different places must not share a name.  The
components are typed by a record of six collections, and a collection that is not declared has
the empty type.

* `Document.typed` types a document.
* `Registry.register` registers an operation.
-/
import ApiTypes.Load
import ApiTypes.Typing.Operation
import ApiTypes.Typing.PathTemplate

namespace ApiTypes

/-! ## 1. Registered operations -/

/-- Operations in the order of their discovery, no two of one name. -/
abbrev Registry := List TypedOperation

namespace Registry

/-- The operation of a name. -/
def find? (r : Registry) (name : String) : Option TypedOperation := List.find? (·.name = name) r

/-- Adds an operation; one that is there already must stand in the same place. -/
def register (r : Registry) (o : TypedOperation) : Except Fault Registry :=
  match r.find? o.name with
  | none => .ok (r ++ [o])
  | some known =>
    if known.location = o.location then .ok r
    else .error (.duplicateOperation o.name known.location o.location)

end Registry

/-- A typed document. -/
structure TypedDocument where
  paths : TypeExpr
  webhooks : TypeExpr
  components : TypeExpr
  operations : Registry
  /-- The pointers that references lead to, ascending. -/
  referenced : List Pointer

namespace Typing

/-! ## 2. Path items -/

/-- A member under a key, as read-only as the options say. -/
def memberFor (env : Environment) (key : MemberKey TypeExpr) (type : TypeExpr)
    (doc : Option String := none) : Member TypeExpr :=
  { key, type, readonly := env.config.immutableTypes, doc }

/-- The operations of a path item, typed. -/
def operationsOf (env : Environment) (kind : RouteKind) (path : String) (p : Pointer)
    (item : PathItem) : Typing (List TypedOperation) :=
  item.operations.mapM fun (method, o) =>
    operation env { kind, path, pointer := p, shared := item.parameters } method o

/-- The record of a path item with typed operations, each shown by `show`. -/
def pathRecord (env : Environment) (p : Pointer) (item : PathItem) (os : List TypedOperation)
    (shown : TypedOperation → TypeExpr) : Typing TypeExpr := do
  let members := os.map fun o => memberFor env (.name o.method.name) (shown o) o.doc
  if item.parameters.isEmpty then return .closed members
  else
    let shared ← sharedParameters env p item.parameters
    return .closed (members ++ [memberFor env (.name "parameters") shared])

/-- The path item that a reference at a pointer leads to, and where it stands. -/
def pathItemAt (env : Environment) (target : String) (p : Pointer) :
    Typing (Pointer × PathItem) := do
  let _ ← reference env target p
  lift (env.resolver.resolveAs Decode.pathItem target p)

/-- A path item and where it stands; one that is a reference gives way to its target. -/
def followed (env : Environment) (p : Pointer) (item : PathItem) : Typing (Pointer × PathItem) :=
  match item.reference with
  | some target => pathItemAt env target p
  | none => pure (p, item)

/-- What a path item says about itself. -/
def pathDoc (item : PathItem) : Option String := item.summary.or item.description

/-- A registry with further operations. -/
def registerAll (registry : Registry) (os : List TypedOperation) : Typing Registry :=
  lift (os.foldlM Registry.register registry)

/-! ## 3. Paths and webhooks -/

/-- The key of a path, given its typed operations. -/
def pathKey (env : Environment) (url : String) (os : List TypedOperation) : MemberKey TypeExpr :=
  if env.config.pathParamsAsTypes then PathTemplate.key url (os.flatMap (·.pathParams))
  else .name url

/-- Types a path item under a name, and registers its operations. -/
def route (env : Environment) (kind : RouteKind) (name : String) (p : Pointer) (item : PathItem)
    (keyOf : List TypedOperation → MemberKey TypeExpr) (registry : Registry) :
    Typing (Member TypeExpr × Registry) := do
  let os ← operationsOf env kind name p item
  let type ← pathRecord env p item os fun o => .operation o.name
  let registry ← registerAll registry os
  return (memberFor env (keyOf os) type (pathDoc item), registry)

/-- Types a path. -/
def path (env : Environment) (url : String) (p : Pointer) (item : PathItem)
    (registry : Registry) : Typing (Member TypeExpr × Registry) := do
  let (p, item) ← followed env p item
  route env .path url p item (pathKey env url) registry

/-- Types a webhook. -/
def webhook (env : Environment) (name : String) (p : Pointer) (source : OrRef PathItem)
    (registry : Registry) : Typing (Member TypeExpr × Registry) := do
  let (p, item) ← match source with
    | .ref r => pathItemAt env r.target p
    | .item item => followed env p item
  route env .webhook name p item (fun _ => .name name) registry

/-- Types the entries of a section one after the other, each with the registry that the ones
before it leave. -/
def routes {α : Type}
    (type : String → Pointer → α → Registry → Typing (Member TypeExpr × Registry))
    (base : Pointer) : List (String × α) → Registry → Typing (List (Member TypeExpr) × Registry)
  | [], registry => return ([], registry)
  | (name, part) :: rest, registry => do
    let (member, registry) ← type name (base.child name) part registry
    let (members, registry) ← routes type base rest registry
    return (member :: members, registry)

/-- Types a section; one that is not declared is empty. -/
def sectionOf {α : Type} (env : Environment) (name : String)
    (type : String → Pointer → α → Registry → Typing (Member TypeExpr × Registry))
    (entries : Option (List (String × α))) (registry : Registry) :
    Typing (TypeExpr × Registry) := do
  let entries := ordered env.config.alphabetize (entries.getD [])
  let (members, registry) ← routes type (Pointer.root.child name) entries registry
  return (.closed members, registry)

/-! ## 4. Components -/

/-- The member of a collection of components. -/
def collection {α : Type} (env : Environment) (name : String)
    (type : String → Pointer → α → Typing (Member TypeExpr))
    (entries : Option (List (String × α))) : Typing (Member TypeExpr) :=
  match entries with
  | none => pure (memberFor env (.name name) .never)
  | some entries => do
    let members ← eachNamed env ((Pointer.root.child "components").child name) type entries
    return memberFor env (.name name) (.closed members)

/-- The member of a schema among the components. -/
def schemaComponent (env : Environment) (name : String) (p : Pointer) (s : Schema) :
    Typing (Member TypeExpr) := do
  let type ← schema env 0 p s
  return .of name type false (env.config.immutableTypes || s.traits.readOnly)
    (Comment.ofTraits s.traits)

/-- The member of a part among the components, or of a reference to one. -/
def componentOrRef {α : Type} (env : Environment)
    (type : String → Pointer → α → Typing (Member TypeExpr)) (name : String) (p : Pointer) :
    OrRef α → Typing (Member TypeExpr)
  | .ref r => referenceMember env name p r.target
  | .item part => type name p part

/-- The member of a response among the components. -/
def responseComponent (env : Environment) (name : String) (p : Pointer) (r : Response) :
    Typing (Member TypeExpr) := do
  return memberFor env (.name name) (← response env p r) (Comment.ofResponse r)

/-- The member of a parameter among the components. -/
def parameterComponent (env : Environment) (name : String) (p : Pointer) (param : Parameter) :
    Typing (Member TypeExpr) := do
  return memberFor env (.name name) (← parameter env p param) (Comment.ofParameter param)

/-- The member of a body among the components. -/
def bodyComponent (env : Environment) (name : String) (p : Pointer) (b : RequestBody) :
    Typing (Member TypeExpr) := do
  let type ← requestBody env p b
  return .of name type (!b.required) env.config.immutableTypes b.description

/-- The member of a header among the components. -/
def headerComponent (env : Environment) (name : String) (p : Pointer) (h : Header) :
    Typing (Member TypeExpr) := do
  return memberFor env (.name name) (← header env p h) (Comment.ofHeader h)

/-- The member of a path item among the components; its operations stand in it in full. -/
def pathItemComponent (env : Environment) (name : String) (p : Pointer) (item : PathItem) :
    Typing (Member TypeExpr) := do
  let os ← operationsOf env .path name p item
  return memberFor env (.name name) (← pathRecord env p item os (·.type))

/-- The type of the components. -/
def components (env : Environment) (c : Components) : Typing TypeExpr := do
  return .closed [
    ← collection env "schemas" (schemaComponent env) c.schemas,
    ← collection env "responses" (componentOrRef env (responseComponent env)) c.responses,
    ← collection env "parameters" (componentOrRef env (parameterComponent env)) c.parameters,
    ← collection env "requestBodies" (componentOrRef env (bodyComponent env)) c.requestBodies,
    ← collection env "headers" (componentOrRef env (headerComponent env)) c.headers,
    ← collection env "pathItems" (componentOrRef env (pathItemComponent env)) c.pathItems]

/-! ## 5. Documents -/

/-- The types of the sections of a description, and its operations. -/
def spec (env : Environment) (s : Spec) : Typing (TypeExpr × TypeExpr × TypeExpr × Registry) := do
  let (paths, registry) ← sectionOf env "paths" (path env) s.paths []
  let (webhooks, registry) ← sectionOf env "webhooks" (webhook env) s.webhooks registry
  let components ← components env (s.components.getD {})
  return (paths, webhooks, components, registry)

end Typing

/-- The types of a document. -/
def Document.typed (config : Config) (d : Document) : Except Fault TypedDocument :=
  match Typing.run (Typing.spec ⟨config, d.resolver⟩ d.spec) with
  | (.error e, _) => .error e
  | (.ok (paths, webhooks, components, operations), referenced) =>
    .ok { paths, webhooks, components, operations, referenced }

end ApiTypes
