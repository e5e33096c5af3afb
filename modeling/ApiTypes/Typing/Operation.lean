/-
# The types of operations

An operation is typed by a record of four members: its parameters, the content that is sent,
the responses of success and the others.  The parameters of an operation are its own and those
of its path that it does not declare itself; what is declared by reference to a collection of
parameters is picked out of the type of the collection, and the rest stands in a record.

* `Typing.operation` types an operation at a `Site`, into a `TypedOperation`.
* `Typing.effectiveParameters` puts the two lists of parameters together.
-/
import ApiTypes.Model.Decode
import ApiTypes.Typing.Content

namespace ApiTypes

/-! ## 1. Where an operation stands -/

/-- The two sections of a description that have operations. -/
inductive RouteKind where
  | path
  | webhook
  deriving DecidableEq, Repr, Inhabited

/-- A path item with operations: its section, its name there, its pointer, and the parameters
that its operations share. -/
structure Site where
  kind : RouteKind
  path : String
  pointer : Pointer
  shared : List (OrRef Parameter) := []

/-- A typed operation. -/
structure TypedOperation where
  /-- What the operation is called; see `Typing.operationName`. -/
  name : String
  location : Pointer
  kind : RouteKind
  method : Method
  path : String
  tags : List String
  pathParams : List (String × TypeExpr)
  headerParams : List String
  cookieParams : List String
  doc : Option String
  type : TypeExpr

/-- A parameter in effect: the object at the end of its references and where that stands, and,
if it was declared by reference to a collection, the collection and its name there. -/
structure EffectiveParameter where
  parameter : Parameter
  pointer : Pointer
  group : Option (Pointer × String) := none

namespace Typing

/-! ## 2. The parameters in effect -/

/-- The collection and the name of a pointer into a collection of parameters. -/
def parameterGroup? (p : Pointer) : Option (Pointer × String) :=
  match p.segments.reverse with
  | key :: "parameters" :: rest =>
    if (Pointer.position? key).isNone then some (⟨("parameters" :: rest).reverse⟩, key) else none
  | _ => none

/-- The parameter that is declared at a pointer. -/
def effective (env : Environment) (p : Pointer) : OrRef Parameter → Typing EffectiveParameter
  | .item parameter => pure { parameter, pointer := p }
  | .ref r => do
    let target ← reference env r.target p
    let (pointer, parameter) ← lift (env.resolver.resolveAs Decode.parameter r.target p)
    return { parameter, pointer, group := parameterGroup? target }

/-- Whether two parameters are one: they have one name in one place. -/
def sameParameter (a b : EffectiveParameter) : Bool :=
  a.parameter.name = b.parameter.name && a.parameter.place = b.parameter.place

/-- The parameters of an operation: its own, and the shared ones that it does not declare. -/
def effectiveParameters (env : Environment) (site : Site) (location : Pointer) (o : Operation) :
    Typing (List EffectiveParameter) := do
  let own ← eachItem (location.child "parameters") (effective env) o.parameters
  let shared ← eachItem (site.pointer.child "parameters") (effective env) site.shared
  return own ++ shared.filter fun e => !own.any (sameParameter e)

/-! ## 3. The types of parameters -/

/-- The type of a parameter; a parameter that says nothing about its values is a text. -/
def parameter (env : Environment) (p : Pointer) (param : Parameter) : Typing TypeExpr :=
  schemaOrContent env p param.schema param.content (content env .request p) (.primitive .string)

/-- The member of a parameter that stands in the record. -/
def parameterMember (env : Environment) (e : EffectiveParameter) : Typing (Member TypeExpr) := do
  let type ← parameter env e.pointer e.parameter
  return .of e.parameter.name type (e.parameter.place ≠ .path && !e.parameter.required)
    env.config.immutableTypes (Comment.ofParameter e.parameter)

/-- Adds a name to those picked from a collection, each once. -/
def addPick (groups : List (Pointer × List String)) (pick : Pointer × String) :
    List (Pointer × List String) :=
  match groups with
  | [] => [(pick.1, [pick.2])]
  | (group, keys) :: rest =>
    if group = pick.1 then (group, if keys.contains pick.2 then keys else keys ++ [pick.2]) :: rest
    else (group, keys) :: addPick rest pick

/-- The type of the parameters in effect: a record, and what is picked from collections. -/
def parameters (env : Environment) (es : List EffectiveParameter) : Typing TypeExpr := do
  let members ← (es.filter (·.group.isNone)).mapM (parameterMember env)
  let picks := (es.filterMap (·.group)).foldl addPick []
  if members.isEmpty && picks.isEmpty then return .void
  else
    let inline := if members.isEmpty then [] else [.closed members]
    return .intersectionOf (inline ++ picks.map fun (group, keys) => .pick group keys)

/-- The type of the parameters that a path declares for all its operations. -/
def sharedParameters (env : Environment) (p : Pointer) (shared : List (OrRef Parameter)) :
    Typing TypeExpr := do
  parameters env (← eachItem (p.child "parameters") (effective env) shared)

/-! ## 4. Bodies and responses -/

/-- The type of a body that is sent. -/
def requestBody (env : Environment) (p : Pointer) (b : RequestBody) : Typing TypeExpr :=
  content env .request p b.content

/-- The member of the body of an operation. -/
def bodyMember (env : Environment) (p : Pointer) :
    Option (OrRef RequestBody) → Typing (Member TypeExpr)
  | none => pure (.of "content" .void false env.config.immutableTypes)
  | some (.ref r) => do
    let target ← reference env r.target p
    let (_, body) ← lift (env.resolver.resolveAs Decode.requestBody r.target p)
    return .of "content" (.reference target) (!body.required) env.config.immutableTypes
      (r.description.or body.description)
  | some (.item body) => do
    let type ← requestBody env p body
    return .of "content" type (!body.required) env.config.immutableTypes body.description

/-- The member of a response of an operation. -/
def responseMember (env : Environment) (code : String) (p : Pointer) :
    OrRef Response → Typing (Member TypeExpr)
  | .ref r => referenceMember env code p r.target r.description
  | .item r => do
    let type ← response env p r
    return .of code type false env.config.immutableTypes (Comment.ofResponse r)

/-- Whether a member is named by a status code of success. -/
def isSuccess (m : Member TypeExpr) : Bool :=
  (m.name?.bind (·.toList.head?)) = some '2'

/-! ## 5. Operations -/

/-- The name of an operation: its identifier, or its method and path. -/
def operationName (site : Site) (method : Method) (o : Operation) : String :=
  o.operationId.getD (method.name ++ " " ++ site.path)

/-- The names of the parameters in a place. -/
def namesIn (place : Place) (es : List EffectiveParameter) : List String :=
  (es.filter (·.parameter.place = place)).map (·.parameter.name)

/-- Types an operation of a path item. -/
def operation (env : Environment) (site : Site) (method : Method) (o : Operation) :
    Typing TypedOperation := do
  let location := site.pointer.child method.name
  let es ← effectiveParameters env site location o
  let pathParams ← (es.filter (·.parameter.place = .path)).mapM fun e => do
    return (e.parameter.name, ← parameter env e.pointer e.parameter)
  let params ← parameters env es
  let body ← bodyMember env (location.child "requestBody") o.requestBody
  let responses ← eachNamed env (location.child "responses") (responseMember env) o.responses
  let readonly := env.config.immutableTypes
  return {
    name := operationName site method o
    location, method, pathParams
    kind := site.kind
    path := site.path
    tags := o.tags
    headerParams := namesIn .header es
    cookieParams := namesIn .cookie es
    doc := Comment.ofOperation o
    type := .closed [
      .of "parameters" params false readonly,
      body,
      .of "responses" (.closed (responses.filter isSuccess)) false readonly,
      .of "exceptions" (.closed (responses.filter (!isSuccess ·))) false readonly] }

end Typing

end ApiTypes
