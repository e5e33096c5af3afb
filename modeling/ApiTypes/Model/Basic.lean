/-
# The parts of an interface description

The description of an interface lists paths; a path has operations, one for each method; an
operation has parameters, perhaps a body, and responses.  What is used more than once stands
in the components and is referred to.  Names that the description declares keep the order of
declaration, so every collection of named parts is a list of pairs.

* `Spec` is a whole description, `PathItem.operations` the operations of a path in the fixed
  order of methods.
-/
import ApiTypes.Schema.Classify

namespace ApiTypes

/-! ## 1. References -/

/-- A reference that stands in the place of a part, with texts that override the part's own. -/
structure RefObject where
  target : String := ""
  summary : Option String := none
  description : Option String := none
  deriving DecidableEq, Repr, Inhabited

/-- A part, or a reference to one. -/
inductive OrRef (α : Type) where
  | ref (reference : RefObject)
  | item (item : α)

/-! ## 2. Methods and places -/

/-- The methods of operations. -/
inductive Method where
  | get
  | put
  | post
  | delete
  | options
  | head
  | patch
  | trace
  deriving DecidableEq, Repr

/-- The name of a method, in lower case. -/
def Method.name : Method → String
  | .get => "get"
  | .put => "put"
  | .post => "post"
  | .delete => "delete"
  | .options => "options"
  | .head => "head"
  | .patch => "patch"
  | .trace => "trace"

/-- The places where a parameter can stand in a request. -/
inductive Place where
  | path
  | query
  | header
  | cookie
  deriving DecidableEq, Repr, Inhabited

/-- The name of a place. -/
def Place.name : Place → String
  | .path => "path"
  | .query => "query"
  | .header => "header"
  | .cookie => "cookie"

/-- All places. -/
def Place.all : List Place := [.path, .query, .header, .cookie]

/-! ## 3. Payloads -/

/-- A payload of one media type. -/
structure MediaType where
  schema : Option Schema := none
  sample : Option Json := none

/-- Payloads by media type. -/
abbrev Content := List (String × MediaType)

/-- A parameter of an operation. -/
structure Parameter where
  name : String := ""
  place : Place := .path
  description : Option String := none
  required : Bool := false
  deprecated : Bool := false
  schema : Option Schema := none
  content : Option Content := none
  sample : Option Json := none

/-- The body of a request. -/
structure RequestBody where
  description : Option String := none
  content : Content := []
  required : Bool := false

/-- A header of a response. -/
structure Header where
  description : Option String := none
  required : Bool := false
  deprecated : Bool := false
  schema : Option Schema := none
  content : Option Content := none

/-- A response; without content it has no body. -/
structure Response where
  description : Option String := none
  headers : List (String × OrRef Header) := []
  content : Option Content := none

/-! ## 4. Operations and paths -/

/-- What a client can do with a path. -/
structure Operation where
  operationId : Option String := none
  summary : Option String := none
  description : Option String := none
  deprecated : Bool := false
  tags : List String := []
  parameters : List (OrRef Parameter) := []
  requestBody : Option (OrRef RequestBody) := none
  responses : List (String × OrRef Response) := []

/-- A path with its operations, or a reference to another path. -/
structure PathItem where
  reference : Option String := none
  summary : Option String := none
  description : Option String := none
  get : Option Operation := none
  put : Option Operation := none
  post : Option Operation := none
  delete : Option Operation := none
  options : Option Operation := none
  head : Option Operation := none
  patch : Option Operation := none
  trace : Option Operation := none
  parameters : List (OrRef Parameter) := []

/-- The operations that a path declares, in the order of methods. -/
def PathItem.operations (p : PathItem) : List (Method × Operation) :=
  [(Method.get, p.get), (.put, p.put), (.post, p.post), (.delete, p.delete),
    (.options, p.options), (.head, p.head), (.patch, p.patch), (.trace, p.trace)].filterMap
    fun (m, o) => o.map (m, ·)

/-! ## 5. Descriptions -/

/-- The parts that can be referred to; a collection that is not there differs from an empty
one. -/
structure Components where
  schemas : Option (List (String × Schema)) := none
  responses : Option (List (String × OrRef Response)) := none
  parameters : Option (List (String × OrRef Parameter)) := none
  requestBodies : Option (List (String × OrRef RequestBody)) := none
  headers : Option (List (String × OrRef Header)) := none
  pathItems : Option (List (String × OrRef PathItem)) := none

/-- What a description says about itself. -/
structure Info where
  title : Option String := none
  version : Option String := none
  description : Option String := none
  deriving DecidableEq, Repr, Inhabited

/-- A tag that groups operations. -/
structure Tag where
  name : String := ""
  description : Option String := none
  deriving DecidableEq, Repr, Inhabited

/-- The description of an interface. -/
structure Spec where
  openapi : String := ""
  self : Option String := none
  info : Info := {}
  paths : Option (List (String × PathItem)) := none
  webhooks : Option (List (String × OrRef PathItem)) := none
  components : Option Components := none
  tags : List Tag := []

end ApiTypes
