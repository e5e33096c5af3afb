/-
# The types of schemas

A reference is typed by the name of its target and never looked into, so schemas that refer to
each other in a circle have types.  Every other schema is typed from the types of the schemas
nested in it; how deep the nesting goes is bounded by the options alone.

* `Typing.schema` types a schema that stands at a pointer.
* `Typing.node` does it when the level of the schema is entered, in mutual recursion with the
  lists of nested schemas.
-/
import ApiTypes.Comment
import ApiTypes.TypeExpr.Render
import ApiTypes.Typing.Basic
import ApiTypes.Typing.Discriminator

namespace ApiTypes.Typing

/-! ## 1. Schemas without nested schemas -/

/-- The type of a scalar kind. -/
def ofScalar : ScalarKind → TypeExpr
  | .string => .primitive .string
  | .integer => .primitive .number
  | .number => .primitive .number
  | .boolean => .primitive .boolean
  | .null => .null

/-- The type of a listed value; of collections nothing more is known. -/
def ofValue : Json → TypeExpr
  | .null => .null
  | .bool b => .literal (.boolean b)
  | .number n => .literal (.number n)
  | .string s => .literal (.string s)
  | .array _ => .unknown
  | .object _ => .unknown

/-- Adds null to the type of a nullable schema, unless the options let its default stand for
null. -/
def withNull (config : Config) (traits : Traits) (e : TypeExpr) : TypeExpr :=
  if traits.nullable && !(config.defaultNonNullable && traits.default.isSome) then e.orNull else e

/-! ## 2. Parts of nested schemas -/

/-- The bounds of a list: only small least lengths show, and only if the options ask for it. -/
def boundsOf (config : Config) (least most : Option Nat) : ListBounds :=
  if config.supportArrayLength then
    match least with
    | none => .unbounded
    | some n =>
      if n = 0 || n > TypeExpr.maxTupleLength then .unbounded
      else if most = some n then .exact n
      else .atLeast n
  else .unbounded

/-- The alternative that a tag stands for. -/
def withTag (config : Config) (property tag : String) (variant : TypeExpr) : TypeExpr :=
  .intersectionOf [variant,
    .closed [.of property (.literal (.string tag)) false config.immutableTypes]]

/-- The alternative at a position, narrowed by its tag if it has one. -/
def arrange (config : Config) (d : Option Discriminator) (variants : List (Typing TypeExpr)) :
    Nat × Option String → Typing TypeExpr
  | (i, tag) => do
    let variant ← variants.getD i (pure .never)
    match tag, d with
    | some tag, some d => return withTag config d.property tag variant
    | _, _ => return variant

/-- The union of some alternatives, which stands in a combination only if there are any. -/
def alternatives (env : Environment) (d : Option Discriminator) (members : List Schema)
    (variants : List (Typing TypeExpr)) : Typing (List TypeExpr) :=
  if members.isEmpty then pure []
  else do
    let order := Discriminator.memberOrder env.resolver.self members d
    let es ← order.mapM (arrange env.config d variants)
    return [.unionOf es]

/-- The member of a property. -/
def property (config : Config) (required : List String) (name : String) (s : Schema)
    (type : TypeExpr) : Member TypeExpr :=
  .of name type (!required.contains name) (config.immutableTypes || s.traits.readOnly)
    (Comment.ofTraits s.traits)

/-! ## 3. Schemas -/

mutual
/-- The type of a schema, its own level being entered. -/
def node (env : Environment) (depth : Nat) (p : Pointer) : Schema → Typing TypeExpr
  | .reference target _ => return .reference (← reference env target p)
  | .unknown _ => return .unknown
  | .scalar kinds traits => return withNull env.config traits (.unionOf (kinds.map ofScalar))
  | .enumerated values traits => return withNull env.config traits (.unionOf (values.map ofValue))
  | .array items least most traits => do
    let readonly := env.config.immutableTypes
    match items with
    | none => return withNull env.config traits (.list .unknown .unbounded readonly)
    | some items =>
      let q := p.child "items"
      let element ← within env depth q fun depth => node env depth q items
      return withNull env.config traits
        (.list element (boundsOf env.config least most) readonly)
  | .object properties required additional traits => do
    let members ← propertyList env depth (p.child "properties") required properties
    let catchAll ← additionalOf env depth (p.child "additionalProperties") additional
    return withNull env.config traits
      (.record { members, catchAll, catchAllReadonly := env.config.immutableTypes })
  | .composed allOf oneOf anyOf discriminator base traits => do
    let all ← (nodes env depth (p.child "allOf") 0 allOf).mapM id
    let one ← alternatives env discriminator oneOf (nodes env depth (p.child "oneOf") 0 oneOf)
    let any ← alternatives env discriminator anyOf (nodes env depth (p.child "anyOf") 0 anyOf)
    let own ← match base with
      | none => pure []
      | some base => do
        let own ← within env depth p fun depth => node env depth p base
        pure [own]
    return withNull env.config traits (.intersectionOf (all ++ one ++ any ++ own))

/-- The types of the schemas of a list from a position on, each for itself and none yet
asked for. -/
def nodes (env : Environment) (depth : Nat) (p : Pointer) (i : Nat) :
    List Schema → List (Typing TypeExpr)
  | [] => []
  | s :: rest =>
    within env depth (p.item i) (fun depth => node env depth (p.item i) s)
      :: nodes env depth p (i + 1) rest

/-- The members of the properties of an object. -/
def propertyList (env : Environment) (depth : Nat) (p : Pointer) (required : List String) :
    List (String × Schema) → Typing (List (Member TypeExpr))
  | [] => return []
  | (name, s) :: rest => do
    let type ← within env depth (p.child name) fun depth => node env depth (p.child name) s
    return property env.config required name s type
      :: (← propertyList env depth p required rest)

/-- The type of the members that are not declared, if there may be any. -/
def additionalOf (env : Environment) (depth : Nat) (p : Pointer) :
    Additional Schema → Typing (Option TypeExpr)
  | .unsaid => return if env.config.additionalProperties then some .unknown else none
  | .allowed allowed => return if allowed then some .unknown else none
  | .schema s => return some (← within env depth p fun depth => node env depth p s)
end

/-- The type of a schema that stands at a pointer, at a depth. -/
def schema (env : Environment) (depth : Nat) (p : Pointer) (s : Schema) : Typing TypeExpr :=
  within env depth p fun depth => node env depth p s

end ApiTypes.Typing
