/-
# The types of payloads

A payload may come in several media types; its type is the union of their types, in the order
of declaration.

* `Typing.content` types the content of a request or of a response.
* `Typing.header` and `Typing.response` type the parts of a response.
-/
import ApiTypes.Model.Basic
import ApiTypes.Typing.Schema

namespace ApiTypes.Typing

/-! ## 1. Lists and collections of parts -/

/-- Types the items of a list, each at its position below a pointer. -/
def eachItem {α β : Type} (base : Pointer) (type : Pointer → α → Typing β) (items : List α) :
    Typing (List β) :=
  items.zipIdx.mapM fun (item, i) => type (base.item i) item

/-- Types named parts in the order in which they are shown, each under its name below a
pointer. -/
def eachNamed {α β : Type} (env : Environment) (base : Pointer)
    (type : String → Pointer → α → Typing β) (entries : List (String × α)) : Typing (List β) :=
  (ordered env.config.alphabetize entries).mapM fun (name, part) => type name (base.child name) part

/-- The member of a reference to a part. -/
def referenceMember (env : Environment) (name : String) (p : Pointer) (target : String)
    (doc : Option String := none) : Typing (Member TypeExpr) := do
  let target ← reference env target p
  return .of name (.reference target) false env.config.immutableTypes doc

/-! ## 2. Content -/

/-- Whose content it is. -/
inductive ContentRole where
  /-- A body that is sent, or a parameter. -/
  | request
  /-- A body that is received. -/
  | response
  deriving DecidableEq, Repr

/-- The type of a media type that stands at a pointer. -/
def mediaType (env : Environment) (p : Pointer) (m : MediaType) : Typing TypeExpr :=
  match m.schema with
  | some s => schema env 0 (p.child "schema") s
  | none => pure .unknown

/-- The type of the content of the part at a pointer.  A response without any schema has no
body; other content without media types is no value. -/
def content (env : Environment) (role : ContentRole) (p : Pointer) (c : Content) :
    Typing TypeExpr :=
  if role = .response && c.all (fun (_, m) => m.schema.isNone) then pure .never
  else if c.isEmpty then pure .void
  else do
    let es ← c.mapM fun (name, m) => mediaType env ((p.child "content").child name) m
    return .unionOf es

/-- The type of a value that is described by a schema or, if there is none, by its content. -/
def schemaOrContent (env : Environment) (p : Pointer) (s : Option Schema) (c : Option Content)
    (byContent : Content → Typing TypeExpr) (otherwise : TypeExpr) : Typing TypeExpr :=
  match s, c with
  | some s, _ => schema env 0 (p.child "schema") s
  | none, some c => byContent c
  | none, none => pure otherwise

/-! ## 3. Responses -/

/-- The type of a header; content makes it a record of its media types. -/
def header (env : Environment) (p : Pointer) (h : Header) : Typing TypeExpr :=
  schemaOrContent env p h.schema h.content
    (fun c => do
      let members ← eachNamed env (p.child "content")
        (fun name p m => do
          let type ← mediaType env p m
          return .of name type false env.config.immutableTypes (Comment.ofSchema? m.schema)) c
      return .closed members)
    .unknown

/-- The member of a header of a response. -/
def headerMember (env : Environment) (name : String) (p : Pointer) :
    OrRef Header → Typing (Member TypeExpr)
  | .ref r => referenceMember env name p r.target r.description
  | .item h => do
    let type ← header env p h
    return .of name type (!h.required) env.config.immutableTypes (Comment.ofHeader h)

/-- The type of a response; without content it has no body, and headers go with the body. -/
def response (env : Environment) (p : Pointer) (r : Response) : Typing TypeExpr :=
  match r.content with
  | none => pure .never
  | some c => do
    let body ← content env .response p c
    if r.headers.isEmpty then return body
    else
      let members ← eachNamed env (p.child "headers") (headerMember env) r.headers
      return .withHeaders body { members }

end ApiTypes.Typing
