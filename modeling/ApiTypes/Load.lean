/-
# Documents

A document is kept twice: as the value it was read from, in which references are resolved, and
as the description that the value spells.  Documents and options are texts in YAML, of which JSON
is a part.

* `Document.ofJson` makes a document of a value; its version must be `3.` and something.
* `Document.ofText` reads a document from its text, `Config.ofText` reads the options from theirs.
-/
import ApiTypes.Model.Decode
import ApiTypes.Resolver
import ApiTypes.Yaml.Compose
import ApiTypes.Yaml.Options
import ApiTypes.Yaml.ToJson

namespace ApiTypes

/-! ## 1. Documents of values -/

/-- A description with the value it was read from. -/
structure Document where
  raw : Json
  spec : Spec
  /-- How addresses are read where one is compared with that of the document. -/
  readAddress? : String → Option Uri := Uri.parse?

namespace Document

/-- The resolver of the references in a document. -/
def resolver (d : Document) : Resolver := ⟨d.raw, d.spec.self.map (⟨·, d.readAddress?⟩)⟩

/-- The version that a value declares, which need not be a text; failing that, what to say
about the version. -/
def version (raw : Json) : Except String String :=
  match raw.field? "openapi" with
  | some (.string v) => .ok v
  | some v => .ok v.compact
  | none =>
    match (raw.field? "swagger").bind Json.asString? with
    | some v => .error ("swagger " ++ v)
    | none => .error "missing"

/-- The value with its version as a text. -/
def withVersion (version : String) : Json → Json
  | .object fields => .object (Json.setField "openapi" (.string version) fields)
  | v => v

/-- The document that a value spells. -/
def ofJson (raw : Json) (readAddress? : String → Option Uri := Uri.parse?) :
    Except Fault Document :=
  match version raw with
  | .error v => .error (.unsupportedVersion v)
  | .ok v =>
    if "3.".toList.isPrefixOf v.toList then
      let raw := withVersion v raw
      match Decode.spec raw with
      | .ok spec => .ok ⟨raw, spec, readAddress?⟩
      | .error e => .error (.invalidDocument e)
    else .error (.unsupportedVersion v)

end Document

/-! ## 2. Documents and options of texts -/

/-- The document that a text spells. -/
def Document.ofText (text : String) (readAddress? : String → Option Uri := Uri.parse?) :
    Except Fault Document :=
  match Yaml.Value.ofText text with
  | .ok v => Document.ofJson v.toJson readAddress?
  | .error e => .error (.unreadableDocument e)

/-- The options that a text spells. -/
def Config.ofText (text : String) : Except Fault Config :=
  match Yaml.Options.ofText text with
  | .ok c => .ok c
  | .error e => .error (.unreadableConfig e)

end ApiTypes
