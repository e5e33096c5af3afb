/-
# Why a document has no types

* `Fault` lists the causes; those that concern a place in the document carry its pointer.
* `Fault.message` says a cause in words.
-/
import ApiTypes.Decoder
import ApiTypes.Pointer
import ApiTypes.Yaml.Error

namespace ApiTypes

/-- Why types cannot be generated. -/
inductive Fault where
  /-- The text of a document is no value. -/
  | unreadableDocument (cause : Yaml.Error)
  /-- The text of a configuration is none. -/
  | unreadableConfig (cause : Yaml.Error)
  /-- The value is no description of an interface. -/
  | invalidDocument (cause : DecodeError)
  /-- The target of a reference is not of the kind that is needed in its place. -/
  | invalidObject (location : Pointer) (cause : DecodeError)
  /-- The description has a version that is not read. -/
  | unsupportedVersion (version : String)
  /-- A reference at a place leads nowhere. -/
  | unresolvable (reference : String) (location : Pointer)
  /-- Two operations have one name. -/
  | duplicateOperation (name : String) (first second : Pointer)
  /-- A schema is nested deeper than the configuration allows. -/
  | recursionLimit (location : Pointer) (limit : Nat)

namespace Fault

/-- The cause in words. -/
def message : Fault → String
  | unreadableDocument cause =>
    "Parse Error: Failed to parse OpenAPI document: " ++ cause.message
  | unreadableConfig cause => "Parse Error: Failed to parse configuration: " ++ cause.message
  | invalidDocument cause => "Parse Error: Invalid OpenAPI document: " ++ cause.message
  | invalidObject location cause =>
    "Parse Error: Invalid object at " ++ location.text ++ ": " ++ cause.message
  | unsupportedVersion version =>
    "Unsupported OpenAPI version '" ++ version ++ "' (expected 3.x)"
  | unresolvable reference location =>
    "Unresolvable reference '" ++ reference ++ "' at " ++ location.text
  | duplicateOperation name first second =>
    "Duplicate operation '" ++ name ++ "' declared at " ++ first.text ++ " and " ++ second.text
  | recursionLimit location limit =>
    "Schema nesting exceeds " ++ toString limit ++ " levels at " ++ location.text

end Fault

end ApiTypes
