/-
# Why a YAML text cannot be read

* `Yaml.Error` lists the causes, `Yaml.Error.message` says them in words.
-/
namespace ApiTypes.Yaml

/-- Why a text does not give a value. -/
inductive Error where
  /-- The text breaks a rule of the format on a line, counted from zero. -/
  | malformed (rule : String) (line : Nat)
  /-- An alias names an anchor that is not there. -/
  | unknownAnchor (name : String)
  /-- The text holds more than one document. -/
  | severalDocuments
  /-- The text holds no document where one is needed. -/
  | noDocument
  /-- Collections are nested too deep, perhaps without end. -/
  | tooDeep
  /-- Aliases repeat too much of the text. -/
  | tooManyAliases
  /-- A mapping has two equal keys. -/
  | duplicateKey
  /-- A value is not what is expected in its place. -/
  | unexpected (expected : String)
  deriving DecidableEq, Repr

/-- The cause in words. -/
def Error.message : Error → String
  | malformed rule line => rule ++ " at line " ++ toString (line + 1)
  | unknownAnchor name => "unknown anchor '" ++ name ++ "'"
  | severalDocuments => "more than one document"
  | noDocument => "no document"
  | tooDeep => "nested too deep"
  | tooManyAliases => "repetition limit exceeded"
  | duplicateKey => "duplicate key"
  | unexpected expected => "expected " ++ expected

end ApiTypes.Yaml
