/-
# Why a command fails

* `CommandFault` lists the causes, `CommandFault.message` says them in words.
-/
import ApiTypes.Fault

namespace ApiTypes

/-- Why a command fails. -/
inductive CommandFault where
  /-- The one document of the command has no types, or its options cannot be read. -/
  | unusable (cause : Fault)
  /-- A file cannot be read, or not be written. -/
  | file
  /-- Nothing fetches the document at an address. -/
  | notFetched (url : String)
  | inputNotFound (input : String)
  | noDocumentsUnder (directory : String)
  | noFilesMatch (pattern : String)
  | malformedPattern (pattern : String)
  /-- Several documents are printed to one place. -/
  | outputNeeded (documents : Nat)
  /-- Some of the documents have no types, or their files cannot be written. -/
  | documentsFailed (failed documents : Nat)
  | malformedHeaders
  | headersNotObject
  | headerWithoutColon (header : String)
  | headerWithoutName (header : String)

namespace CommandFault

/-- A cause in words, for all causes that have nothing of their own to say. -/
def failure (text : String) : String := "Operation failed: " ++ text

/-- The cause in words. -/
def message : CommandFault → String
  | unusable cause => cause.message
  | file => "IO Error: the file cannot be used"
  | notFetched url => "Fetch failed: " ++ url ++ ": built without the \x60client\x60 feature"
  | inputNotFound input => failure ("Input not found: " ++ input)
  | noDocumentsUnder directory =>
    failure ("No .yaml, .yml or .json files under " ++ directory)
  | noFilesMatch pattern => failure ("No files match " ++ pattern)
  | malformedPattern pattern =>
    failure ("Invalid glob pattern '" ++ pattern ++ "': the wildcards are malformed")
  | outputNeeded documents =>
    failure (toString documents
      ++ " documents found; --output is required for more than one")
  | documentsFailed failed documents =>
    failure (toString failed ++ " of " ++ toString documents ++ " documents failed")
  | malformedHeaders => failure "Invalid --headers-object: the text is no JSON value"
  | headersNotObject => failure "--headers-object must be a JSON object"
  | headerWithoutColon header =>
    failure ("Invalid header '" ++ header ++ "': expected 'key: value'")
  | headerWithoutName header => failure ("Invalid header '" ++ header ++ "': empty name")

end CommandFault

end ApiTypes
