/-
# Requests

A document at an address is requested with a method and headers, which can be given all in one
as a JSON object, or one by one.

* `Request.ofOptions` puts a request together.
-/
import ApiTypes.Command.Fault
import ApiTypes.Json.Printer
import ApiTypes.Json.Reader
import ApiTypes.Text.Basic

namespace ApiTypes

/-- How documents are requested. -/
structure Request where
  method : String
  headers : List (String × String)
  deriving DecidableEq, Repr

namespace Request

/-- How deep the object of headers may be nested. -/
def headersDepth : Nat := 127

/-- The value of a header: a text is taken as it is. -/
def headerValue : Json → String
  | .string s => s
  | v => v.compact

/-- The headers of a JSON object. -/
def headersOf (text : String) : Except CommandFault (List (String × String)) :=
  match Json.read? headersDepth text with
  | none => .error .malformedHeaders
  | some (.object fields) => .ok (fields.map fun (name, v) => (name, headerValue v))
  | some _ => .error .headersNotObject

/-- The header of a line: a name, a colon and a value. -/
def headerOf (line : String) : Except CommandFault (String × String) :=
  match Text.cutAtFirst ':' line.toList with
  | (_, none) => .error (.headerWithoutColon line)
  | (name, some value) =>
    let name := Text.trimWhile Text.isBlank name
    if name = [] then .error (.headerWithoutName line)
    else .ok (String.ofList name, String.ofList (Text.trimWhile Text.isBlank value))

/-- A request with the headers of an object, further headers, and an authorization. -/
def ofOptions (method : String) (auth headersObject : Option String) (headers : List String) :
    Except CommandFault Request := do
  let common ← match headersObject with
    | some text => headersOf text
    | none => .ok []
  let further ← headers.mapM headerOf
  return {
    method := method.map Char.toUpper
    headers := common ++ further ++ (auth.map ("Authorization", ·)).toList }

end Request

end ApiTypes
