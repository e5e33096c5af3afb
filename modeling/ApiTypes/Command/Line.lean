/-
# Command lines

A command line consists of an input and options.  An option is a switch or has a value.  It is
written with its name behind two hyphens, and some also with a letter behind one.  A value is
the next argument, or stands behind the name and an equals sign, or behind the letter.  Switches
can share a hyphen.  All that follows two hyphens alone is input.

* `CommandLine.parse` reads a command line, `UsageFault` lists what can be wrong with it.
-/
import ApiTypes.Config

namespace ApiTypes

/-! ## 1. Options -/

/-- An option without a value. -/
inductive Switch where
  | exportType
  | immutableTypes
  | additionalProperties
  | defaultNonNullable
  | supportArrayLength
  | pathParamsAsTypes
  | alphabetize
  | catalog
  | verbose
  | help
  | version
  deriving DecidableEq, Repr

/-- An option with a value. -/
inductive Setting where
  | output
  | config
  | auth
  | headersObject
  | header
  | httpMethod
  deriving DecidableEq, Repr

/-- An option of either kind. -/
inductive OptionKey where
  | switch (s : Switch)
  | setting (s : Setting)
  deriving DecidableEq, Repr

namespace OptionKey

/-- The options with their names and letters. -/
def table : List (OptionKey × String × Option Char) := [
  (.setting .output, "output", some 'o'),
  (.setting .config, "config", none),
  (.switch .exportType, "export-type", some 't'),
  (.switch .immutableTypes, "immutable-types", none),
  (.switch .additionalProperties, "additional-properties", none),
  (.switch .defaultNonNullable, "default-non-nullable", none),
  (.switch .supportArrayLength, "support-array-length", none),
  (.switch .pathParamsAsTypes, "path-params-as-types", none),
  (.switch .alphabetize, "alphabetize", none),
  (.switch .catalog, "catalog", none),
  (.setting .auth, "auth", none),
  (.setting .headersObject, "headers-object", none),
  (.setting .header, "header", some 'x'),
  (.setting .httpMethod, "http-method", some 'm'),
  (.switch .verbose, "verbose", some 'v'),
  (.switch .help, "help", some 'h'),
  (.switch .version, "version", some 'V')]

/-- The option with a name. -/
def ofName? (name : String) : Option OptionKey :=
  (table.find? fun (_, n, _) => n = name).map (·.1)

/-- The option with a letter. -/
def ofLetter? (letter : Char) : Option OptionKey :=
  (table.find? fun (_, _, l) => l = some letter).map (·.1)

/-- Whether an option can be given more than once. -/
def isRepeatable (key : OptionKey) : Bool := key = .setting .header

end OptionKey

/-- Whether the value of a setting can be empty: a path cannot. -/
def Setting.allowsEmpty (s : Setting) : Bool := s ≠ .output && s ≠ .config

/-- What is wrong with a command line. -/
inductive UsageFault where
  | unknownOption (argument : String)
  | valueMissing (setting : Setting)
  | valueNotNeeded (switch : Switch)
  | optionRepeated
  | inputRepeated
  /-- The command is asked for its description or for its version. -/
  | informationOnly
  deriving DecidableEq, Repr

/-! ## 2. Arguments -/

/-- What an argument or two say. -/
inductive Argument where
  | input (text : String)
  | switch (s : Switch)
  | setting (s : Setting) (value : String)
  deriving DecidableEq, Repr

namespace Argument

/-- Whether an argument can be the value of the option before it: a hyphen can start no
value that has more characters. -/
def isValue (argument : String) : Bool :=
  argument = "-" || argument.toList.head? ≠ some '-'

/-- The argument that a setting and its value make. -/
def ofSetting (s : Setting) (value : String) : Except UsageFault Argument :=
  if value = "" && !s.allowsEmpty then .error (.valueMissing s) else .ok (.setting s value)

/-- What stands behind the letter of a setting: an equals sign in front is not part of it. -/
def attachedValue : List Char → String
  | '=' :: cs => String.ofList cs
  | cs => String.ofList cs

/-- The arguments that letters behind one hyphen make, and the setting that has no value yet, if
the last of them is one. -/
def ofLetters : List Char → Except UsageFault (List Argument × Option Setting)
  | [] => .ok ([], none)
  | letter :: rest =>
    match OptionKey.ofLetter? letter with
    | none => .error (.unknownOption (String.ofList ['-', letter]))
    | some (.switch s) => do
      let (arguments, open?) ← ofLetters rest
      return (.switch s :: arguments, open?)
    | some (.setting s) =>
      if rest = [] then .ok ([], some s)
      else do return ([← ofSetting s (attachedValue rest)], none)

/-- The arguments that a name behind two hyphens makes, and the setting that has no value yet,
if it is one. -/
def ofName (cs : List Char) : Except UsageFault (List Argument × Option Setting) :=
  let (name, value) := Text.cutAtFirst '=' cs
  match OptionKey.ofName? (String.ofList name), value with
  | none, _ => .error (.unknownOption (String.ofList ('-' :: '-' :: cs)))
  | some (.switch s), none => .ok ([.switch s], none)
  | some (.switch s), some _ => .error (.valueNotNeeded s)
  | some (.setting s), none => .ok ([], some s)
  | some (.setting s), some value => do
    return ([← ofSetting s (String.ofList value)], none)

/-- What one argument says by itself. -/
def ofText (argument : String) : Except UsageFault (List Argument × Option Setting) :=
  match argument.toList with
  | '-' :: '-' :: cs => ofName cs
  | '-' :: c :: cs => ofLetters (c :: cs)
  | _ => .ok ([.input argument], none)

/-- What all arguments say, one after another; a setting can wait for its value. -/
def ofTexts : Option Setting → List String → Except UsageFault (List Argument)
  | none, [] => .ok []
  | some s, [] => .error (.valueMissing s)
  | some s, text :: rest =>
    if isValue text then do return (← ofSetting s text) :: (← ofTexts none rest)
    else .error (.valueMissing s)
  | none, text :: rest =>
    if text = "--" then .ok (rest.map .input)
    else do
      let (arguments, waiting) ← ofText text
      return arguments ++ (← ofTexts waiting rest)

/-- The option of an argument. -/
def key? : Argument → Option OptionKey
  | input _ => none
  | switch s => some (.switch s)
  | setting s _ => some (.setting s)

/-- The value of an argument for a setting. -/
def valueFor? (s : Setting) : Argument → Option String
  | setting s' value => if s' = s then some value else none
  | _ => none

/-- The text of an input. -/
def input? : Argument → Option String
  | input text => some text
  | _ => none

end Argument

/-! ## 3. Command lines -/

/-- What a command line asks for. -/
structure CommandLine where
  input : Option String := none
  output : Option String := none
  config : Option String := none
  switches : List Switch := []
  auth : Option String := none
  headersObject : Option String := none
  headers : List String := []
  httpMethod : String := "GET"
  deriving DecidableEq, Repr

namespace CommandLine

/-- The command line that some arguments make. -/
def ofArguments (arguments : List Argument) : Except UsageFault CommandLine :=
  let keys := (arguments.filterMap Argument.key?).filter fun key => !key.isRepeatable
  let inputs := arguments.filterMap Argument.input?
  let value? (s : Setting) := arguments.findSome? (Argument.valueFor? s)
  let has (s : Switch) := arguments.contains (.switch s)
  if has .help || has .version then .error .informationOnly
  else if keys.eraseDups.length ≠ keys.length then .error .optionRepeated
  else if inputs.length > 1 then .error .inputRepeated
  else .ok {
    input := inputs.head?
    output := value? .output
    config := value? .config
    switches := arguments.filterMap fun
      | .switch s => some s
      | _ => none
    auth := value? .auth
    headersObject := value? .headersObject
    headers := arguments.filterMap (Argument.valueFor? .header)
    httpMethod := (value? .httpMethod).getD "GET" }

/-- Reads a command line. -/
def parse (texts : List String) : Except UsageFault CommandLine := do
  ofArguments (← Argument.ofTexts none texts)

/-- The options with the switches of a command line turned on. -/
def override (c : CommandLine) (config : Config) : Config :=
  let on (s : Switch) (before : Bool) := before || c.switches.contains s
  { config with
    exportStyle := if c.switches.contains .exportType then .type else config.exportStyle
    immutableTypes := on .immutableTypes config.immutableTypes
    additionalProperties := on .additionalProperties config.additionalProperties
    defaultNonNullable := on .defaultNonNullable config.defaultNonNullable
    supportArrayLength := on .supportArrayLength config.supportArrayLength
    pathParamsAsTypes := on .pathParamsAsTypes config.pathParamsAsTypes
    alphabetize := on .alphabetize config.alphabetize
    catalog := on .catalog config.catalog }

end CommandLine

end ApiTypes
