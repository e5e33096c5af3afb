/-
# Running a command

A command makes types of its documents.  It prints the types of one document, or writes files
to a directory; a document that has no types does not keep it from writing those of the others.

* `CommandLine.run` gives the `CommandResult`: the outcome and the tree of files afterwards.
-/
import ApiTypes.Command.Input
import ApiTypes.Command.Line
import ApiTypes.Command.Request
import ApiTypes.Load
import ApiTypes.Output.Basic

namespace ApiTypes

/-- The text of a document; `given` is that of the standard input. -/
def Source.text (t : FileTree) (given : String) : Source → Except CommandFault String
  | standardInput => .ok given
  | file path => (t.read? path).elim (.error .file) .ok
  | url address => .error (.notFetched address)

/-- The output for a text, or why there is none. -/
def Output.ofText (config : Config) (text : String) : Except Fault Output := do
  (← Document.ofText text).output config

/-- What comes of a command. -/
structure CommandResult where
  /-- What it prints, if it prints anything, or why it fails. -/
  outcome : Except CommandFault (Option String)
  /-- The documents for which nothing, or not everything, is written. -/
  failures : List (Source × CommandFault)
  /-- The files afterwards. -/
  files : FileTree

namespace CommandLine

/-- The options of a command: those of a file, overridden by its own. -/
def configuration (c : CommandLine) (t : FileTree) : Except CommandFault Config :=
  match c.config with
  | none => .ok (c.override {})
  | some path =>
    match t.read? path with
    | none => .error .file
    | some text => ((Config.ofText text).map c.override).mapError .unusable

/-- The way in which documents are requested. -/
def request (c : CommandLine) : Except CommandFault Request :=
  Request.ofOptions c.httpMethod c.auth c.headersObject c.headers

/-- The outcome for each document. -/
def outcomes (c : CommandLine) (t : FileTree) (given : String) :
    Except CommandFault (List (Source × Except CommandFault Output)) := do
  let sources ← Source.ofInput t c.input
  if sources.length > 1 && c.output.isNone then throw (.outputNeeded sources.length)
  let config ← c.configuration t
  let _ ← c.request
  return sources.map fun source => (source, do
    (Output.ofText config (← source.text t given)).mapError .unusable)

/-- The directories to which the outputs of some documents are written: a single one goes to
the directory itself. -/
def directories (directory : String) (sources : List Source) : List String :=
  if sources.length > 1 then (Source.directories sources).map (FilePath.entry directory)
  else sources.map fun _ => directory

/-- Writes outputs to directories; lists the documents for which this is not done. -/
def store (t : FileTree) : List ((Source × Except CommandFault Output) × String) →
    List (Source × CommandFault) × FileTree
  | [] => ([], t)
  | ((source, .error e), _) :: rest =>
    let (failures, t) := store t rest
    ((source, e) :: failures, t)
  | ((source, .ok output), directory) :: rest =>
    let (done, t) := t.writeAll directory output.files
    let (failures, t) := store t rest
    (if done then failures else (source, .file) :: failures, t)

/-- Runs a command on the files of a tree, with the text of the standard input. -/
def run (c : CommandLine) (given : String) (t : FileTree) : CommandResult :=
  match c.outcomes t given, c.output with
  | .error e, _ => ⟨.error e, [], t⟩
  | .ok outcomes, some directory =>
    let (failures, after) := store t (outcomes.zip (directories directory (outcomes.map (·.1))))
    ⟨if failures.isEmpty then .ok none
      else .error (.documentsFailed failures.length outcomes.length), failures, after⟩
  | .ok [], none => ⟨.ok none, [], t⟩
  | .ok ((_, outcome) :: _), none =>
    ⟨outcome.map fun output => some output.moduleText, [], t⟩

end CommandLine

end ApiTypes
