/-
# The program

The program reads the files that its arguments name, runs the command on them, and writes what the
command has written to its tree of files.  It opens files by their names.  Where it has to look for
files, in a directory or for a pattern, the standard input lists those that are there, one on a
line, as `find specs | api-types specs --output out` does; else the standard input is read if the
document is there.
-/
import ApiTypes.Command.Run

namespace ApiTypes

/-- How the program is called. -/
def usage : String :=
  "usage: api-types [OPTIONS] [INPUT]\n\nINPUT is a file, a directory, a pattern or an address. "
    ++ "For a directory and for a pattern\nthe standard input lists the files there are.\n"

/-- A tree with what is at the end of a path: a file with its text, or a directory.  What cannot be
read is left out. -/
def FileTree.withPath (t : FileTree) (path : String) : IO FileTree := do
  try
    return (t.write? "" path (← IO.FS.readFile path)).getD t
  catch
    | .inappropriateType .. => return (t.makeDirectory? path).getD t
    | _ => return t

/-- A tree with what is at the ends of some paths. -/
def FileTree.withPaths (t : FileTree) (paths : List String) : IO FileTree :=
  paths.foldlM FileTree.withPath t

/-- The text of the standard input. -/
def standardInput : IO String := do (← IO.getStdin).readToEnd

/-- The text of the standard input, if a command line needs it, and the files that are there. -/
def CommandLine.files (c : CommandLine) : IO (String × FileTree) := do
  let named ← FileTree.withPaths {} (c.input.toList ++ c.config.toList ++ c.output.toList)
  if c.input.all (· = "-") then return (← standardInput, named)
  else if c.input.any (Source.isSearch named) then
    let listed := (Text.lines (← standardInput).toList).map String.ofList
    return ("", ← named.withPaths listed)
  else return ("", named)

/-- Writes a file, and the directories that it is in. -/
def writeText (l : Location) (contents : String) : IO Unit := do
  if l.parent.path ≠ "" then IO.FS.createDirAll l.parent.path
  IO.FS.writeFile l.path contents

/-- Runs the program on its arguments. -/
def runProgram (arguments : List String) : IO UInt32 := do
  match CommandLine.parse arguments with
  | .error .informationOnly =>
    IO.print usage
    return 0
  | .error _ =>
    IO.eprint usage
    return 2
  | .ok line =>
    let (given, before) ← line.files
    let result := line.run given before
    for (l, contents) in result.files.changes before do writeText l contents
    for (source, cause) in result.failures do
      IO.eprintln ("error: " ++ source.display ++ ": " ++ cause.message)
    match result.outcome with
    | .ok printed =>
      IO.print (printed.getD "")
      return 0
    | .error cause =>
      IO.eprintln ("error: " ++ cause.message)
      return 1

end ApiTypes

/-- Runs the program. -/
def main (arguments : List String) : IO UInt32 := ApiTypes.runProgram arguments
