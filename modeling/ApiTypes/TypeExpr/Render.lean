/-
# Writing type expressions

Types are written in TypeScript.  A record takes a line for each member, two spaces deeper
than the line it starts on; everything else stays on its line.

* `TypeExpr.renderAt` writes an expression that starts on a line of some level,
  `TypeExpr.render` one that starts at the margin.
* `TypeExpr.renderDoc` writes a comment block; a text cannot end it early.
* `Pointer.indexChain` writes the name of a node.
-/
import ApiTypes.Json.Printer
import ApiTypes.Naming
import ApiTypes.Text.Basic
import ApiTypes.TypeExpr.Basic

namespace ApiTypes

/-- The margin of a level. -/
def margin (level : Nat) : String := String.ofList (List.replicate (2 * level) ' ')

/-- The name of a node: the first segment, and the others as indices into it. -/
def Pointer.indexChain (p : Pointer) : String :=
  match p.segments with
  | [] => "unknown"
  | first :: rest => rest.foldl (fun text s => text ++ "[" ++ Text.quote s ++ "]") first

namespace TypeExpr

/-! ## 1. Comments -/

/-- Keeps a text from ending the comment that it stands in. -/
def escapeDoc : List Char → List Char
  | '*' :: '/' :: cs => '*' :: '\\' :: '/' :: escapeDoc cs
  | c :: cs => c :: escapeDoc cs
  | [] => []

/-- A comment block at a level, without the end of its last line: on one line if the text is
one, else with a star before each line. -/
def docBlock (text : String) (level : Nat) : String :=
  let pad := margin level
  match (Text.lines (escapeDoc text.toList)).map String.ofList with
  | [line] => pad ++ "/** " ++ line ++ " */"
  | lines =>
    pad ++ "/**\n"
      ++ String.join (lines.map fun line =>
        if line = "" then pad ++ " *\n" else pad ++ " * " ++ line ++ "\n")
      ++ pad ++ " */"

/-- The lines of a comment block at a level. -/
def renderDoc (text : String) (level : Nat) : String := docBlock text level ++ "\n"

/-! ## 2. Literals and lists -/

/-- The text of a literal. -/
def renderLiteral : Literal → String
  | .string s => Text.quote s
  | .number n => n.written
  | .boolean true => "true"
  | .boolean false => "false"
  | .null => "null"

/-- The greatest number of items that is written out. -/
def maxTupleLength : Nat := 30

/-- Whether an element needs parentheses before the brackets of a list. -/
def needsParens : TypeExpr → Bool
  | union _ => true
  | intersection _ => true
  | list _ _ readonly => readonly
  | _ => false

/-- A list whose element has the given text. -/
def renderList (element : String) (parens : Bool) (bounds : ListBounds) (readonly : Bool) :
    String :=
  let mark := if readonly then "readonly " else ""
  let array := if parens then "(" ++ element ++ ")[]" else element ++ "[]"
  match bounds with
  | .unbounded => mark ++ array
  | .exact n =>
    if n > maxTupleLength then mark ++ array
    else mark ++ "[" ++ Text.join ", " (List.replicate n element) ++ "]"
  | .atLeast n =>
    if n > maxTupleLength then mark ++ array
    else mark ++ "[" ++ Text.join ", " (List.replicate n element ++ ["..." ++ array]) ++ "]"

/-- The text of a key pattern, in which a backslash stands before what would end it. -/
def escapeTemplate : List Char → List Char
  | '$' :: '{' :: cs => '\\' :: '$' :: '{' :: escapeTemplate cs
  | c :: cs =>
    if c = '\\' || c = '\x60' then '\\' :: c :: escapeTemplate cs else c :: escapeTemplate cs
  | [] => []

/-! ## 3. Expressions -/

mutual
/-- Writes an expression that starts on a line of the given level. -/
def renderAt (level : Nat) : TypeExpr → String
  | primitive .string => "string"
  | primitive .number => "number"
  | primitive .boolean => "boolean"
  | literal l => renderLiteral l
  | reference p => p.indexChain
  | operation name => "operations[" ++ Text.quote name ++ "]"
  | list element bounds readonly =>
    renderList (renderAt level element) (needsParens element) bounds readonly
  | record r => renderRecord level r
  | union members => Text.join " | " (renderAll level members)
  | intersection members => Text.join " & " (renderConstituents level members)
  | pick group keys =>
    "Pick<NonNullable<" ++ group.indexChain ++ ">, " ++ Text.join " | " (keys.map Text.quote) ++ ">"
  | withHeaders content headers =>
    "WithHeaders<" ++ renderAt level content ++ ", " ++ renderRecord level headers ++ ">"
  | never => "never"
  | unknown => "unknown"
  | void => "void"

/-- The texts of the members of a union. -/
def renderAll (level : Nat) : List TypeExpr → List String
  | [] => []
  | e :: es => renderAt level e :: renderAll level es

/-- The texts of the members of an intersection; unions among them stand in parentheses. -/
def renderConstituents (level : Nat) : List TypeExpr → List String
  | [] => []
  | e :: es =>
    (match e with
      | union _ => "(" ++ renderAt level e ++ ")"
      | _ => renderAt level e) :: renderConstituents level es

/-- A record: a line for each member between braces, or the empty record's own name. -/
def renderRecord (level : Nat) : Record TypeExpr → String
  | ⟨members, catchAll, readonly⟩ =>
    if members.isEmpty && catchAll.isNone then "Record<string, never>"
    else
      "\x7b\n" ++ renderMembers level members ++ renderCatchAll level readonly catchAll
        ++ margin level ++ "\x7d"

/-- The lines of the members of a record at the given level. -/
def renderMembers (level : Nat) : List (Member TypeExpr) → String
  | [] => ""
  | m :: ms => renderMember level m ++ renderMembers level ms

/-- The lines of a member, its comment first. -/
def renderMember (level : Nat) : Member TypeExpr → String
  | ⟨key, type, optional, readonly, doc⟩ =>
    (match doc with
      | some text => if Text.trim text = "" then "" else renderDoc text (level + 1)
      | none => "")
      ++ margin (level + 1) ++ (if readonly then "readonly " else "")
      ++ renderKey level optional key ++ ": " ++ renderAt (level + 1) type ++ ";\n"

/-- A key; a pattern is never optional. -/
def renderKey (level : Nat) (optional : Bool) : MemberKey TypeExpr → String
  | .name name => Naming.propertyKey name ++ (if optional then "?" else "")
  | .template parts => "[path: \x60" ++ renderParts level parts ++ "\x60]"

/-- The stretches of a key pattern. -/
def renderParts (level : Nat) : List (TemplatePart TypeExpr) → String
  | [] => ""
  | part :: parts => renderPart level part ++ renderParts level parts

/-- A stretch of a key pattern. -/
def renderPart (level : Nat) : TemplatePart TypeExpr → String
  | .text text => String.ofList (escapeTemplate text.toList)
  | .param type => "$\x7b" ++ renderAt level type ++ "\x7d"

/-- The line of all other members, if there is one. -/
def renderCatchAll (level : Nat) (readonly : Bool) : Option TypeExpr → String
  | none => ""
  | some type =>
    margin (level + 1) ++ (if readonly then "readonly " else "") ++ "[key: string]: "
      ++ renderAt (level + 1) type ++ ";\n"
end

/-- Writes an expression that starts at the margin. -/
def render (e : TypeExpr) : String := renderAt 0 e

end TypeExpr

end ApiTypes
