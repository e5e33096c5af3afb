/-
# Path templates

A path marks its parameters by braces around their names: `/pets/{id}`.  With the types of the
parameters in their places it becomes a pattern of the paths that a client may ask for.  Braces
that enclose nothing, or that do not match, are text.

* `PathTemplate.parts` divides a path; `PathTemplate.concat_parts` says that nothing is lost.
* `PathTemplate.key` makes the key of a path.
-/
import ApiTypes.TypeExpr.Basic

namespace ApiTypes.PathTemplate

/-! ## 1. Dividing a path -/

/-- A stretch of a path. -/
inductive Part where
  | text (text : List Char)
  | parameter (name : List Char)
  deriving DecidableEq, Repr

/-- The characters of a stretch. -/
def Part.chars : Part → List Char
  | .text cs => cs
  | .parameter name => '{' :: name ++ ['}']

/-- A stretch of text, unless it is empty. -/
def textPart (cs : List Char) : List Part := if cs = [] then [] else [.text cs]

/-- Divides the rest of a path: `text` has been read since the last parameter, and then, if a
brace is open, the brace and the characters of `name`. -/
def partsFrom (text : List Char) : Option (List Char) → List Char → List Part
  | none, [] => textPart text
  | some name, [] => textPart (text ++ '{' :: name)
  | none, c :: cs =>
    if c = '{' then partsFrom text (some []) cs else partsFrom (text ++ [c]) none cs
  | some name, c :: cs =>
    if c = '{' then partsFrom (text ++ '{' :: name) (some []) cs
    else if c = '}' then
      if name = [] then partsFrom (text ++ ['{', '}']) none cs
      else textPart text ++ .parameter name :: partsFrom [] none cs
    else partsFrom text (some (name ++ [c])) cs

/-- The stretches of a path. -/
def parts (path : List Char) : List Part := partsFrom [] none path

theorem chars_textPart (cs : List Char) : (textPart cs).flatMap Part.chars = cs := by
  unfold textPart
  split <;> simp_all [Part.chars]

theorem concat_partsFrom (text : List Char) (pending : Option (List Char)) (cs : List Char) :
    (partsFrom text pending cs).flatMap Part.chars
      = text ++ (pending.elim [] ('{' :: ·)) ++ cs := by
  fun_induction partsFrom text pending cs <;>
    simp_all [chars_textPart, Part.chars, List.flatMap_append]

/-- The stretches of a path are the path. -/
theorem concat_parts (path : List Char) : (parts path).flatMap Part.chars = path := by
  simpa [parts] using concat_partsFrom [] none path

/-! ## 2. Keys -/

mutual
/-- Whether a type can stand in a pattern: single values other than null. -/
def interpolable : TypeExpr → Bool
  | .primitive _ => true
  | .literal .null => false
  | .literal _ => true
  | .union members => allInterpolable members
  | _ => false

/-- Whether all types of a list can stand in a pattern. -/
def allInterpolable : List TypeExpr → Bool
  | [] => true
  | e :: es => interpolable e && allInterpolable es
end

/-- The type of a parameter in a pattern: any text, unless a better type is declared. -/
def parameterType (declared : Option TypeExpr) : TypeExpr :=
  (declared.filter interpolable).getD (.primitive .string)

/-- The type that is declared first for a name. -/
def declaredType? (params : List (String × TypeExpr)) (name : String) : Option TypeExpr :=
  params.lookup name

/-- A stretch of a path as a stretch of a pattern. -/
def templatePart (params : List (String × TypeExpr)) : Part → TemplatePart TypeExpr
  | .text cs => .text (String.ofList cs)
  | .parameter name => .param (parameterType (declaredType? params (String.ofList name)))

/-- Whether a stretch is a parameter. -/
def Part.isParameter : Part → Bool
  | .text _ => false
  | .parameter _ => true

/-- The key of a path with typed parameters: a pattern if it has parameters. -/
def key (path : String) (params : List (String × TypeExpr)) : MemberKey TypeExpr :=
  let parts := parts path.toList
  if parts.any Part.isParameter then .template (parts.map (templatePart params)) else .name path

end ApiTypes.PathTemplate
