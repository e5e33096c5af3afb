/-
# Options in YAML

The options are a mapping whose keys are their names; a text that holds nothing leaves them as
they are.  Unknown keys are skipped with their values, whatever those are, and an option may be
given only once.

Options are read from nodes and not from values: what a scalar means depends on the option that
it is given for, and skipped values need not be valid.

* `Config.ofText` reads the options.
-/
import ApiTypes.Config
import ApiTypes.Fault
import ApiTypes.Yaml.Anchor
import ApiTypes.Yaml.Resolve

namespace ApiTypes.Yaml.Options

/-! ## 1. Scalars -/

/-- Where aliases lead. -/
abbrev Targets := List (Nat × Node Nat)

/-- What was expected in the place of a node. -/
def unexpected {α : Type} (expected : String) : Except Error α := .error (.unexpected expected)

/-- The node itself, or the node that an alias stands for. -/
def follow (targets : Targets) : Node Nat → Except Error (Node Nat)
  | .alias n =>
    match targets.lookup n with
    | some node => .ok node
    | none => .error (.unknownAnchor (toString n))
  | node => .ok node

/-- The text of a scalar. -/
def text (targets : Targets) (n : Node Nat) : Except Error String := do
  match ← follow targets n with
  | .scalar _ _ text => return text
  | _ => unexpected "a string"

/-- The text of a scalar that may stand for a value of a core type: a plain one, or a literal
one with the tag of the type. -/
def coreText (targets : Targets) (type : String) (n : Node Nat) : Except Error String := do
  match ← follow targets n with
  | .scalar ps style text =>
    if style = .plain || (style = .literal && ps.tag = some (Resolve.coreTag type)) then return text
    else unexpected type
  | _ => unexpected type

/-- A truth value. -/
def flag (targets : Targets) (n : Node Nat) : Except Error Bool := do
  Resolve.orExpected "a boolean" (Resolve.bool? (← coreText targets "bool" n))

/-- A natural number of 64 bits. -/
def depth (targets : Targets) (n : Node Nat) : Except Error Nat := do
  match Resolve.integer? (← coreText targets "int" n).toList with
  | some (false, n) => if n < Nat.pow 2 64 then return n else unexpected "usize"
  | _ => unexpected "usize"

/-- The name of a style: a scalar, or a tag of the document's own on nothing. -/
def styleName (targets : Targets) (n : Node Nat) : Except Error String := do
  match ← follow targets n with
  | .scalar ps style text =>
    match ps.tag.filter Resolve.isOwnTag with
    | some tag =>
      if style = .plain && (text = "" || Resolve.isNull text) then
        return String.ofList (tag.toList.drop 1)
      else unexpected "unit"
    | none => return text
  | _ => unexpected "a style"

/-- A style of declaration. -/
def exportStyle (targets : Targets) (n : Node Nat) : Except Error ExportStyle := do
  Resolve.orExpected "a style" (Config.styleNames.lookup (← styleName targets n))

/-! ## 2. Options -/

/-- Sets the option of a name; an unknown name changes nothing. -/
def set (targets : Targets) (c : Config) (name : String) (n : Node Nat) : Except Error Config :=
  match name with
  | "alphabetize" => do return { c with alphabetize := ← flag targets n }
  | "immutableTypes" => do return { c with immutableTypes := ← flag targets n }
  | "additionalProperties" => do return { c with additionalProperties := ← flag targets n }
  | "defaultNonNullable" => do return { c with defaultNonNullable := ← flag targets n }
  | "supportArrayLength" => do return { c with supportArrayLength := ← flag targets n }
  | "exportStyle" => do return { c with exportStyle := ← exportStyle targets n }
  | "pathParamsAsTypes" => do return { c with pathParamsAsTypes := ← flag targets n }
  | "maxDepth" => do return { c with maxDepth := ← depth targets n }
  | "catalog" => do return { c with catalog := ← flag targets n }
  | "runtimeModule" => do return { c with runtimeModule := ← text targets n }
  | _ => .ok c

/-- The names of all options. -/
def names : List String := Config.layout.fields.map (·.name)

/-- Reads the entries of a mapping, the names in `seen` having been read. -/
def ofEntries (targets : Targets) (seen : List String) (c : Config) :
    List (Node Nat × Node Nat) → Except Error Config
  | [] => .ok c
  | (key, n) :: rest => do
    let name := Config.aliasOf (← text targets key)
    if seen.contains name && names.contains name then throw .duplicateKey
    let c ← set targets c name n
    ofEntries targets (name :: seen) c rest

/-- The options that a tree spells. -/
def ofNode (root : Node Nat) : Except Error Config :=
  match root with
  | .mapping _ entries => ofEntries root.targets [] {} entries
  | .scalar _ .plain "" => .ok {}
  | _ => unexpected "a mapping of options"

/-- The options that a text spells. -/
def ofText (text : String) : Except Error Config := do
  match ← Node.read text with
  | none => return {}
  | some root => ofNode (← root.numbered)

end ApiTypes.Yaml.Options
