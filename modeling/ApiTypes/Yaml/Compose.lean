/-
# From nodes to values

The value of a node is the value of its scalar or the values of its parts; an alias has the
value of its node, which is made anew each time.  Nesting and repetition are bounded, since an
alias can stand inside its own node, and a short text can repeat itself without measure.

* `Value.ofNode` gives the value of a tree; the keys of each mapping differ.
-/
import ApiTypes.Yaml.Anchor
import ApiTypes.Yaml.Resolve

namespace ApiTypes.Yaml.Value

/-- How deep collections can be nested. -/
def maxDepth : Nat := 128

/-- How many aliases can be followed for each mark of a text. -/
def maxRepetition : Nat := 100

/-- A value in the making, with the number of aliases followed so far. -/
abbrev Composing (α : Type) := StateT Nat (Except Error) α

/-- The tree that a value is made of: where aliases lead, and how many can be followed. -/
structure Source where
  targets : List (Nat × Node Nat)
  limit : Nat

/-- The node itself, or the node that an alias stands for. -/
def follow (s : Source) : Node Nat → Composing (Node Nat)
  | .alias n => do
    let count := (← get) + 1
    set count
    if count > s.limit then throw .tooManyAliases
    match s.targets.lookup n with
    | some node => return node
    | none => throw (.unknownAnchor (toString n))
  | node => return node

/-- A value with its tag, if the tag is one of the document's own. -/
def withTag (ps : Properties Nat) (v : Value) : Value :=
  match ps.tag with
  | some tag => if Resolve.isOwnTag tag then .tagged tag v else v
  | none => v

/-- Adds an entry to those of a mapping, whose keys must differ from it. -/
def addEntry (entries : List (Value × Value)) (key value : Value) :
    Composing (List (Value × Value)) :=
  if entries.any fun (k, _) => key.same k then throw .duplicateKey
  else return entries ++ [(key, value)]

/-- The value of a node, collections being nested at most `depth` deep. -/
def compose (s : Source) : Nat → Node Nat → Composing Value
  | 0, n => do
    match ← follow s n with
    | .scalar ps style text => Resolve.scalar ps.tag (style = .plain) text
    | _ => throw .tooDeep
  | depth + 1, n => do
    match ← follow s n with
    | .alias n => throw (.unknownAnchor (toString n))
    | .scalar ps style text => Resolve.scalar ps.tag (style = .plain) text
    | .sequence ps items => return withTag ps (.sequence (← items.mapM (compose s depth)))
    | .mapping ps entries =>
      let entries ← entries.foldlM (fun entries (key, value) => do
        let key ← compose s depth key
        let value ← compose s depth value
        addEntry entries key value) []
      return withTag ps (.mapping entries)

/-- The value of a tree. -/
def ofNode (root : Node Nat) : Except Error Value := do
  let source : Source := ⟨root.targets, maxRepetition * root.size⟩
  return (← (compose source maxDepth root).run 0).1

/-- The value of a text; a text without a document is null. -/
def ofText (text : String) : Except Error Value := do
  match ← Node.read text with
  | none => return .null
  | some root => ofNode (← root.numbered)

end ApiTypes.Yaml.Value
