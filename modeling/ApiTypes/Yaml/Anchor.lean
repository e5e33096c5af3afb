/-
# Anchors and aliases

An alias stands for the node whose anchor has its name, which must come before it.  A name can
be given again; an alias means the last node before it that has the name.

Names become numbers: an anchor gets the number of the different names before it, so a repeated
name can share its number with a later one.  A number means the last node that got it.

* `Node.numbered` replaces names by numbers.
* `Node.targets` lists the nodes that numbers mean.
-/
import ApiTypes.Yaml.Node

namespace ApiTypes.Yaml.Node

/-! ## 1. Numbers for names -/

/-- The different names so far, with the number that each has got last. -/
abbrev Names := List (String × Nat)

/-- A step that looks names up and gives them numbers. -/
abbrev Naming (α : Type) := StateT Names (Except Error) α

/-- Gives a number to the name of an anchor. -/
def bind (ps : Properties String) : Naming (Properties Nat) := do
  match ps.anchor with
  | none => return { tag := ps.tag }
  | some name =>
    let names ← get
    set ((name, names.length) :: names.filter (·.1 ≠ name))
    return { anchor := some names.length, tag := ps.tag }

mutual
/-- The tree with numbers for names. -/
def number : Node String → Naming (Node Nat)
  | .alias name => do
    match (← get).lookup name with
    | some n => return .alias n
    | none => throw (.unknownAnchor name)
  | .scalar ps style text => return .scalar (← bind ps) style text
  | .sequence ps items => do
    let ps ← bind ps
    return .sequence ps (← numberAll items)
  | .mapping ps entries => do
    let ps ← bind ps
    return .mapping ps (← numberEntries entries)

/-- The nodes of a list with numbers for names. -/
def numberAll : List (Node String) → Naming (List (Node Nat))
  | [] => return []
  | n :: rest => do
    let n ← number n
    return n :: (← numberAll rest)

/-- The entries of a mapping with numbers for names. -/
def numberEntries : List (Node String × Node String) → Naming (List (Node Nat × Node Nat))
  | [] => return []
  | (key, value) :: rest => do
    let key ← number key
    let value ← number value
    return (key, value) :: (← numberEntries rest)
end

/-- The tree with numbers for names; an alias without anchor is an error. -/
def numbered (n : Node String) : Except Error (Node Nat) := do
  return (← (number n).run []).1

/-! ## 2. Nodes for numbers -/

/-- The properties of a node; an alias has none. -/
def properties {α : Type} : Node α → Properties α
  | .alias _ => {}
  | .scalar ps _ _ => ps
  | .sequence ps _ => ps
  | .mapping ps _ => ps

/-- The number of a node with the node, if it has one. -/
def ownTarget (n : Node Nat) : List (Nat × Node Nat) :=
  (n.properties.anchor.map (·, n)).toList

mutual
/-- The nodes that have numbers, in the order in which they start. -/
def anchored : Node Nat → List (Nat × Node Nat)
  | .alias _ => []
  | .scalar ps style text => ownTarget (.scalar ps style text)
  | .sequence ps items => ownTarget (.sequence ps items) ++ anchoredAll items
  | .mapping ps entries => ownTarget (.mapping ps entries) ++ anchoredEntries entries

/-- The nodes in a list that have numbers. -/
def anchoredAll : List (Node Nat) → List (Nat × Node Nat)
  | [] => []
  | n :: rest => anchored n ++ anchoredAll rest

/-- The nodes in the entries of a mapping that have numbers. -/
def anchoredEntries : List (Node Nat × Node Nat) → List (Nat × Node Nat)
  | [] => []
  | (key, value) :: rest => anchored key ++ (anchored value ++ anchoredEntries rest)
end

/-- The nodes that have numbers, the last one of a number first. -/
def targets (n : Node Nat) : List (Nat × Node Nat) := (anchored n).reverse

/-! ## 3. Size -/

mutual
/-- The number of marks that a tree is written with: collections have two, all else one. -/
def size {α : Type} : Node α → Nat
  | .alias _ => 1
  | .scalar _ _ _ => 1
  | .sequence _ items => 2 + sizeAll items
  | .mapping _ entries => 2 + sizeEntries entries

/-- The number of marks of a list. -/
def sizeAll {α : Type} : List (Node α) → Nat
  | [] => 0
  | n :: rest => size n + sizeAll rest

/-- The number of marks of the entries of a mapping. -/
def sizeEntries {α : Type} : List (Node α × Node α) → Nat
  | [] => 0
  | (key, value) :: rest => size key + size value + sizeEntries rest
end

end ApiTypes.Yaml.Node
