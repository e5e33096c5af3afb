/-
# Typing

To type a part of a document is to give the type expression of its values.  Two things go along
with it: the document and the options, which do not change, and the set of the pointers that
references have led to, which grows.  A part that cannot be typed ends the typing with a fault;
the pointers seen up to there are kept.

* `Typing` is a result under way, `Typing.run` starts from the empty set.
* `Typing.reference` follows one reference and records where it leads.
* `Typing.within` goes one level of schemas down, as far as the options allow.
-/
import ApiTypes.Config
import ApiTypes.Resolver

namespace ApiTypes

/-- The options of a run, and the document that is typed. -/
structure Environment where
  config : Config := {}
  resolver : Resolver

/-- A result that may fail, and adds to an ascending list of the pointers referred to. -/
abbrev Typing (α : Type) := ExceptT Fault (StateM (List Pointer)) α

namespace Typing

/-- Starts with no pointer referred to. -/
def run {α : Type} (t : Typing α) : Except Fault α × List Pointer :=
  let (result, referenced) := ExceptT.run t []
  (result, referenced)

/-- What needs no recording. -/
def lift {α : Type} : Except Fault α → Typing α
  | .ok a => pure a
  | .error e => throw e

/-- The pointer that a reference at a place leads to; it is recorded. -/
def reference (env : Environment) (target : String) (location : Pointer) : Typing Pointer := do
  let p ← lift (env.resolver.canonical target location)
  modify (Pointer.insert p)
  return p

/-- One level below a depth, unless that is as deep as the options allow. -/
def within {α : Type} (env : Environment) (depth : Nat) (location : Pointer)
    (inner : Nat → Typing α) : Typing α :=
  if depth ≥ env.config.maxDepth then throw (.recursionLimit location env.config.maxDepth)
  else inner (depth + 1)

end Typing

end ApiTypes
