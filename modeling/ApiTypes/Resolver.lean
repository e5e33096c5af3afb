/-
# Resolving references

A reference into the document itself names a node by its pointer.  The node may be a reference
again; a chain of references is followed until a node is none, and a chain that comes back to
where it was leads nowhere.

* `Resolver.canonical` gives the pointer of the target, `Resolver.resolve` the node as well.
* `Resolver.resolveAs` follows a chain and decodes the node at its end.
-/
import ApiTypes.Fault
import ApiTypes.Reference

namespace ApiTypes

/-- A document in which references are resolved, with the address it gives itself. -/
structure Resolver where
  root : Json
  self : Option OwnAddress := none

namespace Resolver

/-- The pointer that a reference spells, if it is a local one. -/
def localPointer? (self : Option OwnAddress) (reference : String) : Option Pointer :=
  (Reference.local? self reference).bind Pointer.parseChars?

/-- The pointer of the node that a reference at a place leads to. -/
def canonical (r : Resolver) (reference : String) (location : Pointer) : Except Fault Pointer :=
  match localPointer? r.self reference with
  | none => .error (.unresolvable reference location)
  | some p =>
    if (p.find? r.root).isSome then .ok p else .error (.unresolvable reference location)

/-- The pointer and the node that a reference at a place leads to. -/
def resolve (r : Resolver) (reference : String) (location : Pointer) :
    Except Fault (Pointer × Json) :=
  match r.canonical reference location with
  | .error e => .error e
  | .ok p =>
    match p.find? r.root with
    | some v => .ok (p, v)
    | none => .error (.unresolvable reference location)

/-- The reference that a node is, if it is one. -/
def next? (v : Json) : Option String := (v.field? "$ref").bind Json.asString?

/-- Follows a chain for a number of steps, `seen` being the pointers it has come through. -/
def follow {α : Type} (r : Resolver) (decode : Decoder α) :
    Nat → List Pointer → String → Pointer → Except Fault (Pointer × α)
  | 0, _, reference, location => .error (.unresolvable reference location)
  | steps + 1, seen, reference, location =>
    match r.resolve reference location with
    | .error e => .error e
    | .ok (p, v) =>
      if p ∈ seen then .error (.unresolvable reference location)
      else
        match next? v with
        | some reference => r.follow decode steps (p :: seen) reference p
        | none =>
          match decode v with
          | .ok a => .ok (p, a)
          | .error e => .error (.invalidObject p e)

/-- The node at the end of the chain that a reference at a place starts, and its pointer.  A
node refers to one node only, so a chain that does not come back to a pointer has no more
steps than the document has nodes. -/
def resolveAs {α : Type} (r : Resolver) (decode : Decoder α) (reference : String)
    (location : Pointer) : Except Fault (Pointer × α) :=
  r.follow decode (r.root.nodes + 2) [] reference location

end Resolver

end ApiTypes
