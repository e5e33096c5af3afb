/-
# The order of alternatives

The mapping of a discriminator gives a tag to each alternative that it names.  The tagged
alternatives come first, in the order of the mapping, and an alternative keeps the tag that is
given to it first; the others follow in their own order.

* `Discriminator.memberOrder` lists the positions of the alternatives with their tags.
-/
import ApiTypes.Resolver
import ApiTypes.Schema.Basic

namespace ApiTypes.Discriminator

/-- The pointer that a target of a mapping names: a reference, or the bare name of a schema
among the components. -/
def mappingPointer? (self : Option OwnAddress) (target : String) : Option Pointer :=
  if target.toList.any fun c => c = '#' || c = '/' then Resolver.localPointer? self target
  else some ⟨["components", "schemas", target]⟩

/-- The pointer that an alternative refers to, if it is a reference. -/
def memberPointer? (self : Option OwnAddress) : Schema → Option Pointer
  | .reference target _ => Resolver.localPointer? self target
  | _ => none

/-- Whether a position is in an order. -/
def placed {τ : Type} (order : List (Nat × τ)) (i : Nat) : Bool := order.any (·.1 = i)

/-- Puts the first alternative with the pointer of a target at the end of an order, unless it
is there. -/
def place (targets : List (Option Pointer)) (wanted : Option Pointer) (tag : String)
    (order : List (Nat × Option String)) : List (Nat × Option String) :=
  if wanted.isSome then
    match targets.findIdx? (· = wanted) with
    | some i => if placed order i then order else order ++ [(i, some tag)]
    | none => order
  else order

/-- The tagged alternatives, in the order of the mapping. -/
def taggedOrder (self : Option OwnAddress) (members : List Schema) (d : Discriminator) :
    List (Nat × Option String) :=
  d.mapping.foldl
    (fun order (tag, target) =>
      place (members.map (memberPointer? self)) (mappingPointer? self target) tag order) []

/-- The positions of the alternatives in their order, each with its tag if it has one. -/
def memberOrder (self : Option OwnAddress) (members : List Schema) (d : Option Discriminator) :
    List (Nat × Option String) :=
  let tagged := (d.map (taggedOrder self members)).getD []
  tagged ++ ((List.range members.length).filter fun i => !placed tagged i).map (·, none)

end ApiTypes.Discriminator
