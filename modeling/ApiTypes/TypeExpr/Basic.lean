/-
# Type expressions

What is generated is a tree of types: single values, literals, lists, records, unions and
intersections, and names of types that stand elsewhere.  A comment can sit on the member of a
record; it is no part of the type.

* `TypeExpr` is the tree.
* `TypeExpr.equal` compares trees with their comments, `TypeExpr.sameShape` without them; both
  take the two zeros of the doubles for one number.
* `TypeExpr.unionOf`, `TypeExpr.intersectionOf` and `TypeExpr.orNull` build unions and
  intersections that hold none of their own kind directly, and no alternative twice.
-/
import ApiTypes.Json.Basic
import ApiTypes.Pointer

namespace ApiTypes

/-! ## 1. Parts -/

/-- The types of single values; whole numbers are numbers, and null is a literal. -/
inductive Primitive where
  | string
  | number
  | boolean
  deriving DecidableEq, Repr

/-- A single value as a type. -/
inductive Literal where
  | string (value : String)
  | number (value : JsonNumber)
  | boolean (value : Bool)
  | null
  deriving DecidableEq, Repr

/-- Equality of the values that literals spell. -/
def Literal.sameValue : Literal → Literal → Bool
  | string a, string b => a = b
  | number a, number b => a.sameValue b
  | boolean a, boolean b => a = b
  | null, null => true
  | _, _ => false

/-- How many items a list has. -/
inductive ListBounds where
  | unbounded
  | exact (length : Nat)
  | atLeast (length : Nat)
  deriving DecidableEq, Repr

/-- A stretch of a key pattern: text, or any value of a type. -/
inductive TemplatePart (α : Type) where
  | text (text : String)
  | param (type : α)

/-- The key of a member: a name, or a pattern that names match. -/
inductive MemberKey (α : Type) where
  | name (name : String)
  | template (parts : List (TemplatePart α))

/-- A member of a record. -/
structure Member (α : Type) where
  key : MemberKey α
  type : α
  optional : Bool := false
  readonly : Bool := false
  doc : Option String := none

/-- Members in order, and the type of all other members if there may be any. -/
structure Record (α : Type) where
  members : List (Member α)
  catchAll : Option α := none
  catchAllReadonly : Bool := false

/-! ## 2. Expressions -/

/-- A type expression. -/
inductive TypeExpr where
  | primitive (primitive : Primitive)
  | literal (literal : Literal)
  /-- The type of another node of the document. -/
  | reference (pointer : Pointer)
  /-- The type of a registered operation. -/
  | operation (name : String)
  | list (element : TypeExpr) (bounds : ListBounds) (readonly : Bool)
  | record (record : Record TypeExpr)
  | union (members : List TypeExpr)
  | intersection (members : List TypeExpr)
  /-- Some members of a referenced collection. -/
  | pick (group : Pointer) (keys : List String)
  /-- Content that comes with headers. -/
  | withHeaders (content : TypeExpr) (headers : Record TypeExpr)
  | never
  | unknown
  /-- No value at all, where one could stand. -/
  | void
  deriving Inhabited

namespace TypeExpr

/-- The literal null. -/
def null : TypeExpr := literal .null

/-- A record of the given members only. -/
def closed (members : List (Member TypeExpr)) : TypeExpr := record { members }

end TypeExpr

/-- A member under a name, required and mutable unless said otherwise. -/
def Member.of (name : String) (type : TypeExpr) (optional : Bool := false)
    (readonly : Bool := false) (doc : Option String := none) : Member TypeExpr :=
  { key := .name name, type, optional, readonly, doc }

/-- The name of a member, if its key is one. -/
def Member.name? {α : Type} (m : Member α) : Option String :=
  match m.key with
  | .name name => some name
  | .template _ => none

/-- Whether a record holds nothing at all. -/
def Record.isEmpty {α : Type} (r : Record α) : Bool := r.members.isEmpty && r.catchAll.isNone

/-! ## 3. Equality -/

namespace TypeExpr

mutual
/-- Equality of expressions, comments included. -/
def equal : TypeExpr → TypeExpr → Bool
  | primitive a, primitive b => a = b
  | literal a, literal b => a.sameValue b
  | reference a, reference b => a = b
  | operation a, operation b => a = b
  | list a m r, list b n s => m = n && r = s && equal a b
  | record a, record b => equalRecord a b
  | union as, union bs => equalAll as bs
  | intersection as, intersection bs => equalAll as bs
  | pick a ks, pick b ls => a = b && ks = ls
  | withHeaders a h, withHeaders b i => equal a b && equalRecord h i
  | never, never => true
  | unknown, unknown => true
  | void, void => true
  | _, _ => false

/-- Equality of lists of expressions. -/
def equalAll : List TypeExpr → List TypeExpr → Bool
  | [], [] => true
  | a :: as, b :: bs => equal a b && equalAll as bs
  | _, _ => false

/-- Equality of optional expressions. -/
def equalOption : Option TypeExpr → Option TypeExpr → Bool
  | none, none => true
  | some a, some b => equal a b
  | _, _ => false

/-- Equality of records. -/
def equalRecord : Record TypeExpr → Record TypeExpr → Bool
  | ⟨ms, c, r⟩, ⟨ns, d, s⟩ => equalMembers ms ns && equalOption c d && r = s

/-- Equality of members in order. -/
def equalMembers : List (Member TypeExpr) → List (Member TypeExpr) → Bool
  | [], [] => true
  | a :: as, b :: bs => equalMember a b && equalMembers as bs
  | _, _ => false

/-- Equality of members. -/
def equalMember : Member TypeExpr → Member TypeExpr → Bool
  | ⟨k, t, o, r, d⟩, ⟨l, u, p, s, e⟩ => equalKey k l && equal t u && o = p && r = s && d = e

/-- Equality of keys. -/
def equalKey : MemberKey TypeExpr → MemberKey TypeExpr → Bool
  | .name a, .name b => a = b
  | .template as, .template bs => equalParts as bs
  | _, _ => false

/-- Equality of key patterns. -/
def equalParts : List (TemplatePart TypeExpr) → List (TemplatePart TypeExpr) → Bool
  | [], [] => true
  | a :: as, b :: bs => equalPart a b && equalParts as bs
  | _, _ => false

/-- Equality of stretches of key patterns. -/
def equalPart : TemplatePart TypeExpr → TemplatePart TypeExpr → Bool
  | .text a, .text b => a = b
  | .param a, .param b => equal a b
  | _, _ => false
end

mutual
/-- Equality of expressions without the comments on members. -/
def sameShape : TypeExpr → TypeExpr → Bool
  | record a, record b => sameRecord a b
  | list a m r, list b n s => m = n && r = s && sameShape a b
  | union as, union bs => sameShapes as bs
  | intersection as, intersection bs => sameShapes as bs
  | withHeaders a h, withHeaders b i => sameShape a b && sameRecord h i
  | a, b => equal a b

/-- Equality of lists of expressions without comments. -/
def sameShapes : List TypeExpr → List TypeExpr → Bool
  | [], [] => true
  | a :: as, b :: bs => sameShape a b && sameShapes as bs
  | _, _ => false

/-- Equality of optional expressions without comments. -/
def sameOption : Option TypeExpr → Option TypeExpr → Bool
  | none, none => true
  | some a, some b => sameShape a b
  | _, _ => false

/-- Equality of records without comments. -/
def sameRecord : Record TypeExpr → Record TypeExpr → Bool
  | ⟨ms, c, r⟩, ⟨ns, d, s⟩ => sameMembers ms ns && sameOption c d && r = s

/-- Equality of members in order, without comments. -/
def sameMembers : List (Member TypeExpr) → List (Member TypeExpr) → Bool
  | [], [] => true
  | a :: as, b :: bs => sameMember a b && sameMembers as bs
  | _, _ => false

/-- Equality of members without their comments; keys are compared in full. -/
def sameMember : Member TypeExpr → Member TypeExpr → Bool
  | ⟨k, t, o, r, _⟩, ⟨l, u, p, s, _⟩ => equalKey k l && sameShape t u && o = p && r = s
end

/-! ## 4. Unions and intersections -/

/-- Adds an alternative unless one of the same shape is there. -/
def addDistinct (kept : List TypeExpr) (e : TypeExpr) : List TypeExpr :=
  if kept.any (sameShape · e) then kept else kept ++ [e]

/-- One expression of each shape, the first of its kind. -/
def distinct (es : List TypeExpr) : List TypeExpr := es.foldl addDistinct []

/-- The alternatives of an expression: the members of a union, none of the empty type, and any
other expression itself. -/
def alternatives : TypeExpr → List TypeExpr
  | union members => members
  | never => []
  | e => [e]

/-- The type of the values of any of the expressions. -/
def unionOf (es : List TypeExpr) : TypeExpr :=
  match distinct (es.flatMap alternatives) with
  | [] => never
  | [e] => e
  | members => union members

/-- The constituents of an expression: the members of an intersection, and any other
expression itself. -/
def constituents : TypeExpr → List TypeExpr
  | intersection members => members
  | e => [e]

/-- The type of the values of all of the expressions. -/
def intersectionOf (es : List TypeExpr) : TypeExpr :=
  match es.flatMap constituents with
  | [] => unknown
  | [e] => e
  | members => intersection members

/-- The type of the values of an expression and of null. -/
def orNull (e : TypeExpr) : TypeExpr := unionOf [e, null]

end TypeExpr

end ApiTypes
