/-
# Comments on type expressions

The members of a record carry comments, and the operations on type expressions never look at
them: shapes are compared without comments, so rewriting every comment of an expression before
or after a union is built makes no difference.

* `TypeExpr.mapDoc f` rewrites every comment by `f`.
* `TypeExpr.sameShape_mapDoc`: the shape does not change.
* `TypeExpr.unionOf_mapDoc`, `TypeExpr.intersectionOf_mapDoc`, `TypeExpr.orNull_mapDoc`: it does
  not matter when the comments are rewritten.
* `TypeExpr.sameShape_of_mapDoc`: expressions that can be made equal have one shape.
-/
import ApiTypes.TypeExpr.Basic
import Mathlib.Data.List.Basic

namespace ApiTypes

/-! ## 1. Rewriting comments -/

namespace TypeExpr

variable (f : Option String → Option String)

mutual
/-- Rewrites every comment in an expression.  Comments inside the pattern of a key count as a
part of the key and stay. -/
def mapDoc : TypeExpr → TypeExpr
  | list e bounds readonly => list (mapDoc e) bounds readonly
  | record r => record (mapDocRecord r)
  | union es => union (mapDocs es)
  | intersection es => intersection (mapDocs es)
  | withHeaders content headers => withHeaders (mapDoc content) (mapDocRecord headers)
  | e => e

/-- The same for every expression of a list. -/
def mapDocs : List TypeExpr → List TypeExpr
  | [] => []
  | e :: es => mapDoc e :: mapDocs es

/-- The same in a record. -/
def mapDocRecord : Record TypeExpr → Record TypeExpr
  | ⟨ms, c, r⟩ => ⟨mapDocMembers ms, mapDocOption c, r⟩

/-- The same in what is there. -/
def mapDocOption : Option TypeExpr → Option TypeExpr
  | none => none
  | some e => some (mapDoc e)

/-- The same for every member of a list. -/
def mapDocMembers : List (Member TypeExpr) → List (Member TypeExpr)
  | [] => []
  | m :: ms => mapDocMember m :: mapDocMembers ms

/-- The same for a member and its type. -/
def mapDocMember : Member TypeExpr → Member TypeExpr
  | ⟨key, type, optional, readonly, doc⟩ => ⟨key, mapDoc type, optional, readonly, f doc⟩
end

theorem mapDocs_eq_map (es : List TypeExpr) : mapDocs f es = es.map (mapDoc f) := by
  induction es with
  | nil => rfl
  | cons e es ih => rw [mapDocs, ih, List.map_cons]

theorem mapDocMembers_eq_map (ms : List (Member TypeExpr)) :
    mapDocMembers f ms = ms.map (mapDocMember f) := by
  induction ms with
  | nil => rfl
  | cons m ms ih => rw [mapDocMembers, ih, List.map_cons]

theorem mapDocOption_eq_map (c : Option TypeExpr) : mapDocOption f c = c.map (mapDoc f) := by
  cases c <;> rfl

theorem mapDoc_list (e : TypeExpr) (bounds : ListBounds) (readonly : Bool) :
    mapDoc f (list e bounds readonly) = list (mapDoc f e) bounds readonly := by
  rw [mapDoc]

theorem mapDoc_record (ms : List (Member TypeExpr)) (c : Option TypeExpr) (r : Bool) :
    mapDoc f (record ⟨ms, c, r⟩) = record ⟨ms.map (mapDocMember f), c.map (mapDoc f), r⟩ := by
  rw [mapDoc, mapDocRecord, mapDocMembers_eq_map, mapDocOption_eq_map]

theorem mapDoc_union (es : List TypeExpr) : mapDoc f (union es) = union (es.map (mapDoc f)) := by
  rw [mapDoc, mapDocs_eq_map]

theorem mapDoc_intersection (es : List TypeExpr) :
    mapDoc f (intersection es) = intersection (es.map (mapDoc f)) := by
  rw [mapDoc, mapDocs_eq_map]

/-! ## 2. Shapes -/

mutual
/-- **Rewriting comments does not change the shape.** -/
theorem sameShape_mapDoc : ∀ a b : TypeExpr, sameShape (mapDoc f a) (mapDoc f b) = sameShape a b
  | list a _ _, b => by cases b <;> simp [mapDoc, sameShape, equal, sameShape_mapDoc a]
  | record r, b => by cases b <;> simp [mapDoc, sameShape, equal, sameRecord_mapDocRecord r]
  | union as, b => by cases b <;> simp [mapDoc, sameShape, equal, sameShapes_mapDocs as]
  | intersection as, b => by cases b <;> simp [mapDoc, sameShape, equal, sameShapes_mapDocs as]
  | withHeaders a h, b => by
    cases b <;> simp [mapDoc, sameShape, equal, sameShape_mapDoc a, sameRecord_mapDocRecord h]
  | primitive _, b | literal _, b | reference _, b | operation _, b | pick _ _, b | never, b
  | unknown, b | void, b => by cases b <;> simp [mapDoc, sameShape, equal]

theorem sameShapes_mapDocs : ∀ as bs : List TypeExpr,
    sameShapes (mapDocs f as) (mapDocs f bs) = sameShapes as bs
  | [], bs => by cases bs <;> simp [mapDocs, sameShapes]
  | a :: as, [] => by simp [mapDocs, sameShapes]
  | a :: as, b :: bs => by
    rw [mapDocs, mapDocs, sameShapes, sameShapes, sameShape_mapDoc a, sameShapes_mapDocs as]

theorem sameRecord_mapDocRecord : ∀ r s : Record TypeExpr,
    sameRecord (mapDocRecord f r) (mapDocRecord f s) = sameRecord r s
  | ⟨ms, c, _⟩, ⟨ns, d, _⟩ => by
    rw [mapDocRecord, mapDocRecord, sameRecord, sameRecord, sameMembers_mapDocMembers ms,
      sameOption_mapDocOption c]

theorem sameOption_mapDocOption : ∀ c d : Option TypeExpr,
    sameOption (mapDocOption f c) (mapDocOption f d) = sameOption c d
  | none, d => by cases d <;> simp [mapDocOption, sameOption]
  | some a, none => by simp [mapDocOption, sameOption]
  | some a, some b => by
    rw [mapDocOption, mapDocOption, sameOption, sameOption, sameShape_mapDoc a]

theorem sameMembers_mapDocMembers : ∀ ms ns : List (Member TypeExpr),
    sameMembers (mapDocMembers f ms) (mapDocMembers f ns) = sameMembers ms ns
  | [], ns => by cases ns <;> simp [mapDocMembers, sameMembers]
  | m :: ms, [] => by simp [mapDocMembers, sameMembers]
  | ⟨_, t, _, _, _⟩ :: ms, ⟨_, u, _, _, _⟩ :: ns => by
    simp [mapDocMembers, mapDocMember, sameMembers, sameMember, sameShape_mapDoc t,
      sameMembers_mapDocMembers ms]
end

/-! ## 3. Equal expressions -/

end TypeExpr

theorem JsonNumber.sameValue_self (n : JsonNumber) : n.sameValue n = true := by
  cases n with
  | int _ => simp [sameValue]
  | float x => exact Binary64.sameValue_iff.mpr ⟨rfl, by simp⟩

theorem Literal.sameValue_self (l : Literal) : l.sameValue l = true := by
  cases l <;> simp [sameValue, JsonNumber.sameValue_self]

namespace TypeExpr

variable {f : Option String → Option String}

mutual
/-- An expression is equal to itself. -/
theorem equal_self : ∀ e : TypeExpr, equal e e = true
  | list e _ _ => by simp [equal, equal_self e]
  | record r => by simp [equal, equalRecord_self r]
  | union es => by simp [equal, equalAll_self es]
  | intersection es => by simp [equal, equalAll_self es]
  | withHeaders e h => by simp [equal, equal_self e, equalRecord_self h]
  | literal l => by simp [equal, Literal.sameValue_self]
  | primitive _ | reference _ | operation _ | pick _ _ | never | unknown | void => by
    simp [equal]

theorem equalAll_self : ∀ es : List TypeExpr, equalAll es es = true
  | [] => by simp [equalAll]
  | e :: es => by simp [equalAll, equal_self e, equalAll_self es]

theorem equalRecord_self : ∀ r : Record TypeExpr, equalRecord r r = true
  | ⟨ms, c, _⟩ => by simp [equalRecord, equalMembers_self ms, equalOption_self c]

theorem equalOption_self : ∀ c : Option TypeExpr, equalOption c c = true
  | none => by simp [equalOption]
  | some e => by simp [equalOption, equal_self e]

theorem equalMembers_self : ∀ ms : List (Member TypeExpr), equalMembers ms ms = true
  | [] => by simp [equalMembers]
  | ⟨k, t, _, _, _⟩ :: ms => by
    simp [equalMembers, equalMember, equalKey_self k, equal_self t, equalMembers_self ms]

theorem equalKey_self : ∀ k : MemberKey TypeExpr, equalKey k k = true
  | .name _ => by simp [equalKey]
  | .template parts => by simp [equalKey, equalParts_self parts]

theorem equalParts_self : ∀ parts : List (TemplatePart TypeExpr), equalParts parts parts = true
  | [] => by simp [equalParts]
  | .text _ :: parts => by simp [equalParts, equalPart, equalParts_self parts]
  | .param e :: parts => by simp [equalParts, equalPart, equal_self e, equalParts_self parts]
end

mutual
/-- An expression has its own shape. -/
theorem sameShape_self : ∀ e : TypeExpr, sameShape e e = true
  | list e _ _ => by simp [sameShape, sameShape_self e]
  | record r => by simp [sameShape, sameRecord_self r]
  | union es => by simp [sameShape, sameShapes_self es]
  | intersection es => by simp [sameShape, sameShapes_self es]
  | withHeaders e h => by simp [sameShape, sameShape_self e, sameRecord_self h]
  | primitive _ | literal _ | reference _ | operation _ | pick _ _ | never | unknown | void => by
    simp [sameShape, equal_self]

theorem sameShapes_self : ∀ es : List TypeExpr, sameShapes es es = true
  | [] => by simp [sameShapes]
  | e :: es => by simp [sameShapes, sameShape_self e, sameShapes_self es]

theorem sameRecord_self : ∀ r : Record TypeExpr, sameRecord r r = true
  | ⟨ms, c, _⟩ => by simp [sameRecord, sameMembers_self ms, sameOption_self c]

theorem sameOption_self : ∀ c : Option TypeExpr, sameOption c c = true
  | none => by simp [sameOption]
  | some e => by simp [sameOption, sameShape_self e]

theorem sameMembers_self : ∀ ms : List (Member TypeExpr), sameMembers ms ms = true
  | [] => by simp [sameMembers]
  | ⟨k, t, _, _, _⟩ :: ms => by
    simp [sameMembers, sameMember, equalKey_self k, sameShape_self t, sameMembers_self ms]
end

/-- **Expressions that differ in comments only have one shape.** -/
theorem sameShape_of_mapDoc {a b : TypeExpr} (h : mapDoc f a = mapDoc f b) :
    sameShape a b = true := by
  rw [← sameShape_mapDoc f, h]
  exact sameShape_self _

mutual
/-- Where no comment is rewritten nothing changes. -/
theorem mapDoc_id : ∀ e : TypeExpr, mapDoc id e = e
  | list e _ _ => by rw [mapDoc, mapDoc_id e]
  | record r => by rw [mapDoc, mapDocRecord_id r]
  | union es => by rw [mapDoc, mapDocs_id es]
  | intersection es => by rw [mapDoc, mapDocs_id es]
  | withHeaders e h => by rw [mapDoc, mapDoc_id e, mapDocRecord_id h]
  | primitive _ | literal _ | reference _ | operation _ | pick _ _ | never | unknown | void => by
    simp [mapDoc]

theorem mapDocs_id : ∀ es : List TypeExpr, mapDocs id es = es
  | [] => rfl
  | e :: es => by rw [mapDocs, mapDoc_id e, mapDocs_id es]

theorem mapDocRecord_id : ∀ r : Record TypeExpr, mapDocRecord id r = r
  | ⟨ms, c, _⟩ => by rw [mapDocRecord, mapDocMembers_id ms, mapDocOption_id c]

theorem mapDocOption_id : ∀ c : Option TypeExpr, mapDocOption id c = c
  | none => rfl
  | some e => by rw [mapDocOption, mapDoc_id e]

theorem mapDocMembers_id : ∀ ms : List (Member TypeExpr), mapDocMembers id ms = ms
  | [] => rfl
  | ⟨_, t, _, _, _⟩ :: ms => by
    rw [mapDocMembers, mapDocMember, mapDoc_id t, mapDocMembers_id ms, id]
end

/-! ## 4. Unions and intersections -/

/-- Alternatives that are kept apart by shape are the same with other comments. -/
theorem addDistinct_mapDoc (kept : List TypeExpr) (e : TypeExpr) :
    addDistinct (kept.map (mapDoc f)) (mapDoc f e) = (addDistinct kept e).map (mapDoc f) := by
  unfold addDistinct
  simp only [List.any_map, Function.comp_def, sameShape_mapDoc]
  split
  · rfl
  · rw [List.map_append, List.map_singleton]

theorem distinct_mapDoc (es : List TypeExpr) :
    distinct (es.map (mapDoc f)) = (distinct es).map (mapDoc f) := by
  suffices ∀ kept, (es.map (mapDoc f)).foldl addDistinct (kept.map (mapDoc f))
      = (es.foldl addDistinct kept).map (mapDoc f) from this []
  induction es with
  | nil => exact fun kept => rfl
  | cons e es ih =>
    intro kept
    rw [List.map_cons, List.foldl_cons, List.foldl_cons, addDistinct_mapDoc, ih]

theorem alternatives_mapDoc (e : TypeExpr) :
    alternatives (mapDoc f e) = (alternatives e).map (mapDoc f) := by
  cases e <;> simp [mapDoc, alternatives, mapDocs_eq_map]

theorem constituents_mapDoc (e : TypeExpr) :
    constituents (mapDoc f e) = (constituents e).map (mapDoc f) := by
  cases e <;> simp [mapDoc, constituents, mapDocs_eq_map]

/-- **A union may be built before or after comments are rewritten.** -/
theorem unionOf_mapDoc (es : List TypeExpr) :
    unionOf (es.map (mapDoc f)) = mapDoc f (unionOf es) := by
  have h : (es.map (mapDoc f)).flatMap alternatives
      = (es.flatMap alternatives).map (mapDoc f) := by
    rw [List.flatMap_map, List.map_flatMap]
    exact List.flatMap_congr fun e _ => alternatives_mapDoc e
  unfold unionOf
  rw [h, distinct_mapDoc]
  match distinct (es.flatMap alternatives) with
  | [] => simp [mapDoc]
  | [e] => rfl
  | a :: b :: rest => rw [List.map_cons, List.map_cons, mapDoc_union, List.map_cons, List.map_cons]

theorem intersectionOf_mapDoc (es : List TypeExpr) :
    intersectionOf (es.map (mapDoc f)) = mapDoc f (intersectionOf es) := by
  have h : (es.map (mapDoc f)).flatMap constituents
      = (es.flatMap constituents).map (mapDoc f) := by
    rw [List.flatMap_map, List.map_flatMap]
    exact List.flatMap_congr fun e _ => constituents_mapDoc e
  unfold intersectionOf
  rw [h]
  match es.flatMap constituents with
  | [] => simp [mapDoc]
  | [e] => rfl
  | a :: b :: rest =>
    rw [List.map_cons, List.map_cons, mapDoc_intersection, List.map_cons, List.map_cons]

theorem orNull_mapDoc (e : TypeExpr) : orNull (mapDoc f e) = mapDoc f (orNull e) := by
  rw [orNull, orNull, ← unionOf_mapDoc, List.map_cons, List.map_singleton]
  simp [null, mapDoc]

end TypeExpr

end ApiTypes
