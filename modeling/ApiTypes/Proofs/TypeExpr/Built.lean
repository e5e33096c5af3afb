/-
# How type expressions are built

The types of a document are made by a few operations: lists and records are marked as the options
say, unions and intersections are put together by the operations that keep them flat, and what is
picked from a collection is collected first.  `TypeExpr.Built` lists them, one constructor for each,
and what holds of everything that occurs in such types follows once and for all.

* `TypeExpr.Built readonly O`: built with the mark `readonly`, except that members may be marked
  otherwise if they satisfy `O`.
* `TypeExpr.Marked` says of a single expression what the marks are.
* `TypeExpr.Built.obeys`: everything that occurs in a built expression is normal and marked.
-/
import ApiTypes.Proofs.TypeExpr.Normal

namespace ApiTypes.TypeExpr

variable {readonly : Bool} {O : Member TypeExpr → Prop}

/-! ## 1. Marks -/

/-- **The marks of an expression**, its parts left aside: a list and the further members of a
record are marked alike, and so is each member unless `O` holds of it. -/
def Marked (readonly : Bool) (O : Member TypeExpr → Prop) : TypeExpr → Prop
  | list _ _ r => r = readonly
  | record r => (∀ m ∈ r.members, m.readonly = readonly ∨ O m) ∧
      ∀ e, r.catchAll = some e → r.catchAllReadonly = readonly
  | _ => True

/-- Where the exceptions are marked alike there are none. -/
theorem Marked.all {e : TypeExpr} (h : Marked readonly O e)
    (hO : ∀ m, O m → m.readonly = readonly) :
    Marked readonly (fun _ => False) e := by
  cases e with
  | record r => exact ⟨fun m hm => Or.inl ((h.1 m hm).elim id (hO m)), h.2⟩
  | list => exact h
  | primitive | literal | reference | operation | union | intersection | pick | withHeaders | never
  | unknown | void => trivial

/-! ## 2. Building -/

/-- **The expressions that are built with a mark.** -/
inductive Built (readonly : Bool) (O : Member TypeExpr → Prop) : TypeExpr → Prop
  | primitive (p : Primitive) : Built readonly O (.primitive p)
  | literal (l : Literal) : Built readonly O (.literal l)
  | reference (p : Pointer) : Built readonly O (.reference p)
  | operation (name : String) : Built readonly O (.operation name)
  | never : Built readonly O .never
  | unknown : Built readonly O .unknown
  | void : Built readonly O .void
  | list {e : TypeExpr} (bounds : ListBounds) (element : Built readonly O e) :
      Built readonly O (.list e bounds readonly)
  | record {r : Record TypeExpr} (marked : Marked readonly O (.record r))
      (types : ∀ m ∈ r.members, Built readonly O m.type)
      (patterns : ∀ m ∈ r.members, ∀ stretches, m.key = .template stretches →
        ∀ e, .param e ∈ stretches → Built readonly O e)
      (others : ∀ e, r.catchAll = some e → Built readonly O e) : Built readonly O (.record r)
  | unionOf {es : List TypeExpr} (parts : ∀ e ∈ es, Built readonly O e) :
      Built readonly O (.unionOf es)
  | intersectionOf {es : List TypeExpr} (parts : ∀ e ∈ es, Built readonly O e) :
      Built readonly O (.intersectionOf es)
  | pick {keys : List String} (group : Pointer) (some : keys ≠ []) (once : keys.Nodup) :
      Built readonly O (.pick group keys)
  | withHeaders {e : TypeExpr} {headers : Record TypeExpr} (content : Built readonly O e)
      (record : Built readonly O (.record headers)) : Built readonly O (.withHeaders e headers)

/-- A member that may stand in a built record. -/
structure BuiltMember (readonly : Bool) (O : Member TypeExpr → Prop) (m : Member TypeExpr) :
    Prop where
  mark : m.readonly = readonly ∨ O m
  type : Built readonly O m.type
  pattern : ∀ stretches, m.key = .template stretches →
    ∀ e, .param e ∈ stretches → Built readonly O e

/-- A member under a name. -/
theorem builtMember_of {name : String} {type : TypeExpr} {optional : Bool} {doc : Option String}
    (h : Built readonly O type) :
    BuiltMember readonly O (.of name type optional readonly doc) :=
  ⟨Or.inl rfl, h, nofun⟩

theorem Built.closed {ms : List (Member TypeExpr)} (h : ∀ m ∈ ms, BuiltMember readonly O m) :
    Built readonly O (.closed ms) :=
  .record ⟨fun m hm => (h m hm).mark, nofun⟩ (fun m hm => (h m hm).type)
    (fun m hm => (h m hm).pattern) nofun

theorem Built.orNull {e : TypeExpr} (h : Built readonly O e) : Built readonly O e.orNull :=
  .unionOf (by simp [h, TypeExpr.null, Built.literal])

/-! ## 3. What occurs in built expressions -/

/-- What occurs in a member occurs in its type or in the types of its pattern. -/
theorem memberObeys_of {P : TypeExpr → Prop} {m : Member TypeExpr} (ht : Obeys P m.type)
    (hpattern : ∀ stretches, m.key = .template stretches → ∀ e, .param e ∈ stretches → Obeys P e) :
    MemberObeys P m := by
  obtain ⟨key, type, _, _, _⟩ := m
  intro x hx
  rcases List.mem_append.mp hx with hx | hx
  · cases key with
    | name name => cases hx
    | template stretches =>
      obtain ⟨s, hs, hx⟩ := mem_templateParts.mp hx
      cases s with
      | text text => cases hx
      | param e => exact hpattern stretches rfl e hs x hx
  · exact ht x hx

/-- **Everything that occurs in a built expression is normal and marked.** -/
theorem Built.obeys {e : TypeExpr} (h : Built readonly O e) :
    Obeys (fun x => Normal x ∧ Marked readonly O x) e := by
  induction h with
  | primitive | literal | reference | operation | never | unknown | void =>
    exact (obeys_leaf rfl).mpr ⟨trivial, trivial⟩
  | list bounds _ ih => exact obeys_list_iff.mpr ⟨⟨trivial, rfl⟩, ih⟩
  | record marked _ _ _ types patterns others =>
    refine obeys_record.mpr ⟨⟨trivial, marked⟩, fun m hm => ?_, others⟩
    exact memberObeys_of (types m hm) (patterns m hm)
  | unionOf _ ih =>
    refine obeys_builtUnion ⟨trivial, trivial⟩ (fun members hd hlength => ⟨?_, trivial⟩) ih
    exact normal_union (fun e he => (obeys_self (ih e he)).1) hd hlength
  | intersectionOf _ ih =>
    refine obeys_builtIntersection ⟨trivial, trivial⟩ (fun members hd hlength => ⟨?_, trivial⟩) ih
    exact normal_intersection (fun e he => (obeys_self (ih e he)).1) hd hlength
  | pick group some once => exact obeys_pick.mpr ⟨⟨some, once⟩, trivial⟩
  | withHeaders _ _ content headers =>
    exact obeys_withHeaders_iff.mpr ⟨⟨trivial, trivial⟩, content, headers⟩

end ApiTypes.TypeExpr
