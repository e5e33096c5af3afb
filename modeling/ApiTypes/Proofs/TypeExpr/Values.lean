/-
# The values of type expressions

A type expression stands for a set of JSON values, given what the named types stand for.  Records
leave one thing open: whether an object may have fields that a record without a catch-all does not
declare.  Under the strict reading it may not.  Under the lenient one, which is that of structural
types, it may, unless the record declares nothing at all.

* `TypeExpr.Values` says which values an expression has under a reading.
* `TypeExpr.values_eq_of_sameShape`: expressions of one shape have the same values.
* `TypeExpr.values_unionOf`, `TypeExpr.values_intersectionOf`, `TypeExpr.values_orNull` say which
  values the built expressions have, although building drops alternatives, merges nested ones and
  compares without comments.
-/
import ApiTypes.Proofs.Schema.Meaning
import ApiTypes.TypeExpr.Basic

namespace ApiTypes

/-! ## 1. Single values and lengths -/

/-- The values of a primitive type. -/
def Primitive.Admits : Primitive → Json → Prop
  | string, v => v.HasType "string"
  | number, v => v.HasType "number"
  | boolean, v => v.HasType "boolean"

/-- The value that a literal spells; numbers are compared by the number they stand for. -/
def Literal.Admits : Literal → Json → Prop
  | string s, v => v = .string s
  | number n, v => ∃ m, v = .number m ∧ m.toRat = n.toRat
  | boolean b, v => v = .bool b
  | null, v => v = .null

/-- The lengths that bounds allow. -/
def ListBounds.Admits : ListBounds → Nat → Prop
  | unbounded, _ => True
  | exact length, n => n = length
  | atLeast length, n => length ≤ n

theorem Literal.admits_eq_of_sameValue {a b : Literal} (h : a.sameValue b = true) :
    a.Admits = b.Admits := by
  cases a <;> cases b <;> simp only [sameValue, decide_eq_true_eq] at h
  case string.string => rw [h]
  case number.number => funext v; simp only [Admits, JsonNumber.toRat_eq_of_sameValue h]
  case boolean.boolean => rw [h]
  case null.null => rfl
  all_goals exact absurd h (by simp)

/-! ## 2. Expressions -/

/-- Which fields of an object a record without a catch-all leaves free, beside those that it
declares. -/
inductive Reading where
  /-- None. -/
  | strict
  /-- All of them, if the record declares any field. -/
  | lenient
  deriving DecidableEq, Repr

namespace TypeExpr

mutual
/-- **The values of a type expression** under a reading of records, `ρ` being the values of the
types that stand at pointers.  Types of whole operations and of content with headers have no JSON
values. -/
def Values (reading : Reading) (ρ : Pointer → Json → Prop) : TypeExpr → Json → Prop
  | primitive p, v => p.Admits v
  | literal l, v => l.Admits v
  | reference p, v => ρ p v
  | list element bounds _, v =>
    ∃ items, v = .array items ∧ bounds.Admits items.length ∧
      ∀ w ∈ items, Values reading ρ element w
  | record r, v => ∃ fields, v = .object fields ∧ RecordValues reading ρ r fields
  | union members, v => ∃ P ∈ valuesOf reading ρ members, P v
  | intersection members, v => ∀ P ∈ valuesOf reading ρ members, P v
  | unknown, _ => True
  | operation _, _ | pick _ _, _ | withHeaders _ _, _ | never, _ | void, _ => False
termination_by structural e => e

/-- The conditions that the expressions of a list state. -/
def valuesOf (reading : Reading) (ρ : Pointer → Json → Prop) :
    List TypeExpr → List (Json → Prop)
  | [] => []
  | e :: rest => Values reading ρ e :: valuesOf reading ρ rest
termination_by structural es => es

/-- The fields of an object fit the members of a record, and any other field its catch-all. -/
def RecordValues (reading : Reading) (ρ : Pointer → Json → Prop) :
    Record TypeExpr → List (String × Json) → Prop
  | ⟨members, catchAll, _⟩, fields =>
    (∀ P ∈ memberValues reading ρ members, P fields) ∧
      ∀ field ∈ fields, field.1 ∉ members.filterMap Member.name? →
        OtherValues reading ρ (reading = .lenient ∧ members ≠ []) catchAll field.2
termination_by structural r => r

/-- The conditions that the members of a record state. -/
def memberValues (reading : Reading) (ρ : Pointer → Json → Prop) :
    List (Member TypeExpr) → List (List (String × Json) → Prop)
  | [] => []
  | m :: rest => MemberValues reading ρ m :: memberValues reading ρ rest
termination_by structural ms => ms

/-- The field of a name has the type of the member, and is there unless it need not be.  No
object has a member under a pattern. -/
def MemberValues (reading : Reading) (ρ : Pointer → Json → Prop) :
    Member TypeExpr → List (String × Json) → Prop
  | ⟨.name name, type, optional, _, _⟩, fields =>
    (∀ w, Json.lookup name fields = some w → Values reading ρ type w) ∧
      (Json.lookup name fields = none → optional = true)
  | ⟨.template _, _, _, _, _⟩, _ => False
termination_by structural m => m

/-- A further field has the type of the catch-all; without one it is there if fields are free. -/
def OtherValues (reading : Reading) (ρ : Pointer → Json → Prop) (free : Prop) :
    Option TypeExpr → Json → Prop
  | none, _ => free
  | some e, v => Values reading ρ e v
termination_by structural e => e
end

variable {reading : Reading} {ρ : Pointer → Json → Prop}

theorem valuesOf_eq_map (es : List TypeExpr) :
    valuesOf reading ρ es = es.map (Values reading ρ) := by
  induction es with
  | nil => rfl
  | cons e rest ih => rw [valuesOf, ih, List.map_cons]

theorem memberValues_eq_map (ms : List (Member TypeExpr)) :
    memberValues reading ρ ms = ms.map (MemberValues reading ρ) := by
  induction ms with
  | nil => rfl
  | cons m rest ih => rw [memberValues, ih, List.map_cons]

/-! ## 3. Expressions of one shape -/

section SameShape

/-- Members under the same key ask the same of an object, if their types do. -/
theorem memberValues_eq {k l : MemberKey TypeExpr} {t u : TypeExpr} {o p r s : Bool}
    {d e : Option String} (hk : equalKey k l = true)
    (ht : Values reading ρ t = Values reading ρ u) (ho : o = p) :
    MemberValues reading ρ ⟨k, t, o, r, d⟩ = MemberValues reading ρ ⟨l, u, p, s, e⟩ := by
  cases k with
  | name a =>
    cases l with
    | name b =>
      rw [equalKey, decide_eq_true_eq] at hk
      funext fields
      simp only [MemberValues, hk, ht, ho]
    | template bs => exact absurd hk (by simp [equalKey])
  | template as =>
    cases l with
    | name b => exact absurd hk (by simp [equalKey])
    | template bs => rfl

theorem name?_eq {k l : MemberKey TypeExpr} (hk : equalKey k l = true) (t u : TypeExpr)
    (o p r s : Bool) (d e : Option String) :
    Member.name? (Member.mk k t o r d) = Member.name? (Member.mk l u p s e) := by
  cases k with
  | name a =>
    cases l with
    | name b =>
      rw [equalKey, decide_eq_true_eq] at hk
      rw [Member.name?, Member.name?, hk]
    | template bs => exact absurd hk (by simp [equalKey])
  | template as =>
    cases l with
    | name b => exact absurd hk (by simp [equalKey])
    | template bs => rfl

theorem names_eq_of_sameMembers (ms ns : List (Member TypeExpr)) (h : sameMembers ms ns = true) :
    ms.filterMap Member.name? = ns.filterMap Member.name? := by
  induction ms generalizing ns with
  | nil =>
    cases ns with
    | nil => rfl
    | cons n ns => exact absurd h (by simp [sameMembers])
  | cons m ms ih =>
    cases ns with
    | nil => exact absurd h (by simp [sameMembers])
    | cons n ns =>
      obtain ⟨k, t, o, r, d⟩ := m
      obtain ⟨l, u, p, s, e⟩ := n
      simp only [sameMembers, sameMember, Bool.and_eq_true, decide_eq_true_eq] at h
      rw [List.filterMap_cons, List.filterMap_cons, name?_eq h.1.1.1.1 t u o p r s d e, ih ns h.2]

theorem ne_nil_iff_of_sameMembers {ms ns : List (Member TypeExpr)}
    (h : sameMembers ms ns = true) : ms ≠ [] ↔ ns ≠ [] := by
  cases ms <;> cases ns <;> simp_all [sameMembers]

mutual
/-- **Expressions of one shape have the same values.** -/
theorem values_eq_of_sameShape (a b : TypeExpr) (h : sameShape a b = true) :
    Values reading ρ a = Values reading ρ b := by
  cases a with
  | record r =>
    cases b with
    | record s =>
      rw [sameShape] at h
      funext v
      simp only [Values, recordValues_eq_of_sameRecord r s h]
    | _ => exact absurd h (by simp [sameShape, equal])
  | list a m r =>
    cases b with
    | list b n s =>
      simp only [sameShape, Bool.and_eq_true, decide_eq_true_eq] at h
      funext v
      simp only [Values, h.1.1, values_eq_of_sameShape a b h.2]
    | _ => exact absurd h (by simp [sameShape, equal])
  | union as =>
    cases b with
    | union bs =>
      rw [sameShape] at h
      funext v
      simp only [Values, valuesOf_eq_of_sameShapes as bs h]
    | _ => exact absurd h (by simp [sameShape, equal])
  | intersection as =>
    cases b with
    | intersection bs =>
      rw [sameShape] at h
      funext v
      simp only [Values, valuesOf_eq_of_sameShapes as bs h]
    | _ => exact absurd h (by simp [sameShape, equal])
  | withHeaders =>
    cases b with
    | withHeaders => rfl
    | _ => exact absurd h (by simp [sameShape, equal])
  | literal l =>
    cases b with
    | literal l' =>
      simp only [sameShape, equal] at h
      funext v
      simp only [Values, Literal.admits_eq_of_sameValue h]
    | _ => exact absurd h (by simp [sameShape, equal])
  | primitive | reference | operation | pick | never | unknown | void =>
    cases b <;> simp_all [sameShape, equal]

theorem valuesOf_eq_of_sameShapes : ∀ (as bs : List TypeExpr), sameShapes as bs = true →
    valuesOf reading ρ as = valuesOf reading ρ bs
  | [], [], _ => rfl
  | [], _ :: _, h => absurd h (by simp [sameShapes])
  | _ :: _, [], h => absurd h (by simp [sameShapes])
  | a :: as, b :: bs, h => by
    rw [sameShapes, Bool.and_eq_true] at h
    rw [valuesOf, valuesOf, values_eq_of_sameShape a b h.1, valuesOf_eq_of_sameShapes as bs h.2]

theorem recordValues_eq_of_sameRecord : ∀ (r s : Record TypeExpr), sameRecord r s = true →
    RecordValues reading ρ r = RecordValues reading ρ s
  | ⟨ms, c, _⟩, ⟨ns, d, _⟩, h => by
    simp only [sameRecord, Bool.and_eq_true] at h
    funext fields
    simp only [RecordValues, memberValues_eq_of_sameMembers ms ns h.1.1,
      names_eq_of_sameMembers ms ns h.1.1, ne_nil_iff_of_sameMembers h.1.1,
      otherValues_eq_of_sameOption _ c d h.1.2]

theorem memberValues_eq_of_sameMembers : ∀ (ms ns : List (Member TypeExpr)),
    sameMembers ms ns = true → memberValues reading ρ ms = memberValues reading ρ ns
  | [], [], _ => rfl
  | [], _ :: _, h => absurd h (by simp [sameMembers])
  | _ :: _, [], h => absurd h (by simp [sameMembers])
  | ⟨k, t, o, r, d⟩ :: ms, ⟨l, u, p, s, e⟩ :: ns, h => by
    simp only [sameMembers, sameMember, Bool.and_eq_true, decide_eq_true_eq] at h
    rw [memberValues, memberValues, memberValues_eq_of_sameMembers ms ns h.2,
      memberValues_eq h.1.1.1.1 (values_eq_of_sameShape t u h.1.1.1.2) h.1.1.2]

theorem otherValues_eq_of_sameOption (free : Prop) : ∀ (c d : Option TypeExpr),
    sameOption c d = true → OtherValues reading ρ free c = OtherValues reading ρ free d
  | none, none, _ => rfl
  | none, some _, h => absurd h (by simp [sameOption])
  | some _, none, h => absurd h (by simp [sameOption])
  | some c, some d, h => by
    funext v
    rw [sameOption] at h
    exact congrFun (values_eq_of_sameShape c d h) v
end

end SameShape

/-! ## 4. Unions and intersections -/

section Combine

variable {v : Json}

theorem values_union {members : List TypeExpr} :
    Values reading ρ (union members) v ↔ ∃ e ∈ members, Values reading ρ e v := by
  simp [Values, valuesOf_eq_map]

theorem values_intersection {members : List TypeExpr} :
    Values reading ρ (intersection members) v ↔ ∀ e ∈ members, Values reading ρ e v := by
  rw [Values, valuesOf_eq_map]
  exact List.forall_mem_map

/-- The values of an expression are those of its alternatives. -/
theorem values_iff_alternatives (e : TypeExpr) :
    Values reading ρ e v ↔ ∃ a ∈ alternatives e, Values reading ρ a v := by
  cases e with
  | union members => exact values_union
  | never => simp [alternatives, Values]
  | primitive | literal | reference | operation | list | record | intersection | pick
  | withHeaders | unknown | void => simp [alternatives]

/-- Dropping repeated shapes drops no value. -/
theorem exists_addDistinct {kept : List TypeExpr} {e : TypeExpr} :
    (∃ a ∈ addDistinct kept e, Values reading ρ a v) ↔
      (∃ a ∈ kept, Values reading ρ a v) ∨ Values reading ρ e v := by
  unfold addDistinct
  split
  · rename_i hany
    obtain ⟨k, hk, hsame⟩ := List.any_eq_true.mp hany
    refine ⟨Or.inl, ?_⟩
    rintro (h | h)
    · exact h
    · exact ⟨k, hk, values_eq_of_sameShape _ _ hsame ▸ h⟩
  · simp [or_and_right, exists_or]

theorem exists_foldl_addDistinct : ∀ {es kept : List TypeExpr},
    (∃ a ∈ es.foldl addDistinct kept, Values reading ρ a v) ↔
      (∃ a ∈ kept, Values reading ρ a v) ∨ ∃ e ∈ es, Values reading ρ e v
  | [], _ => by simp
  | e :: rest, kept => by
    rw [List.foldl_cons, exists_foldl_addDistinct, exists_addDistinct, or_assoc]
    simp

/-- **A built union has the values of all its parts**, and no others. -/
theorem values_unionOf {es : List TypeExpr} :
    Values reading ρ (unionOf es) v ↔ ∃ e ∈ es, Values reading ρ e v := by
  have hparts : (∃ a ∈ distinct (es.flatMap alternatives), Values reading ρ a v) ↔
      ∃ e ∈ es, Values reading ρ e v := by
    rw [distinct, exists_foldl_addDistinct]
    constructor
    · rintro (h | ⟨a, ha, h⟩)
      · exact absurd h (by simp)
      · obtain ⟨e, he, ha⟩ := List.mem_flatMap.mp ha
        exact ⟨e, he, (values_iff_alternatives e).mpr ⟨a, ha, h⟩⟩
    · rintro ⟨e, he, h⟩
      obtain ⟨a, ha, h⟩ := (values_iff_alternatives e).mp h
      exact Or.inr ⟨a, List.mem_flatMap.mpr ⟨e, he, ha⟩, h⟩
  rw [← hparts, unionOf]
  split <;> rename_i hd
  · simp [hd, Values]
  · simp [hd]
  · rw [values_union]

/-- The values of an expression are those that all its constituents have. -/
theorem values_iff_constituents (e : TypeExpr) :
    Values reading ρ e v ↔ ∀ c ∈ constituents e, Values reading ρ c v := by
  cases e with
  | intersection members => exact values_intersection
  | primitive | literal | reference | operation | list | record | union | pick | withHeaders
  | never | unknown | void => simp [constituents]

/-- **A built intersection has the values that all its parts have.** -/
theorem values_intersectionOf {es : List TypeExpr} :
    Values reading ρ (intersectionOf es) v ↔ ∀ e ∈ es, Values reading ρ e v := by
  have hparts : (∀ c ∈ es.flatMap constituents, Values reading ρ c v) ↔
      ∀ e ∈ es, Values reading ρ e v := by
    constructor
    · intro h e he
      rw [values_iff_constituents]
      exact fun c hc => h c (List.mem_flatMap.mpr ⟨e, he, hc⟩)
    · intro h c hc
      obtain ⟨e, he, hc⟩ := List.mem_flatMap.mp hc
      exact (values_iff_constituents e).mp (h e he) c hc
  rw [← hparts, intersectionOf]
  split <;> rename_i hd
  · simp [hd, Values]
  · simp [hd]
  · rw [values_intersection]

theorem values_orNull {e : TypeExpr} :
    Values reading ρ e.orNull v ↔ Values reading ρ e v ∨ v = .null := by
  rw [orNull, values_unionOf]
  simp [null, Values, Literal.Admits]

end Combine

end TypeExpr

end ApiTypes
