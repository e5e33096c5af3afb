/-
# The values that a type expression admits

`TypeExpr.Admits` reads records strictly: an object has no fields beyond those that a record
declares or its catch-all covers.  It is the strict reading of `TypeExpr.Values`
(`TypeExpr.admits_eq_values`), and what is known of values there holds of it.

* `TypeExpr.admits_unionOf`, `TypeExpr.admits_intersectionOf`, `TypeExpr.admits_orNull` say which
  values the built expressions admit.
-/
import ApiTypes.Proofs.TypeExpr.Values

namespace ApiTypes

namespace TypeExpr

/-! ## 1. Expressions -/

mutual
/-- **The values of a type expression**, `ρ` being the values of the types that stand at
pointers.  Types of whole operations and of content with headers have no JSON values. -/
def Admits (ρ : Pointer → Json → Prop) : TypeExpr → Json → Prop
  | primitive p, v => p.Admits v
  | literal l, v => l.Admits v
  | reference p, v => ρ p v
  | list element bounds _, v =>
    ∃ items, v = .array items ∧ bounds.Admits items.length ∧ ∀ w ∈ items, Admits ρ element w
  | record r, v => ∃ fields, v = .object fields ∧ RecordAdmits ρ r fields
  | union members, v => ∃ P ∈ admissions ρ members, P v
  | intersection members, v => ∀ P ∈ admissions ρ members, P v
  | unknown, _ => True
  | operation _, _ | pick _ _, _ | withHeaders _ _, _ | never, _ | void, _ => False
termination_by structural e => e

/-- The conditions that the expressions of a list state. -/
def admissions (ρ : Pointer → Json → Prop) : List TypeExpr → List (Json → Prop)
  | [] => []
  | e :: rest => Admits ρ e :: admissions ρ rest
termination_by structural es => es

/-- The fields of an object fit the members of a record, and any other field its catch-all. -/
def RecordAdmits (ρ : Pointer → Json → Prop) :
    Record TypeExpr → List (String × Json) → Prop
  | ⟨members, catchAll, _⟩, fields =>
    (∀ P ∈ memberAdmissions ρ members, P fields) ∧
      ∀ field ∈ fields, field.1 ∉ members.filterMap Member.name? → OptionAdmits ρ catchAll field.2
termination_by structural r => r

/-- The conditions that the members of a record state. -/
def memberAdmissions (ρ : Pointer → Json → Prop) :
    List (Member TypeExpr) → List (List (String × Json) → Prop)
  | [] => []
  | m :: rest => MemberAdmits ρ m :: memberAdmissions ρ rest
termination_by structural ms => ms

/-- The field of a name has the type of the member, and is there unless it need not be.  No
object has a member under a pattern. -/
def MemberAdmits (ρ : Pointer → Json → Prop) :
    Member TypeExpr → List (String × Json) → Prop
  | ⟨.name name, type, optional, _, _⟩, fields =>
    (∀ w, Json.lookup name fields = some w → Admits ρ type w) ∧
      (Json.lookup name fields = none → optional = true)
  | ⟨.template _, _, _, _, _⟩, _ => False
termination_by structural m => m

/-- Without a catch-all there are no other fields. -/
def OptionAdmits (ρ : Pointer → Json → Prop) : Option TypeExpr → Json → Prop
  | none, _ => False
  | some e, v => Admits ρ e v
termination_by structural e => e
end

theorem memberAdmissions_eq_map (ρ : Pointer → Json → Prop) (ms : List (Member TypeExpr)) :
    memberAdmissions ρ ms = ms.map (MemberAdmits ρ) := by
  induction ms with
  | nil => rfl
  | cons m rest ih => rw [memberAdmissions, ih, List.map_cons]

/-! ## 2. The strict reading -/

section Strict

variable {ρ : Pointer → Json → Prop}

mutual
/-- **Admission is the strict reading of values.** -/
theorem admits_eq_values (e : TypeExpr) : Admits ρ e = Values .strict ρ e := by
  cases e with
  | list element bounds readonly =>
    funext v
    simp only [Admits, Values, admits_eq_values element]
  | record r =>
    funext v
    simp only [Admits, Values, recordAdmits_eq_recordValues r]
  | union members | intersection members =>
    funext v
    simp only [Admits, Values, admissions_eq_valuesOf members]
  | primitive | literal | reference | operation | pick | withHeaders | never | unknown | void =>
    rfl

theorem admissions_eq_valuesOf : ∀ es : List TypeExpr,
    admissions ρ es = valuesOf .strict ρ es
  | [] => rfl
  | e :: rest => by
    rw [admissions, valuesOf, admits_eq_values e, admissions_eq_valuesOf rest]

theorem recordAdmits_eq_recordValues : ∀ r : Record TypeExpr,
    RecordAdmits ρ r = RecordValues .strict ρ r
  | ⟨members, catchAll, _⟩ => by
    funext fields
    simp only [RecordAdmits, RecordValues, memberAdmissions_eq_memberValues members,
      optionAdmits_eq_otherValues members catchAll]

theorem memberAdmissions_eq_memberValues : ∀ ms : List (Member TypeExpr),
    memberAdmissions ρ ms = memberValues .strict ρ ms
  | [] => rfl
  | m :: rest => by
    rw [memberAdmissions, memberValues, memberAdmits_eq_memberValues m,
      memberAdmissions_eq_memberValues rest]

theorem memberAdmits_eq_memberValues : ∀ m : Member TypeExpr,
    MemberAdmits ρ m = MemberValues .strict ρ m
  | ⟨.name name, type, optional, _, _⟩ => by
    funext fields
    simp only [MemberAdmits, MemberValues, admits_eq_values type]
  | ⟨.template _, _, _, _, _⟩ => rfl

theorem optionAdmits_eq_otherValues (members : List (Member TypeExpr)) :
    ∀ catchAll : Option TypeExpr, OptionAdmits ρ catchAll =
      OtherValues .strict ρ (Reading.strict = .lenient ∧ members ≠ []) catchAll
  | none => by
    funext v
    simp [OptionAdmits, OtherValues]
  | some e => by
    funext v
    simp only [OptionAdmits, OtherValues, admits_eq_values e]
end

/-! ## 3. Unions and intersections -/

variable {v : Json}

/-- **A built union admits what one of its parts admits.** -/
theorem admits_unionOf {es : List TypeExpr} :
    Admits ρ (unionOf es) v ↔ ∃ e ∈ es, Admits ρ e v := by
  simp only [admits_eq_values, values_unionOf]

/-- **A built intersection admits what all its parts admit.** -/
theorem admits_intersectionOf {es : List TypeExpr} :
    Admits ρ (intersectionOf es) v ↔ ∀ e ∈ es, Admits ρ e v := by
  simp only [admits_eq_values, values_intersectionOf]

theorem admits_orNull {e : TypeExpr} :
    Admits ρ e.orNull v ↔ Admits ρ e v ∨ v = .null := by
  simp only [admits_eq_values, values_orNull]

end Strict

end TypeExpr

end ApiTypes
