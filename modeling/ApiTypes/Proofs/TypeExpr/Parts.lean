/-
# What occurs in a type expression

Some properties of generated types are about everything that occurs in them at any depth: each
name of another node leads somewhere, each record has members of its own, each operation is
registered.  `TypeExpr.parts` lists what occurs, and `TypeExpr.Obeys P` says that all of it has the
property `P`.

* `TypeExpr.Plain`: an expression that names nothing and is no record, of which such properties
  say nothing.
* `TypeExpr.obeys_list`, `TypeExpr.obeys_record`, … take the property apart along the kinds of
  expressions; `TypeExpr.obeys_unionOf` and `TypeExpr.obeys_intersectionOf` say that building
  unions and intersections brings in nothing new.
* `TypeExpr.inclusive_parts`: what occurs in something that occurs, occurs.
-/
import ApiTypes.TypeExpr.Basic

namespace ApiTypes

/-- The names of the members of a record; patterns have none. -/
def Record.names (r : Record TypeExpr) : List String := r.members.filterMap Member.name?

namespace TypeExpr

/-! ## 1. Parts -/

mutual
/-- The expressions that occur in an expression, itself first.  The headers of a payload are a
record. -/
def parts : TypeExpr → List TypeExpr
  | list element bounds readonly => list element bounds readonly :: parts element
  | record r => record r :: recordParts r
  | union members => union members :: listParts members
  | intersection members => intersection members :: listParts members
  | withHeaders content headers =>
    withHeaders content headers :: (parts content ++ record headers :: recordParts headers)
  | primitive p => [primitive p]
  | literal l => [literal l]
  | reference p => [reference p]
  | operation name => [operation name]
  | pick group keys => [pick group keys]
  | never => [never]
  | unknown => [unknown]
  | void => [void]
termination_by structural e => e

/-- The expressions that occur in a list. -/
def listParts : List TypeExpr → List TypeExpr
  | [] => []
  | e :: rest => parts e ++ listParts rest
termination_by structural es => es

/-- The expressions that occur in a record. -/
def recordParts : Record TypeExpr → List TypeExpr
  | ⟨members, catchAll, _⟩ => membersParts members ++ optionParts catchAll
termination_by structural r => r

/-- The expressions that occur in members. -/
def membersParts : List (Member TypeExpr) → List TypeExpr
  | [] => []
  | m :: rest => memberParts m ++ membersParts rest
termination_by structural ms => ms

/-- The expressions that occur in a member, its key included. -/
def memberParts : Member TypeExpr → List TypeExpr
  | ⟨key, type, _, _, _⟩ => keyParts key ++ parts type
termination_by structural m => m

/-- The expressions that occur in a key. -/
def keyParts : MemberKey TypeExpr → List TypeExpr
  | .name _ => []
  | .template stretches => templateParts stretches
termination_by structural k => k

/-- The expressions that occur in a key pattern. -/
def templateParts : List (TemplatePart TypeExpr) → List TypeExpr
  | [] => []
  | s :: rest => stretchParts s ++ templateParts rest
termination_by structural ss => ss

/-- The expressions that occur in a stretch of a key pattern. -/
def stretchParts : TemplatePart TypeExpr → List TypeExpr
  | .text _ => []
  | .param type => parts type
termination_by structural s => s

/-- The expressions that occur in an optional expression. -/
def optionParts : Option TypeExpr → List TypeExpr
  | none => []
  | some e => parts e
termination_by structural e => e
end

theorem mem_listParts {x : TypeExpr} {es : List TypeExpr} :
    x ∈ listParts es ↔ ∃ e ∈ es, x ∈ parts e := by
  induction es with
  | nil => simp [listParts]
  | cons e rest ih => simp [listParts, ih]

theorem mem_membersParts {x : TypeExpr} {ms : List (Member TypeExpr)} :
    x ∈ membersParts ms ↔ ∃ m ∈ ms, x ∈ memberParts m := by
  induction ms with
  | nil => simp [membersParts]
  | cons m rest ih => simp [membersParts, ih]

theorem mem_templateParts {x : TypeExpr} {stretches : List (TemplatePart TypeExpr)} :
    x ∈ templateParts stretches ↔ ∃ s ∈ stretches, x ∈ stretchParts s := by
  induction stretches with
  | nil => simp [templateParts]
  | cons s rest ih => simp [templateParts, ih]

theorem mem_recordParts {x : TypeExpr} {r : Record TypeExpr} :
    x ∈ recordParts r ↔
      (∃ m ∈ r.members, x ∈ memberParts m) ∨ ∃ e, r.catchAll = some e ∧ x ∈ parts e := by
  obtain ⟨members, catchAll, _⟩ := r
  rw [recordParts, List.mem_append, mem_membersParts]
  cases catchAll with
  | none => simp [optionParts]
  | some e => simp [optionParts]

/-! ## 2. Properties of everything that occurs -/

/-- **Everything that occurs in an expression has a property.** -/
def Obeys (P : TypeExpr → Prop) (e : TypeExpr) : Prop := ∀ x ∈ parts e, P x

/-- The same of the expressions that occur in a member. -/
def MemberObeys (P : TypeExpr → Prop) (m : Member TypeExpr) : Prop := ∀ x ∈ memberParts m, P x

/-- An expression that names nothing and is no record. -/
def Plain : TypeExpr → Prop
  | reference _ | operation _ | pick _ _ | record _ => False
  | _ => True

/-- The pointers that an expression is made of satisfy `Q`, and the record that it is `D`; the
members picked from a collection count as pointers. -/
def Holds (Q : Pointer → Prop) (D : Record TypeExpr → Prop) : TypeExpr → Prop
  | reference p => Q p
  | pick group keys => ∀ key ∈ keys, Q (group.child key)
  | record r => D r
  | _ => True

section Obeys

variable {P : TypeExpr → Prop}

/-- An expression obeys if it does itself and the other expressions that occur in it do. -/
theorem obeys_of_parts {e : TypeExpr} {rest : List TypeExpr} (h : parts e = e :: rest) :
    Obeys P e ↔ P e ∧ ∀ x ∈ rest, P x := by
  unfold Obeys
  rw [h]
  exact List.forall_mem_cons

/-- An expression occurs in itself. -/
theorem obeys_self {e : TypeExpr} (h : Obeys P e) : P e := by
  cases e <;> exact h _ List.mem_cons_self

/-- An expression in which no other one occurs. -/
theorem obeys_leaf {e : TypeExpr} (h : parts e = [e]) : Obeys P e ↔ P e :=
  (obeys_of_parts h).trans (and_iff_left (List.forall_mem_nil _))

theorem obeys_reference {p : Pointer} : Obeys P (reference p) ↔ P (reference p) := obeys_leaf rfl

theorem obeys_operation {name : String} : Obeys P (operation name) ↔ P (operation name) :=
  obeys_leaf rfl

theorem obeys_pick {group : Pointer} {keys : List String} :
    Obeys P (pick group keys) ↔ P (pick group keys) :=
  obeys_leaf rfl

theorem obeys_record {r : Record TypeExpr} :
    Obeys P (record r) ↔ P (record r) ∧ (∀ m ∈ r.members, MemberObeys P m) ∧
      ∀ e, r.catchAll = some e → Obeys P e := by
  refine (obeys_of_parts rfl).trans (and_congr_right fun _ => ?_)
  simp only [mem_recordParts]
  constructor
  · intro h
    exact ⟨fun m hm x hx => h x (Or.inl ⟨m, hm, hx⟩), fun e he x hx => h x (Or.inr ⟨e, he, hx⟩)⟩
  · rintro ⟨hm, he⟩ x (⟨m, hmem, hx⟩ | ⟨e, hc, hx⟩)
    · exact hm m hmem x hx
    · exact he e hc x hx

/-- A record without a catch-all. -/
theorem obeys_closed {ms : List (Member TypeExpr)} :
    Obeys P (closed ms) ↔ P (record { members := ms }) ∧ ∀ m ∈ ms, MemberObeys P m := by
  rw [closed, obeys_record]
  simp

theorem holds_listParts {es : List TypeExpr} :
    (∀ x ∈ listParts es, P x) ↔ ∀ e ∈ es, Obeys P e := by
  simp only [mem_listParts]
  exact ⟨fun h e he x hx => h x ⟨e, he, hx⟩, fun h x ⟨e, he, hx⟩ => h e he x hx⟩

theorem obeys_list_iff {element : TypeExpr} {bounds : ListBounds} {readonly : Bool} :
    Obeys P (list element bounds readonly) ↔
      P (list element bounds readonly) ∧ Obeys P element :=
  obeys_of_parts rfl

theorem obeys_union_iff {members : List TypeExpr} :
    Obeys P (union members) ↔ P (union members) ∧ ∀ e ∈ members, Obeys P e :=
  (obeys_of_parts rfl).trans (and_congr_right fun _ => holds_listParts)

theorem obeys_intersection_iff {members : List TypeExpr} :
    Obeys P (intersection members) ↔ P (intersection members) ∧ ∀ e ∈ members, Obeys P e :=
  (obeys_of_parts rfl).trans (and_congr_right fun _ => holds_listParts)

theorem obeys_withHeaders_iff {content : TypeExpr} {headers : Record TypeExpr} :
    Obeys P (withHeaders content headers) ↔
      P (withHeaders content headers) ∧ Obeys P content ∧ Obeys P (record headers) :=
  (obeys_of_parts rfl).trans (and_congr_right fun _ => List.forall_mem_append)

/-- What occurs in the alternatives occurs in the union. -/
theorem obeys_of_union {members : List TypeExpr} (h : Obeys P (union members)) :
    ∀ e ∈ members, Obeys P e :=
  (obeys_union_iff.mp h).2

theorem obeys_of_intersection {members : List TypeExpr} (h : Obeys P (intersection members)) :
    ∀ e ∈ members, Obeys P e :=
  (obeys_intersection_iff.mp h).2

/-- What occurs in the type of a member occurs in the member. -/
theorem obeys_of_memberObeys {m : Member TypeExpr} (h : MemberObeys P m) : Obeys P m.type := by
  obtain ⟨key, type, _, _, _⟩ := m
  exact fun x hx => h x (List.mem_append_right _ hx)

/-- A member under a name has nothing but its type. -/
theorem memberObeys_name {m : Member TypeExpr} {name : String} (h : m.key = .name name) :
    MemberObeys P m ↔ Obeys P m.type := by
  obtain ⟨key, type, _, _, _⟩ := m
  cases h
  simp [MemberObeys, Obeys, memberParts, keyParts]

/-! ## 3. Building -/

/-- What obeys may be left out of a list of alternatives. -/
theorem mem_of_mem_distinct {es : List TypeExpr} {x : TypeExpr} (h : x ∈ distinct es) :
    x ∈ es := by
  suffices ∀ kept, x ∈ es.foldl addDistinct kept → x ∈ kept ∨ x ∈ es from
    (this [] h).resolve_left (by simp)
  clear h
  induction es with
  | nil => exact fun _ h => Or.inl h
  | cons e rest ih =>
    intro kept h
    rcases ih _ h with h | h
    · unfold addDistinct at h
      split at h
      · exact Or.inl h
      · rcases List.mem_append.mp h with h | h
        · exact Or.inl h
        · exact Or.inr (List.mem_singleton.mp h ▸ List.mem_cons_self)
    · exact Or.inr (List.mem_cons_of_mem _ h)

theorem obeys_alternatives {e : TypeExpr} (h : Obeys P e) :
    ∀ a ∈ alternatives e, Obeys P a := by
  cases e with
  | union members => exact obeys_of_union h
  | never => simp [alternatives]
  | primitive | literal | reference | operation | list | record | intersection | pick
  | withHeaders | unknown | void => exact fun a ha => List.mem_singleton.mp ha ▸ h

theorem obeys_constituents {e : TypeExpr} (h : Obeys P e) :
    ∀ c ∈ constituents e, Obeys P c := by
  cases e with
  | intersection members => exact obeys_of_intersection h
  | primitive | literal | reference | operation | list | record | union | pick | withHeaders
  | never | unknown | void => exact fun c hc => List.mem_singleton.mp hc ▸ h

/-- **Nothing new comes into a union** but the union itself. -/
theorem obeys_builtUnion {es : List TypeExpr} (hnever : P never)
    (hunion : ∀ members, distinct (es.flatMap alternatives) = members → 2 ≤ members.length →
      P (union members)) (h : ∀ e ∈ es, Obeys P e) : Obeys P (unionOf es) := by
  have hparts : ∀ a ∈ distinct (es.flatMap alternatives), Obeys P a := by
    intro a ha
    obtain ⟨e, he, ha⟩ := List.mem_flatMap.mp (mem_of_mem_distinct ha)
    exact obeys_alternatives (h e he) a ha
  rw [unionOf]
  split
  · exact (obeys_leaf rfl).mpr hnever
  · rename_i hd
    exact hparts _ (by simp [hd])
  · rename_i hnil hone
    refine obeys_union_iff.mpr ⟨hunion _ rfl ?_, hparts⟩
    match hd : distinct (es.flatMap alternatives) with
    | [] => exact (hnil hd).elim
    | [e] => exact (hone e hd).elim
    | _ :: _ :: _ => exact Nat.le_add_left _ _

/-- **Nothing new comes into an intersection** but the intersection itself. -/
theorem obeys_builtIntersection {es : List TypeExpr} (hunknown : P unknown)
    (hintersection : ∀ members, es.flatMap constituents = members → 2 ≤ members.length →
      P (intersection members)) (h : ∀ e ∈ es, Obeys P e) : Obeys P (intersectionOf es) := by
  have hparts : ∀ c ∈ es.flatMap constituents, Obeys P c := by
    intro c hc
    obtain ⟨e, he, hc⟩ := List.mem_flatMap.mp hc
    exact obeys_constituents (h e he) c hc
  rw [intersectionOf]
  split
  · exact (obeys_leaf rfl).mpr hunknown
  · rename_i hd
    exact hparts _ (by simp [hd])
  · rename_i hnil hone
    refine obeys_intersection_iff.mpr ⟨hintersection _ rfl ?_, hparts⟩
    match hd : es.flatMap constituents with
    | [] => exact (hnil hd).elim
    | [e] => exact (hone e hd).elim
    | _ :: _ :: _ => exact Nat.le_add_left _ _

section Plain

variable (hplain : ∀ e, Plain e → P e)

include hplain

theorem obeys_primitive {p : Primitive} : Obeys P (primitive p) :=
  (obeys_leaf rfl).mpr (hplain _ trivial)

theorem obeys_literal {l : Literal} : Obeys P (literal l) :=
  (obeys_leaf rfl).mpr (hplain _ trivial)

theorem obeys_null : Obeys P null := obeys_literal hplain

theorem obeys_never : Obeys P never := (obeys_leaf rfl).mpr (hplain _ trivial)

theorem obeys_unknown : Obeys P unknown := (obeys_leaf rfl).mpr (hplain _ trivial)

theorem obeys_void : Obeys P void := (obeys_leaf rfl).mpr (hplain _ trivial)

theorem obeys_list {element : TypeExpr} {bounds : ListBounds} {readonly : Bool} :
    Obeys P (list element bounds readonly) ↔ Obeys P element :=
  obeys_list_iff.trans (and_iff_right (hplain _ trivial))

theorem obeys_union {members : List TypeExpr} :
    Obeys P (union members) ↔ ∀ e ∈ members, Obeys P e :=
  obeys_union_iff.trans (and_iff_right (hplain (union members) trivial))

theorem obeys_intersection {members : List TypeExpr} :
    Obeys P (intersection members) ↔ ∀ e ∈ members, Obeys P e :=
  obeys_intersection_iff.trans (and_iff_right (hplain (intersection members) trivial))

theorem obeys_withHeaders {content : TypeExpr} {headers : Record TypeExpr} :
    Obeys P (withHeaders content headers) ↔ Obeys P content ∧ Obeys P (record headers) :=
  obeys_withHeaders_iff.trans (and_iff_right (hplain (withHeaders content headers) trivial))

theorem obeys_unionOf {es : List TypeExpr} (h : ∀ e ∈ es, Obeys P e) : Obeys P (unionOf es) :=
  obeys_builtUnion (hplain never trivial) (fun members _ _ => hplain (union members) trivial) h

theorem obeys_intersectionOf {es : List TypeExpr} (h : ∀ e ∈ es, Obeys P e) :
    Obeys P (intersectionOf es) :=
  obeys_builtIntersection (hplain unknown trivial)
    (fun members _ _ => hplain (intersection members) trivial) h

theorem obeys_of_constituents {e : TypeExpr} (h : ∀ c ∈ constituents e, Obeys P c) :
    Obeys P e := by
  cases e with
  | intersection members => exact (obeys_intersection hplain).mpr h
  | primitive | literal | reference | operation | list | record | union | pick | withHeaders
  | never | unknown | void => exact h _ (List.mem_singleton_self _)

/-- Nothing is left out of an intersection. -/
theorem of_obeys_intersectionOf {es : List TypeExpr} (h : Obeys P (intersectionOf es)) :
    ∀ e ∈ es, Obeys P e := by
  intro e he
  refine obeys_of_constituents hplain fun c hc => ?_
  have hmem : c ∈ es.flatMap constituents := List.mem_flatMap.mpr ⟨e, he, hc⟩
  rw [intersectionOf] at h
  split at h <;> rename_i hd
  · rw [hd] at hmem
    cases hmem
  · rw [hd] at hmem
    rw [List.mem_singleton.mp hmem]
    exact h
  · exact obeys_of_intersection h c hmem

theorem obeys_orNull {e : TypeExpr} (h : Obeys P e) : Obeys P e.orNull :=
  obeys_unionOf hplain (by simp [h, obeys_null hplain])

end Plain

end Obeys

/-- What says something of pointers and records only says nothing of plain expressions. -/
theorem holds_plain {Q : Pointer → Prop} {D : Record TypeExpr → Prop} (e : TypeExpr)
    (h : Plain e) : Holds Q D e := by
  cases e with
  | reference | pick | record => exact h.elim
  | primitive | literal | operation | list | union | intersection | withHeaders | never
  | unknown | void => trivial

/-! ## 4. Parts of parts -/

/-- Whatever occurs in one of the expressions of a list is in the list. -/
def Inclusive (es : List TypeExpr) : Prop := ∀ x ∈ es, parts x ⊆ es

theorem inclusive_append {es fs : List TypeExpr} (he : Inclusive es) (hf : Inclusive fs) :
    Inclusive (es ++ fs) :=
  List.forall_mem_append.mpr ⟨fun x hx => List.subset_append_of_subset_left _ (he x hx),
    fun x hx => List.subset_append_of_subset_right _ (hf x hx)⟩

theorem inclusive_cons {e : TypeExpr} {rest : List TypeExpr} (h : parts e = e :: rest)
    (hrest : Inclusive rest) : Inclusive (e :: rest) :=
  List.forall_mem_cons.mpr
    ⟨h ▸ List.Subset.refl _, fun x hx => List.subset_cons_of_subset _ (hrest x hx)⟩

mutual
/-- **What occurs in something that occurs, occurs.** -/
theorem inclusive_parts : ∀ e : TypeExpr, Inclusive (parts e)
  | list e _ _ => inclusive_cons rfl (inclusive_parts e)
  | record r => inclusive_cons rfl (inclusive_recordParts r)
  | union es => inclusive_cons rfl (inclusive_listParts es)
  | intersection es => inclusive_cons rfl (inclusive_listParts es)
  | withHeaders content headers =>
    inclusive_cons rfl (inclusive_append (inclusive_parts content)
      (inclusive_cons rfl (inclusive_recordParts headers)))
  | primitive _ | literal _ | reference _ | operation _ | pick _ _ | never | unknown | void =>
    inclusive_cons rfl (List.forall_mem_nil _)

theorem inclusive_listParts : ∀ es : List TypeExpr, Inclusive (listParts es)
  | [] => List.forall_mem_nil _
  | e :: es => inclusive_append (inclusive_parts e) (inclusive_listParts es)

theorem inclusive_recordParts : ∀ r : Record TypeExpr, Inclusive (recordParts r)
  | ⟨ms, none, _⟩ => inclusive_append (inclusive_membersParts ms) (List.forall_mem_nil _)
  | ⟨ms, some e, _⟩ => inclusive_append (inclusive_membersParts ms) (inclusive_parts e)

theorem inclusive_membersParts : ∀ ms : List (Member TypeExpr), Inclusive (membersParts ms)
  | [] => List.forall_mem_nil _
  | ⟨.name _, type, _, _, _⟩ :: ms =>
    inclusive_append (inclusive_append (List.forall_mem_nil _) (inclusive_parts type))
      (inclusive_membersParts ms)
  | ⟨.template stretches, type, _, _, _⟩ :: ms =>
    inclusive_append (inclusive_append (inclusive_templateParts stretches) (inclusive_parts type))
      (inclusive_membersParts ms)

theorem inclusive_templateParts : ∀ stretches : List (TemplatePart TypeExpr),
    Inclusive (templateParts stretches)
  | [] => List.forall_mem_nil _
  | .text _ :: stretches =>
    inclusive_append (List.forall_mem_nil _) (inclusive_templateParts stretches)
  | .param e :: stretches =>
    inclusive_append (inclusive_parts e) (inclusive_templateParts stretches)
end

theorem Obeys.of_mem {P : TypeExpr → Prop} {e x : TypeExpr} (h : Obeys P e) (hx : x ∈ parts e) :
    Obeys P x :=
  fun y hy => h y (inclusive_parts e x hx hy)

end TypeExpr

end ApiTypes
