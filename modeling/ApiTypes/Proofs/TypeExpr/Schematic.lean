/-
# What is seen of the types of schemas

Two things that an expression says are not written: whether further members are read-only where
there are none, and that the whole document is referred to and not any value.  Two types of
schemas without comments that agree in all that is written are written alike, and as long as the
nodes that they refer to have names of their own, no others are.

* `TypeExpr.visible` is an expression without what is not written; `TypeExpr.renderAt_visible`.
* `TypeExpr.Schematic` says what the type of a schema looks like, `TypeExpr.WellNamed` that a
  reference can be told from other types.
* `TypeExpr.renderAt_bare_iff`: when two types of schemas are written alike.
* `TypeExpr.sameShape_of_render`: where nothing is left unwritten they have one shape.
-/
import ApiTypes.Proofs.TypeExpr.Shapes
import ApiTypes.Proofs.TypeExpr.Unambiguous

namespace ApiTypes.TypeExpr

/-! ## 1. What is written -/

mutual
/-- An expression without what is not written. -/
def visible : TypeExpr → TypeExpr
  | reference p => if p.segments.isEmpty then unknown else reference p
  | list e bounds readonly => list (visible e) bounds readonly
  | record r => record (visibleRecord r)
  | union es => union (visibles es)
  | intersection es => intersection (visibles es)
  | withHeaders content headers => withHeaders (visible content) (visibleRecord headers)
  | e => e

/-- The expressions of a list without what is not written. -/
def visibles : List TypeExpr → List TypeExpr
  | [] => []
  | e :: es => visible e :: visibles es

/-- A record without what is not written. -/
def visibleRecord : Record TypeExpr → Record TypeExpr
  | ⟨ms, c, r⟩ => ⟨visibleMembers ms, visibleOption c, r && c.isSome⟩

/-- What is there, without what is not written. -/
def visibleOption : Option TypeExpr → Option TypeExpr
  | none => none
  | some e => some (visible e)

/-- Members without what is not written; keys stay. -/
def visibleMembers : List (Member TypeExpr) → List (Member TypeExpr)
  | [] => []
  | ⟨key, type, optional, readonly, doc⟩ :: ms =>
    ⟨key, visible type, optional, readonly, doc⟩ :: visibleMembers ms
end

theorem visibles_eq_map (es : List TypeExpr) : visibles es = es.map visible := by
  induction es with
  | nil => rfl
  | cons e es ih => rw [visibles, ih, List.map_cons]

theorem visible_eq_union {e : TypeExpr} {ms : List TypeExpr} (h : visible e = union ms) :
    ∃ ms', e = union ms' := by
  cases e with
  | union ms' => exact ⟨ms', rfl⟩
  | reference p =>
    rw [visible] at h
    split at h <;> cases h
  | _ => simp [visible] at h

theorem visible_eq_intersection {e : TypeExpr} {ms : List TypeExpr}
    (h : visible e = intersection ms) : ∃ ms', e = intersection ms' := by
  cases e with
  | intersection ms' => exact ⟨ms', rfl⟩
  | reference p =>
    rw [visible] at h
    split at h <;> cases h
  | _ => simp [visible] at h

theorem needsParens_visible (e : TypeExpr) : needsParens (visible e) = needsParens e := by
  cases e with
  | reference p =>
    rw [visible]
    split <;> rfl
  | _ => simp [visible, needsParens]

mutual
/-- **The rest is all that is written.** -/
theorem renderAt_visible (level : Nat) : ∀ e : TypeExpr,
    renderAt level (visible e) = renderAt level e
  | list e _ _ => by
    rw [visible, renderAt.eq_def, renderAt.eq_def level (list ..)]
    simp only [renderAt_visible level e, needsParens_visible]
  | record r => by
    rw [visible, renderAt.eq_def, renderAt.eq_def level (record r)]
    exact renderRecord_visibleRecord level r
  | union es => by
    rw [visible, renderAt.eq_def, renderAt.eq_def level (union es)]
    simp only [renderAll_visibles level es]
  | intersection es => by
    rw [visible, renderAt.eq_def, renderAt.eq_def level (intersection es)]
    simp only [renderConstituents_visibles level es]
  | withHeaders e headers => by
    rw [visible, renderAt.eq_def, renderAt.eq_def level (withHeaders ..)]
    simp only [renderAt_visible level e, renderRecord_visibleRecord level headers]
  | reference p => by
    rw [visible]
    split
    · rename_i hempty
      rw [renderAt.eq_def, renderAt.eq_def level (reference p)]
      simp only [Pointer.indexChain, List.isEmpty_iff.mp hempty]
    · rfl
  | primitive _ | literal _ | operation _ | pick _ _ | never | unknown | void => by
    simp only [visible]

theorem renderAll_visibles (level : Nat) : ∀ es : List TypeExpr,
    renderAll level (visibles es) = renderAll level es
  | [] => rfl
  | e :: es => by
    rw [visibles, renderAll, renderAll, renderAt_visible level e, renderAll_visibles level es]

theorem renderConstituents_visibles (level : Nat) : ∀ es : List TypeExpr,
    renderConstituents level (visibles es) = renderConstituents level es
  | [] => rfl
  | e :: es => by
    have hself := renderAt_visible level e
    rw [visibles, renderConstituents.eq_def, renderConstituents.eq_def level (e :: es)]
    -- A member is a union, and stands in parentheses, before as after.
    simp only [renderConstituents_visibles level es, List.cons.injEq, and_true]
    split
    · rename_i ms hvisible
      obtain ⟨ms', rfl⟩ := visible_eq_union hvisible
      exact congrArg ("(" ++ · ++ ")") hself
    · rename_i hvisible
      split
      · exact absurd (by rw [visible]) (hvisible _)
      · exact hself

theorem renderRecord_visibleRecord (level : Nat) : ∀ r : Record TypeExpr,
    renderRecord level (visibleRecord r) = renderRecord level r
  | ⟨ms, c, readonly⟩ => by
    have hms : (visibleMembers ms).isEmpty = ms.isEmpty := by
      cases ms <;> rfl
    have hc : (visibleOption c).isNone = c.isNone := by
      cases c <;> rfl
    rw [visibleRecord, renderRecord, renderRecord, hms, hc, renderMembers_visibleMembers level ms,
      renderCatchAll_visibleOption level readonly c]

theorem renderCatchAll_visibleOption (level : Nat) (readonly : Bool) : ∀ c : Option TypeExpr,
    renderCatchAll level (readonly && c.isSome) (visibleOption c) = renderCatchAll level readonly c
  | none => by rw [visibleOption, renderCatchAll, renderCatchAll]
  | some e => by
    rw [visibleOption, renderCatchAll, renderCatchAll, renderAt_visible (level + 1) e,
      Option.isSome_some, Bool.and_true]

theorem renderMembers_visibleMembers (level : Nat) : ∀ ms : List (Member TypeExpr),
    renderMembers level (visibleMembers ms) = renderMembers level ms
  | [] => rfl
  | ⟨_, type, _, _, _⟩ :: ms => by
    rw [visibleMembers, renderMembers, renderMembers, renderMember.eq_def, renderMember.eq_def,
      renderMembers_visibleMembers level ms]
    simp only [renderAt_visible (level + 1) type]
end

/-! ## 2. The types of schemas -/

/-- **What the type of a schema looks like**, its parts left aside: it is normal, the items of a
list are written out only if they are few, members stand under names, and further members are
read-only only if the options ask for it. -/
def Schematic (readonly : Bool) : TypeExpr → Prop
  | list _ bounds _ => bounds.Fits
  | record r =>
    (∀ m ∈ r.members, ∃ name, m.key = .name name) ∧ (r.catchAllReadonly = true → readonly = true)
  | operation _ | pick _ _ | withHeaders _ _ | void => False
  | e => Normal e

section Schematic

variable {readonly : Bool}

theorem Schematic.normal {e : TypeExpr} (h : Schematic readonly e) : Normal e := by
  cases e <;> trivial

theorem obeys_schematic_unionOf {es : List TypeExpr} (h : ∀ e ∈ es, Obeys (Schematic readonly) e) :
    Obeys (Schematic readonly) (unionOf es) := by
  refine obeys_builtUnion trivial (fun members hd hlength => ?_) h
  exact normal_union (fun e he => (obeys_self (h e he)).normal) hd hlength

theorem obeys_schematic_intersectionOf {es : List TypeExpr}
    (h : ∀ e ∈ es, Obeys (Schematic readonly) e) :
    Obeys (Schematic readonly) (intersectionOf es) := by
  refine obeys_builtIntersection trivial (fun members hd hlength => ?_) h
  exact normal_intersection (fun e he => (obeys_self (h e he)).normal) hd hlength

theorem obeys_schematic_record {ms : List (Member TypeExpr)} {c : Option TypeExpr} {r : Bool}
    (hms : ∀ m ∈ ms, (∃ name, m.key = .name name) ∧ Obeys (Schematic readonly) m.type)
    (hc : ∀ e, c = some e → Obeys (Schematic readonly) e) (hr : r = true → readonly = true) :
    Obeys (Schematic readonly) (record ⟨ms, c, r⟩) := by
  refine obeys_record.mpr ⟨⟨fun m hm => (hms m hm).1, hr⟩, fun m hm => ?_, hc⟩
  obtain ⟨⟨name, hkey⟩, htype⟩ := hms m hm
  exact (memberObeys_name hkey).mpr htype

end Schematic

/-- The nodes that are referred to satisfy `Q`. -/
abbrev Refers (Q : Pointer → Prop) : TypeExpr → Prop := Holds Q fun _ => True

/-- A reference to a node that can be told from other types, or to the whole document. -/
abbrev WellNamed : TypeExpr → Prop := Refers fun p => p = .root ∨ p.distinctive = true

theorem bare_eq_union {e : TypeExpr} {ms : List TypeExpr} (h : bare e = union ms) :
    ∃ ms', e = union ms' := by
  cases e with
  | union ms' => exact ⟨ms', rfl⟩
  | _ => simp [bare] at h

theorem bare_eq_intersection {e : TypeExpr} {ms : List TypeExpr} (h : bare e = intersection ms) :
    ∃ ms', e = intersection ms' := by
  cases e with
  | intersection ms' => exact ⟨ms', rfl⟩
  | _ => simp [bare] at h

/-- No record has anything to say of further members that there are not. -/
theorem printed_record {ms : List (Member TypeExpr)} {c : Option TypeExpr} {readonly : Bool}
    (hms : ∀ m ∈ ms, (∃ name, m.key = .name name ∧ m.doc = none) ∧ Printed m.type)
    (hc : ∀ e, c = some e → Printed e) (hclosed : c = none → readonly = false) :
    Printed (record ⟨ms, c, readonly⟩) := by
  cases hempty : (⟨ms, c, readonly⟩ : Record TypeExpr).isEmpty with
  | false => exact .record hempty (fun m hm => (hms m hm).1) (fun m hm => (hms m hm).2) hc hclosed
  | true =>
    rw [Record.isEmpty, Bool.and_eq_true, List.isEmpty_iff, Option.isNone_iff_eq_none] at hempty
    obtain ⟨rfl, rfl⟩ := hempty
    rw [hclosed rfl]
    exact .titled .empty

section Printed

variable {readonly : Bool}

mutual
/-- **The type of a schema is read back from its text**, but for comments and what is not
written. -/
theorem printed_visible : ∀ e : TypeExpr, Obeys (fun x => Schematic readonly x ∧ WellNamed x) e →
    Printed (visible (bare e))
  | primitive p, _ => by
    rw [bare, visible]
    · cases p
      exacts [.titled .string, .titled .number, .titled .boolean]
    all_goals exact nofun
  | literal l, _ => by
    rw [bare, visible]
    · cases l with
      | string value => exact .string value
      | number value => exact .number value
      | boolean value =>
        cases value
        exacts [.titled .false, .titled .true]
      | null => exact .titled .null
    all_goals exact nofun
  | reference p, h => by
    obtain ⟨segments⟩ := p
    cases segments with
    | nil => exact .titled .unknown
    | cons root rest =>
      obtain hroot | hdistinctive := (obeys_self h).2
      · cases hroot
      · exact .titled (.reference hdistinctive)
  | list e bounds _, h => by
    obtain ⟨⟨hfits, _⟩, he⟩ := obeys_list_iff.mp h
    rw [bare, visible]
    exact .list (printed_visible e he) hfits
  | record ⟨ms, c, r⟩, h => by
    obtain ⟨⟨⟨hkeys, _⟩, _⟩, hms, hc⟩ := obeys_record.mp h
    rw [bare, visible]
    have hmembers := printed_visibleMembers ms hkeys fun m hm => obeys_of_memberObeys (hms m hm)
    -- The mark stays only where there are further members.
    refine printed_record hmembers (printed_visibleOption c hc) fun hnone => ?_
    cases c with
    | none => exact Bool.and_false r
    | some e => cases hnone
  | union es, h => by
    obtain ⟨⟨⟨htwo, hflat, _⟩, _⟩, hes⟩ := obeys_union_iff.mp h
    rw [bare, visible]
    refine .union ?_ (printed_visibles es hes) fun ms hmem => ?_
    · rwa [visibles_eq_map, bares_eq_map, List.length_map, List.length_map]
    · rw [visibles_eq_map, bares_eq_map, List.map_map] at hmem
      obtain ⟨e, he, heq⟩ := List.mem_map.mp hmem
      obtain ⟨_, hbare⟩ := visible_eq_union heq
      obtain ⟨ms', rfl⟩ := bare_eq_union hbare
      exact (hflat _ he).2 ms' rfl
  | intersection es, h => by
    obtain ⟨⟨⟨htwo, hflat⟩, _⟩, hes⟩ := obeys_intersection_iff.mp h
    rw [bare, visible]
    refine .intersection ?_ (printed_visibles es hes) fun ms hmem => ?_
    · rwa [visibles_eq_map, bares_eq_map, List.length_map, List.length_map]
    · rw [visibles_eq_map, bares_eq_map, List.map_map] at hmem
      obtain ⟨e, he, heq⟩ := List.mem_map.mp hmem
      obtain ⟨_, hbare⟩ := visible_eq_intersection heq
      obtain ⟨ms', rfl⟩ := bare_eq_intersection hbare
      exact hflat _ he ms' rfl
  | never, _ => .titled .never
  | unknown, _ => .titled .unknown
  | operation _, h | pick _ _, h | withHeaders _ _, h | void, h => (obeys_self h).1.elim

theorem printed_visibles : ∀ es : List TypeExpr,
    (∀ e ∈ es, Obeys (fun x => Schematic readonly x ∧ WellNamed x) e) →
    ∀ m ∈ visibles (bares es), Printed m
  | [], _ => List.forall_mem_nil _
  | e :: es, h => by
    rw [bares, visibles]
    exact List.forall_mem_cons.mpr ⟨printed_visible e (h e List.mem_cons_self),
      printed_visibles es fun x hx => h x (List.mem_cons_of_mem _ hx)⟩

theorem printed_visibleOption : ∀ c : Option TypeExpr,
    (∀ e, c = some e → Obeys (fun x => Schematic readonly x ∧ WellNamed x) e) →
    ∀ e, visibleOption (bareOption c) = some e → Printed e
  | none, _, _, he => nomatch he
  | some e, h, _, he => by
    cases he
    exact printed_visible e (h e rfl)

theorem printed_visibleMembers : ∀ ms : List (Member TypeExpr),
    (∀ m ∈ ms, ∃ name, m.key = .name name) →
    (∀ m ∈ ms, Obeys (fun x => Schematic readonly x ∧ WellNamed x) m.type) →
    ∀ m ∈ visibleMembers (bareMembers ms),
      (∃ name, m.key = .name name ∧ m.doc = none) ∧ Printed m.type
  | [], _, _ => List.forall_mem_nil _
  | ⟨key, type, _, _, _⟩ :: ms, hkeys, htypes => by
    obtain ⟨name, hkey⟩ := hkeys _ List.mem_cons_self
    cases hkey
    rw [bareMembers, bareMember, visibleMembers]
    refine List.forall_mem_cons.mpr ⟨⟨⟨name, rfl, rfl⟩, ?_⟩, ?_⟩
    · exact printed_visible type (htypes _ List.mem_cons_self)
    · exact printed_visibleMembers ms (fun m hm => hkeys m (List.mem_cons_of_mem _ hm))
        fun m hm => htypes m (List.mem_cons_of_mem _ hm)
end

/-- **Two types of schemas are written alike just if they agree in what is written.** -/
theorem renderAt_bare_iff {e f : TypeExpr} {level : Nat}
    (he : Obeys (fun x => Schematic readonly x ∧ WellNamed x) e)
    (hf : Obeys (fun x => Schematic readonly x ∧ WellNamed x) f) :
    renderAt level (bare e) = renderAt level (bare f) ↔ visible (bare e) = visible (bare f) := by
  rw [← renderAt_visible level (bare e), ← renderAt_visible level (bare f)]
  exact ⟨(printed_visible e he).eq_of_render (printed_visible f hf), congrArg _⟩

end Printed

/-! ## 3. Types of which nothing is left unwritten -/

mutual
/-- Where the options leave everything mutable and the document is not referred to, all is
written. -/
theorem visible_bare : ∀ e : TypeExpr,
    Obeys (fun x => Schematic false x ∧ Refers (·.distinctive = true) x) e →
    visible (bare e) = bare e
  | reference p, h => by
    obtain ⟨segments⟩ := p
    cases segments with
    | nil => cases (obeys_self h).2
    | cons root rest => rfl
  | list e _ _, h => by rw [bare, visible, visible_bare e (obeys_list_iff.mp h).2]
  | record ⟨ms, c, r⟩, h => by
    obtain ⟨⟨⟨_, hmark⟩, _⟩, hms, hc⟩ := obeys_record.mp h
    have hr : r = false := by simpa using hmark
    rw [bare, bareRecord, visible, visibleRecord, hr, Bool.false_and,
      visibleMembers_bareMembers ms fun m hm => obeys_of_memberObeys (hms m hm),
      visibleOption_bareOption c hc]
  | union es, h => by rw [bare, visible, visibles_bares es (obeys_of_union h)]
  | intersection es, h => by rw [bare, visible, visibles_bares es (obeys_of_intersection h)]
  | withHeaders _ _, h => (obeys_self h).1.elim
  | primitive _, _ | literal _, _ | operation _, _ | pick _ _, _ | never, _ | unknown, _
  | void, _ => by simp [bare, visible]

theorem visibles_bares : ∀ es : List TypeExpr,
    (∀ e ∈ es, Obeys (fun x => Schematic false x ∧ Refers (·.distinctive = true) x) e) →
    visibles (bares es) = bares es
  | [], _ => rfl
  | e :: es, h => by
    rw [bares, visibles, visible_bare e (h e List.mem_cons_self),
      visibles_bares es fun x hx => h x (List.mem_cons_of_mem _ hx)]

theorem visibleOption_bareOption : ∀ c : Option TypeExpr,
    (∀ e, c = some e → Obeys (fun x => Schematic false x ∧ Refers (·.distinctive = true) x) e) →
    visibleOption (bareOption c) = bareOption c
  | none, _ => rfl
  | some e, h => by rw [bareOption, visibleOption, visible_bare e (h e rfl)]

theorem visibleMembers_bareMembers : ∀ ms : List (Member TypeExpr),
    (∀ m ∈ ms, Obeys (fun x => Schematic false x ∧ Refers (·.distinctive = true) x) m.type) →
    visibleMembers (bareMembers ms) = bareMembers ms
  | [], _ => rfl
  | ⟨_, type, _, _, _⟩ :: ms, h => by
    rw [bareMembers, bareMember, visibleMembers, visible_bare type (h _ List.mem_cons_self),
      visibleMembers_bareMembers ms fun m hm => h m (List.mem_cons_of_mem _ hm)]
end

/-- No key of the type of a schema is a pattern. -/
theorem simpleKeys_of_schematic {readonly : Bool} {e : TypeExpr}
    (h : Obeys (Schematic readonly) e) : SimpleKeys e := by
  rintro x hx r rfl m hm stretches hkey
  obtain ⟨name, hname⟩ := (h _ hx).1 m hm
  rw [hname] at hkey
  cases hkey

/-- **Types of schemas that are written alike have one shape** if the options leave everything
mutable and no reference can be taken for another type. -/
theorem sameShape_of_render {e f : TypeExpr} {level : Nat}
    (he : Obeys (fun x => Schematic false x ∧ Refers (·.distinctive = true) x) e)
    (hf : Obeys (fun x => Schematic false x ∧ Refers (·.distinctive = true) x) f)
    (heq : renderAt level (bare e) = renderAt level (bare f)) : sameShape e f = true := by
  have hnamed : ∀ x, Refers (·.distinctive = true) x → WellNamed x := by
    intro x hx
    cases x with
    | reference p => exact .inr hx
    | pick group keys => exact fun key hkey => .inr (hx key hkey)
    | _ => trivial
  have hbare : bare e = bare f := by
    rw [← visible_bare e he, ← visible_bare f hf]
    exact (renderAt_bare_iff (fun x hx => (he x hx).imp_right (hnamed x))
      fun x hx => (hf x hx).imp_right (hnamed x)).mp heq
  rw [sameShape_eq_equal, ← bare_eq_mapDoc e (simpleKeys_of_schematic fun x hx => (he x hx).1),
    ← bare_eq_mapDoc f (simpleKeys_of_schematic fun x hx => (hf x hx).1), hbare]
  exact equal_self _

/-! ## 4. Alternatives -/

/-- **How far the alternatives of a union can be told apart in writing**, comments aside. -/
structure WrittenApart (readonly : Bool) (members : List TypeExpr) : Prop where
  shapes : members.Pairwise fun e f => sameShape e f = false
  /-- Two of them are written alike just if they differ in nothing that is written. -/
  alike : Obeys WellNamed (union members) → ∀ e ∈ members, ∀ f ∈ members, ∀ level,
    renderAt level (bare e) = renderAt level (bare f) ↔ visible (bare e) = visible (bare f)
  /-- If the options leave everything mutable, no two are. -/
  apart : readonly = false → Obeys (Refers (·.distinctive = true)) (union members) →
    members.Pairwise fun e f => ∀ level, renderAt level (bare e) ≠ renderAt level (bare f)

theorem DistinctShapes.pairwise {members : List TypeExpr} (h : DistinctShapes members) :
    members.Pairwise fun e f => sameShape e f = false :=
  List.pairwise_iff_getElem.mpr fun i j hi hj hij =>
    h ⟨i, hi⟩ ⟨j, hj⟩ fun heq => Nat.ne_of_lt hij (Fin.mk.inj heq)

theorem writtenApart_of_schematic {readonly : Bool} {members : List TypeExpr}
    (h : Obeys (Schematic readonly) (union members)) : WrittenApart readonly members where
  shapes := DistinctShapes.pairwise (obeys_self h).2.2
  alike hnamed e he f hf level :=
    renderAt_bare_iff (fun x hx => ⟨obeys_of_union h e he x hx, obeys_of_union hnamed e he x hx⟩)
      fun x hx => ⟨obeys_of_union h f hf x hx, obeys_of_union hnamed f hf x hx⟩
  apart hreadonly hnamed := by
    subst hreadonly
    have hmember : ∀ e ∈ members,
        Obeys (fun x => Schematic false x ∧ Refers (·.distinctive = true) x) e :=
      fun e he x hx => ⟨obeys_of_union h e he x hx, obeys_of_union hnamed e he x hx⟩
    have hshapes : members.Pairwise fun e f => sameShape e f = false :=
      DistinctShapes.pairwise (obeys_self h).2.2
    refine hshapes.imp_of_mem fun {e f} he hf hne level heq => ?_
    have hsame := sameShape_of_render (hmember e he) (hmember f hf) heq
    exact Bool.false_ne_true (hne.symm.trans hsame)

end ApiTypes.TypeExpr
