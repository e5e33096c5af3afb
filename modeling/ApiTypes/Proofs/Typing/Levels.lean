/-
# How deep schemas may be nested

A schema is typed by going through the schemas in it, one after the other and each one level below
the schema that it is part of.  Only two things can go wrong on the way: a schema is met on a level
that the options do not allow, or it is a reference that leads nowhere.  So it can be told from the
schema alone whether it has a type, and what is wrong if it has none.

* `Schema.height` is the number of levels of a schema.
* `Schema.visits` lists the schemas in a schema in the order in which they are met;
  `Visit.fault?` is what is wrong with one of them.
* `Typing.Through env vs t`: typing `t` goes through the schemas `vs` and nothing else, with one
  lemma for each kind of step; `Typing.through_node` is the step by kinds of schemas.
* `Typing.through_schema`: the fault of a schema is that of the first schema in it that has one.
* `Schema.faultless_iff`: none has one just if all references resolve and the levels suffice.
-/
import ApiTypes.Proofs.Typing.Faults
import ApiTypes.Proofs.Typing.Recording

namespace ApiTypes

namespace Schema

/-! ## 1. Height -/

mutual
/-- The number of levels of a schema: its own, and those of the highest schema in it. -/
def height : Schema → Nat
  | reference _ _ => 1
  | scalar _ _ => 1
  | array items _ _ _ => 1 + heightOption items
  | object properties _ additional _ =>
    1 + max (heightProperties properties) (heightAdditional additional)
  | composed allOf oneOf anyOf _ base _ =>
    1 + max (max (max (heightList allOf) (heightList oneOf)) (heightList anyOf)) (heightOption base)
  | enumerated _ _ => 1
  | unknown _ => 1

/-- The height of an optional schema. -/
def heightOption : Option Schema → Nat
  | none => 0
  | some s => height s

/-- The height of the highest schema in a list. -/
def heightList : List Schema → Nat
  | [] => 0
  | s :: rest => max (height s) (heightList rest)

/-- The height of the highest schema in the properties of an object. -/
def heightProperties : List (String × Schema) → Nat
  | [] => 0
  | (_, s) :: rest => max (height s) (heightProperties rest)

/-- The height of what an object may hold in addition. -/
def heightAdditional : Additional Schema → Nat
  | .unsaid => 0
  | .allowed _ => 0
  | .schema s => height s
end

theorem heightOption_le_iff {s : Option Schema} {n : Nat} :
    heightOption s ≤ n ↔ ∀ part ∈ s.toList, part.height ≤ n := by
  cases s <;> simp [heightOption]

theorem heightList_le_iff {ss : List Schema} {n : Nat} :
    heightList ss ≤ n ↔ ∀ part ∈ ss, part.height ≤ n := by
  induction ss with
  | nil => simp [heightList]
  | cons s rest ih => rw [heightList, Nat.max_le, ih, List.forall_mem_cons]

theorem heightProperties_le_iff {properties : List (String × Schema)} {n : Nat} :
    heightProperties properties ≤ n ↔ ∀ part ∈ properties.map Prod.snd, part.height ≤ n := by
  induction properties with
  | nil => simp [heightProperties]
  | cons e rest ih => rw [heightProperties, Nat.max_le, ih, List.map_cons, List.forall_mem_cons]

/-- A schema is one level higher than the highest schema that it is made of. -/
theorem height_le_iff {s : Schema} {n : Nat} :
    s.height ≤ n + 1 ↔ ∀ part ∈ s.inner, part.height ≤ n := by
  have hsucc (k : Nat) : 1 + k ≤ n + 1 ↔ k ≤ n := by omega
  cases s with
  | reference | scalar | enumerated | unknown => simp [height, inner]
  | array items => simp only [height, hsucc, inner, heightOption_le_iff]
  | object properties _ additional =>
    simp only [height, hsucc, inner, Nat.max_le, List.forall_mem_append, heightProperties_le_iff]
    cases additional <;> simp [heightAdditional]
  | composed allOf oneOf anyOf _ base =>
    simp only [height, hsucc, inner, Nat.max_le, List.forall_mem_append, heightList_le_iff,
      heightOption_le_iff]

theorem height_pos (s : Schema) : 0 < s.height := by
  cases s <;> simp [height]

end Schema

/-! ## 2. The schemas that are met -/

/-- A schema that is met: where, how many levels are above it, and where it leads if it is a
reference. -/
structure Visit where
  location : Pointer
  depth : Nat
  target : Option String := none

namespace Schema

/-- The visits of alternatives in their order. -/
def inOrder (order : List (Nat × Option String)) (visits : List (List Visit)) : List Visit :=
  order.flatMap fun step => visits.getD step.1 []

mutual
/-- The schemas in a schema that stands at a pointer below a number of levels, itself included, in
the order in which they are met. -/
def visits (self : Option OwnAddress) (depth : Nat) (p : Pointer) : Schema → List Visit
  | .reference target _ => [⟨p, depth, some target⟩]
  | .scalar _ _ => [⟨p, depth, none⟩]
  | .enumerated _ _ => [⟨p, depth, none⟩]
  | .unknown _ => [⟨p, depth, none⟩]
  | .array items _ _ _ => ⟨p, depth, none⟩ :: visitsOption self (depth + 1) (p.child "items") items
  | .object properties _ additional _ =>
    ⟨p, depth, none⟩ ::
      (visitsProperties self (depth + 1) (p.child "properties") properties ++
        visitsAdditional self (depth + 1) (p.child "additionalProperties") additional)
  | .composed allOf oneOf anyOf d base _ =>
    ⟨p, depth, none⟩ ::
      ((visitsList self (depth + 1) (p.child "allOf") 0 allOf).flatten ++
        (inOrder (Discriminator.memberOrder self oneOf d)
            (visitsList self (depth + 1) (p.child "oneOf") 0 oneOf) ++
          (inOrder (Discriminator.memberOrder self anyOf d)
              (visitsList self (depth + 1) (p.child "anyOf") 0 anyOf) ++
            visitsOption self (depth + 1) p base)))

/-- The visits of an optional schema. -/
def visitsOption (self : Option OwnAddress) (depth : Nat) (p : Pointer) : Option Schema → List Visit
  | none => []
  | some s => visits self depth p s

/-- The visits of each schema of a list from a position on. -/
def visitsList (self : Option OwnAddress) (depth : Nat) (p : Pointer) (i : Nat) :
    List Schema → List (List Visit)
  | [] => []
  | s :: rest => visits self depth (p.item i) s :: visitsList self depth p (i + 1) rest

/-- The visits of the properties of an object. -/
def visitsProperties (self : Option OwnAddress) (depth : Nat) (p : Pointer) :
    List (String × Schema) → List Visit
  | [] => []
  | (name, s) :: rest =>
    visits self depth (p.child name) s ++ visitsProperties self depth p rest

/-- The visits of what an object may hold in addition. -/
def visitsAdditional (self : Option OwnAddress) (depth : Nat) (p : Pointer) :
    Additional Schema → List Visit
  | .unsaid => []
  | .allowed _ => []
  | .schema s => visits self depth p s
end

section Visits

variable {self : Option OwnAddress} {depth : Nat} {p : Pointer} {d : Option Discriminator}

/-- Where a schema leads, if it is a reference. -/
def target? : Schema → Option String
  | .reference target _ => some target
  | _ => none

variable (self depth p) in
/-- A schema is met before the schemas in it. -/
theorem exists_visits_eq_cons (s : Schema) :
    ∃ rest, s.visits self depth p = ⟨p, depth, s.target?⟩ :: rest := by
  cases s <;> exact ⟨_, by rw [visits]; rfl⟩

theorem visitsOption_eq (s : Option Schema) :
    visitsOption self depth p s = s.toList.flatMap (visits self depth p) := by
  cases s <;> simp [visitsOption]

theorem visitsProperties_eq (properties : List (String × Schema)) :
    visitsProperties self depth p properties =
      properties.flatMap fun e => e.2.visits self depth (p.child e.1) := by
  induction properties with
  | nil => rfl
  | cons e rest ih => rw [visitsProperties, ih, List.flatMap_cons]

theorem length_visitsList (ss : List Schema) (i : Nat) :
    (visitsList self depth p i ss).length = ss.length := by
  induction ss generalizing i with
  | nil => rfl
  | cons s rest ih => rw [visitsList, List.length_cons, List.length_cons, ih]

theorem exists_of_mem_visitsList {ss : List Schema} {i : Nat} {vs : List Visit}
    (h : vs ∈ visitsList self depth p i ss) : ∃ s ∈ ss, ∃ q, vs = s.visits self depth q := by
  induction ss generalizing i with
  | nil => cases h
  | cons s rest ih =>
    rw [visitsList] at h
    rcases List.mem_cons.mp h with rfl | h
    · exact ⟨s, List.mem_cons_self, _, rfl⟩
    · obtain ⟨s', hs', hvs⟩ := ih h
      exact ⟨s', List.mem_cons_of_mem _ hs', hvs⟩

variable (self depth p) in
theorem exists_mem_visitsList {ss : List Schema} {s : Schema} (h : s ∈ ss) (i : Nat) :
    ∃ q, s.visits self depth q ∈ visitsList self depth p i ss := by
  induction ss generalizing i with
  | nil => cases h
  | cons s' rest ih =>
    rw [visitsList]
    rcases List.mem_cons.mp h with rfl | h
    · exact ⟨_, List.mem_cons_self⟩
    · obtain ⟨q, hq⟩ := ih h (i + 1)
      exact ⟨q, List.mem_cons_of_mem _ hq⟩

/-- Every alternative has its turn, and nothing else has one. -/
theorem mem_inOrder {members : List Schema} {vss : List (List Visit)} {v : Visit}
    (hlength : vss.length = members.length) :
    v ∈ inOrder (Discriminator.memberOrder self members d) vss ↔ ∃ vs ∈ vss, v ∈ vs := by
  rw [inOrder, List.mem_flatMap]
  constructor
  · rintro ⟨step, hstep, hv⟩
    have hlt : step.1 < vss.length := hlength ▸ Discriminator.lt_of_mem_memberOrder hstep
    rw [List.getD_eq_getElem?_getD, List.getElem?_eq_getElem hlt] at hv
    exact ⟨vss[step.1], List.getElem_mem hlt, hv⟩
  · rintro ⟨vs, hvs, hv⟩
    obtain ⟨i, hi, rfl⟩ := List.getElem_of_mem hvs
    obtain ⟨tag, hstep⟩ : ∃ tag, (i, tag) ∈ Discriminator.memberOrder self members d :=
      Discriminator.exists_mem_memberOrder (hlength ▸ hi)
    exact ⟨(i, tag), hstep, by rwa [List.getD_eq_getElem?_getD, List.getElem?_eq_getElem hi]⟩

/-- What is met in a schema is the schema itself, or met in a schema that it is made of. -/
theorem exists_inner_of_mem_visits {s : Schema} {v : Visit} (h : v ∈ s.visits self depth p) :
    v = ⟨p, depth, s.target?⟩ ∨ ∃ part ∈ s.inner, ∃ q, v ∈ part.visits self (depth + 1) q := by
  cases s with
  | reference | scalar | enumerated | unknown =>
    simp only [visits, List.mem_singleton] at h
    exact Or.inl h
  | array items =>
    simp only [visits, List.mem_cons, visitsOption_eq, List.mem_flatMap] at h
    rcases h with h | ⟨part, hpart, hv⟩
    · exact Or.inl h
    · exact Or.inr ⟨part, hpart, _, hv⟩
  | object properties _ additional =>
    simp only [visits, List.mem_cons, List.mem_append, visitsProperties_eq, List.mem_flatMap] at h
    rcases h with h | ⟨e, he, hv⟩ | h
    · exact Or.inl h
    · exact Or.inr ⟨e.2, List.mem_append_left _ (List.mem_map_of_mem he), _, hv⟩
    · cases additional with
      | unsaid | allowed => cases h
      | schema part =>
        exact Or.inr ⟨part, List.mem_append_right _ (List.mem_singleton_self part), _, h⟩
  | composed allOf oneOf anyOf d base =>
    simp only [visits, List.mem_cons, List.mem_append, List.mem_flatten,
      mem_inOrder (length_visitsList _ _), visitsOption_eq, List.mem_flatMap] at h
    simp only [inner, List.mem_append]
    rcases h with h | ⟨vs, hvs, hv⟩ | ⟨vs, hvs, hv⟩ | ⟨vs, hvs, hv⟩ | ⟨part, hpart, hv⟩
    · exact Or.inl h
    · obtain ⟨part, hpart, q, rfl⟩ := exists_of_mem_visitsList hvs
      exact Or.inr ⟨part, .inl (.inl (.inl hpart)), q, hv⟩
    · obtain ⟨part, hpart, q, rfl⟩ := exists_of_mem_visitsList hvs
      exact Or.inr ⟨part, .inl (.inl (.inr hpart)), q, hv⟩
    · obtain ⟨part, hpart, q, rfl⟩ := exists_of_mem_visitsList hvs
      exact Or.inr ⟨part, .inl (.inr hpart), q, hv⟩
    · exact Or.inr ⟨part, .inr hpart, _, hv⟩

variable (self depth p) in
/-- What is met in a schema that a schema is made of is met in the schema. -/
theorem exists_visits_subset {s part : Schema} (h : part ∈ s.inner) :
    ∃ q, part.visits self (depth + 1) q ⊆ s.visits self depth p := by
  cases s with
  | reference | scalar | enumerated | unknown => cases h
  | array items =>
    refine ⟨p.child "items", fun v hv => ?_⟩
    simp only [visits, List.mem_cons, visitsOption_eq, List.mem_flatMap]
    exact Or.inr ⟨part, h, hv⟩
  | object properties _ additional =>
    rcases List.mem_append.mp h with h | h
    · obtain ⟨e, he, rfl⟩ := List.mem_map.mp h
      refine ⟨(p.child "properties").child e.1, fun v hv => ?_⟩
      simp only [visits, List.mem_cons, List.mem_append, visitsProperties_eq, List.mem_flatMap]
      exact Or.inr (Or.inl ⟨e, he, hv⟩)
    · cases additional with
      | unsaid | allowed => cases h
      | schema part' =>
        rw [List.mem_singleton.mp h]
        refine ⟨p.child "additionalProperties", fun v hv => ?_⟩
        rw [visits, visitsAdditional]
        exact List.mem_cons_of_mem _ (List.mem_append_right _ hv)
  | composed allOf oneOf anyOf d base =>
    simp only [inner, List.mem_append] at h
    simp only [List.subset_def, visits, List.mem_cons, List.mem_append, List.mem_flatten,
      mem_inOrder (length_visitsList _ _), visitsOption_eq, List.mem_flatMap]
    rcases h with ((h | h) | h) | h
    · obtain ⟨q, hq⟩ := exists_mem_visitsList self (depth + 1) (p.child "allOf") h 0
      exact ⟨q, @fun v hv => .inr (.inl ⟨_, hq, hv⟩)⟩
    · obtain ⟨q, hq⟩ := exists_mem_visitsList self (depth + 1) (p.child "oneOf") h 0
      exact ⟨q, @fun v hv => .inr (.inr (.inl ⟨_, hq, hv⟩))⟩
    · obtain ⟨q, hq⟩ := exists_mem_visitsList self (depth + 1) (p.child "anyOf") h 0
      exact ⟨q, @fun v hv => .inr (.inr (.inr (.inl ⟨_, hq, hv⟩)))⟩
    · exact ⟨p, @fun v hv => .inr (.inr (.inr (.inr ⟨part, h, hv⟩)))⟩

variable (self depth p) in
/-- The references that are met are those in the schema. -/
theorem exists_visit_iff {s : Schema} {target : String} :
    (∃ v ∈ s.visits self depth p, v.target = some target) ↔ s.RefersTo target := by
  constructor
  · rintro ⟨v, hv, htarget⟩
    induction s using Schema.induction generalizing depth p with
    | step s ih =>
      rcases exists_inner_of_mem_visits hv with rfl | ⟨part, hpart, q, hv⟩
      · cases s <;> cases htarget
        exact .reference _ _
      · exact .inner hpart (ih part hpart _ _ hv)
  · intro h
    induction h generalizing depth p with
    | reference target traits => exact ⟨_, by rw [visits]; exact List.mem_singleton_self _, rfl⟩
    | inner mem _ ih =>
      obtain ⟨q, hq⟩ := exists_visits_subset self depth p mem
      obtain ⟨v, hv, htarget⟩ := @ih (depth + 1) q
      exact ⟨v, hq hv, htarget⟩

variable (self depth p) in
/-- The deepest schema that is met is as deep as the schema is high. -/
theorem forall_depth_lt_iff {s : Schema} {most : Nat} :
    (∀ v ∈ s.visits self depth p, v.depth < most) ↔ depth + s.height ≤ most := by
  induction s using Schema.induction generalizing depth p with
  | step s ih =>
    have hinner : depth < most →
        (depth + s.height ≤ most ↔ ∀ part ∈ s.inner, depth + 1 + part.height ≤ most) := by
      intro hlt
      obtain ⟨k, rfl⟩ := Nat.exists_eq_add_of_lt hlt
      rw [Nat.add_assoc depth k 1, Nat.add_le_add_iff_left, height_le_iff]
      refine forall₂_congr fun part _ => ?_
      omega
    constructor
    · intro h
      obtain ⟨rest, hrest⟩ := s.exists_visits_eq_cons self depth p
      have hlt : depth < most := h ⟨p, depth, s.target?⟩ (by rw [hrest]; exact List.mem_cons_self)
      refine (hinner hlt).mpr fun part hpart => ?_
      obtain ⟨q, hq⟩ := exists_visits_subset self depth p hpart
      exact (ih part hpart _ _).mp fun v hv => h v (hq hv)
    · intro h v hv
      have hlt : depth < most := Nat.lt_of_lt_of_le (Nat.lt_add_of_pos_right s.height_pos) h
      rcases exists_inner_of_mem_visits hv with rfl | ⟨part, hpart, q, hv⟩
      · exact hlt
      · exact (ih part hpart _ _).mpr ((hinner hlt).mp h part hpart) v hv

end Visits

end Schema

/-- What is wrong with a schema that is met: its level is not allowed, or it is a reference that
leads nowhere. -/
def Visit.fault? (env : Environment) (v : Visit) : Option Fault :=
  if v.depth ≥ env.config.maxDepth then
    some (.recursionLimit v.location env.config.maxDepth)
  else
    v.target.bind fun target =>
      match env.resolver.canonical target v.location with
      | .ok _ => none
      | .error _ => some (.unresolvable target v.location)

namespace Typing

variable {α β : Type} {env : Environment} {vs ws : List Visit}

/-! ## 3. Going through schemas -/

/-- The fault with which a run ends, if it fails. -/
def faultOf? : Except Fault α → Option Fault
  | .ok _ => none
  | .error e => some e

/-- **A typing goes through some schemas**: from any pointers on, it fails with the fault of the
first of them that has one, and succeeds if none has. -/
def Through (env : Environment) (vs : List Visit) (t : Typing α) : Prop :=
  ∀ refs, faultOf? (ExceptT.run t refs).1 = vs.findSome? (Visit.fault? env)

theorem through_pure (a : α) : Through env [] (pure a : Typing α) := fun _ => rfl

/-- Two steps go through the schemas of the first, then through those of the second. -/
theorem Through.bind {t : Typing α} {f : α → Typing β} (h : Through env vs t)
    (hf : ∀ a, Through env ws (f a)) : Through env (vs ++ ws) (t >>= f) := by
  intro refs
  have hfirst := h refs
  rw [List.findSome?_append, ← hfirst, ExceptT.run_bind]
  cases ht : ExceptT.run t refs with
  | mk result mid =>
    cases result with
    | error e =>
      simp only [Bind.bind, StateT.bind, ht]
      rfl
    | ok a =>
      simp only [Bind.bind, StateT.bind, ht]
      exact hf a mid

theorem Through.bind_pure {t : Typing α} {f : α → β} (h : Through env vs t) :
    Through env vs (t >>= fun a => pure (f a)) := by
  have hboth : Through env (vs ++ []) (t >>= fun a => pure (f a)) :=
    h.bind fun a => through_pure (f a)
  rwa [List.append_nil] at hboth

theorem Through.mapM {γ : Type} {f : α → Typing β} {visits : γ → List Visit} {cs : List γ}
    {as : List α} (h : List.Forall₂ (fun c a => Through env (visits c) (f a)) cs as) :
    Through env (cs.flatMap visits) (as.mapM f) := by
  induction h with
  | nil => exact through_pure []
  | cons hstep _ ih =>
    rw [List.mapM_cons, List.flatMap_cons]
    exact hstep.bind fun b => ih.bind_pure

/-- A reference is gone through where its level is allowed. -/
theorem through_reference {depth : Nat} {target : String} {p : Pointer}
    (h : depth < env.config.maxDepth) :
    Through env [⟨p, depth, some target⟩] (reference env target p) := by
  intro refs
  rw [List.findSome?_singleton, Visit.fault?, if_neg (Nat.not_le_of_lt h)]
  unfold reference
  cases hcanonical : env.resolver.canonical target p with
  | ok q =>
    simp only [Option.bind_some, hcanonical]
    rfl
  | error e =>
    simp only [Option.bind_some, hcanonical]
    rw [error_of_canonical hcanonical]
    rfl

/-- Nothing is wrong with a schema that is no reference, if its level is allowed. -/
theorem Through.enter {depth : Nat} {p : Pointer} {t : Typing α}
    (h : depth < env.config.maxDepth) (ht : Through env vs t) :
    Through env (⟨p, depth, none⟩ :: vs) t := by
  intro refs
  have hnone : Visit.fault? env ⟨p, depth, none⟩ = none := if_neg (Nat.not_le_of_lt h)
  rw [List.findSome?_cons, hnone]
  exact ht refs

/-- A schema whose level is not allowed is gone no further into. -/
theorem Through.level {depth : Nat} {p : Pointer} {s : Schema} {inner : Nat → Typing α}
    (h : depth < env.config.maxDepth →
      Through env (s.visits env.resolver.self depth p) (inner (depth + 1))) :
    Through env (s.visits env.resolver.self depth p) (within env depth p inner) := by
  unfold Typing.within
  by_cases hdepth : depth ≥ env.config.maxDepth
  · intro refs
    obtain ⟨rest, hrest⟩ := s.exists_visits_eq_cons env.resolver.self depth p
    rw [if_pos hdepth, hrest, List.findSome?_cons, Visit.fault?, if_pos hdepth]
    rfl
  · rw [if_neg hdepth]
    exact h (Nat.lt_of_not_le hdepth)

/-! ## 4. Schemas -/

theorem through_getD {vss : List (List Visit)} {ts : List (Typing TypeExpr)}
    (h : List.Forall₂ (Through env) vss ts) (i : Nat) :
    Through env (vss.getD i []) (ts.getD i (pure .never)) := by
  induction h generalizing i with
  | nil => exact through_pure TypeExpr.never
  | cons hstep _ ih =>
    cases i with
    | zero => exact hstep
    | succ i => exact ih i

theorem through_arrange {d : Option Discriminator} {vss : List (List Visit)}
    {ts : List (Typing TypeExpr)} (h : List.Forall₂ (Through env) vss ts)
    (step : Nat × Option String) :
    Through env (vss.getD step.1 []) (arrange env.config d ts step) := by
  obtain ⟨i, tag⟩ := step
  have hall : Through env (vss.getD i [] ++ []) (arrange env.config d ts (i, tag)) := by
    refine (through_getD h i).bind fun variant => ?_
    split <;> exact through_pure _
  rwa [List.append_nil] at hall

/-- Alternatives are gone through in their order. -/
theorem through_alternatives {d : Option Discriminator} {members : List Schema}
    {vss : List (List Visit)} {ts : List (Typing TypeExpr)}
    (h : List.Forall₂ (Through env) vss ts) :
    Through env (Schema.inOrder (Discriminator.memberOrder env.resolver.self members d) vss)
      (alternatives env d members ts) := by
  unfold alternatives
  split
  · rename_i hnone
    have hnil : Discriminator.memberOrder env.resolver.self members d = [] := by
      rw [List.isEmpty_iff.mp hnone, List.eq_nil_iff_forall_not_mem]
      exact fun step hstep => absurd (Discriminator.lt_of_mem_memberOrder hstep) (Nat.not_lt_zero _)
    rw [hnil]
    exact through_pure []
  · refine (Through.mapM (List.forall₂_same.mpr fun step _ => ?_)).bind_pure
    exact through_arrange h step

mutual
/-- **A schema whose level is allowed is typed by going through the schemas in it.** -/
theorem through_node {depth : Nat} {p : Pointer} (h : depth < env.config.maxDepth) :
    ∀ s : Schema, Through env (s.visits env.resolver.self depth p) (node env (depth + 1) p s)
  | .reference target traits => by
    rw [node, Schema.visits]
    exact (through_reference h).bind_pure
  | .scalar _ _ | .enumerated _ _ | .unknown _ => by
    rw [node, Schema.visits]
    exact (through_pure _).enter h
  | .array none least most traits => by
    rw [node, Schema.visits, Schema.visitsOption]
    exact (through_pure _).enter h
  | .array (some items) least most traits => by
    rw [node, Schema.visits, Schema.visitsOption]
    exact (Through.level fun h => through_node h items).bind_pure.enter h
  | .object properties required additional traits => by
    rw [node, Schema.visits]
    refine Through.enter h ((through_propertyList properties).bind fun members => ?_)
    exact (through_additionalOf additional).bind_pure
  | .composed allOf oneOf anyOf discriminator base traits => by
    rw [node, Schema.visits]
    rw [← List.flatMap_id]
    refine Through.enter h ((Through.mapM (through_nodes allOf 0)).bind fun all => ?_)
    refine (through_alternatives (through_nodes oneOf 0)).bind fun one => ?_
    refine (through_alternatives (through_nodes anyOf 0)).bind fun any => ?_
    cases base with
    | none =>
      exact through_pure _
    | some base =>
      simp only [pure_bind, Schema.visitsOption]
      exact (Through.level fun h => through_node h base).bind_pure

theorem through_nodes {depth : Nat} {p : Pointer} : ∀ (ss : List Schema) (i : Nat),
    List.Forall₂ (Through env) (Schema.visitsList env.resolver.self depth p i ss)
      (nodes env depth p i ss)
  | [], _ => by
    rw [nodes, Schema.visitsList]
    exact .nil
  | s :: rest, i => by
    rw [nodes, Schema.visitsList]
    exact .cons (Through.level fun h => through_node h s) (through_nodes rest (i + 1))

theorem through_propertyList {depth : Nat} {p : Pointer} {required : List String} :
    ∀ properties : List (String × Schema),
      Through env (Schema.visitsProperties env.resolver.self depth p properties)
        (propertyList env depth p required properties)
  | [] => by
    rw [propertyList, Schema.visitsProperties]
    exact through_pure []
  | (name, s) :: rest => by
    rw [propertyList, Schema.visitsProperties]
    refine (Through.level fun h => through_node h s).bind fun type => ?_
    exact (through_propertyList rest).bind_pure

theorem through_additionalOf {depth : Nat} {p : Pointer} : ∀ additional : Additional Schema,
    Through env (Schema.visitsAdditional env.resolver.self depth p additional)
      (additionalOf env depth p additional)
  | .unsaid => by
    rw [additionalOf, Schema.visitsAdditional]
    exact through_pure _
  | .allowed _ => by
    rw [additionalOf, Schema.visitsAdditional]
    exact through_pure _
  | .schema s => by
    rw [additionalOf, Schema.visitsAdditional]
    exact (Through.level fun h => through_node h s).bind_pure
end

/-- **The fault of a schema is that of the first schema met in it that has one**, and a schema in
which none has one is typed. -/
theorem through_schema {depth : Nat} {p : Pointer} (s : Schema) :
    Through env (s.visits env.resolver.self depth p) (schema env depth p s) :=
  Through.level fun h => through_node h s

end Typing

/-! ## 5. Schemas without fault -/

theorem Visit.fault?_eq_none_iff {env : Environment} {v : Visit} :
    v.fault? env = none ↔ v.depth < env.config.maxDepth ∧
      ∀ target, v.target = some target → ∃ p, env.resolver.canonical target .root = .ok p := by
  unfold fault?
  by_cases hdepth : v.depth ≥ env.config.maxDepth
  · rw [if_pos hdepth]
    exact iff_of_false nofun fun h => Nat.not_le_of_lt h.1 hdepth
  · rw [if_neg hdepth, Option.bind_eq_none_iff]
    rw [and_iff_right (Nat.lt_of_not_le hdepth)]
    refine forall₂_congr fun target _ => ?_
    cases hcanonical : env.resolver.canonical target v.location with
    | ok p => exact iff_of_true rfl ⟨p, Resolver.canonical_root hcanonical⟩
    | error e =>
      refine iff_of_false nofun ?_
      rintro ⟨p, hp⟩
      rw [Resolver.canonical_eq_ok_iff.mpr (Resolver.canonical_eq_ok_iff.mp hp)] at hcanonical
      cases hcanonical

/-- **A schema is without fault just if all references in it resolve and the options allow as many
levels as it needs.** -/
theorem Schema.faultless_iff {env : Environment} {depth : Nat} (p : Pointer) {s : Schema} :
    (s.visits env.resolver.self depth p).findSome? (Visit.fault? env) = none ↔
      (∀ target, s.RefersTo target → ∃ q, env.resolver.canonical target .root = .ok q) ∧
        depth + s.height ≤ env.config.maxDepth := by
  rw [List.findSome?_eq_none_iff, ← forall_depth_lt_iff env.resolver.self depth p]
  simp only [Visit.fault?_eq_none_iff, ← exists_visit_iff env.resolver.self depth p]
  constructor
  · intro h
    refine ⟨?_, fun v hv => (h v hv).1⟩
    rintro target ⟨v, hv, htarget⟩
    exact (h v hv).2 target htarget
  · rintro ⟨hresolves, hdepth⟩ v hv
    exact ⟨hdepth v hv, fun target htarget => hresolves target ⟨v, hv, htarget⟩⟩

end ApiTypes
