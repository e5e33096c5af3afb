/-
# Counting levels on the way

`Typing.schema` is told how deep the schema stands.  A run can also keep that number itself: it
counts up when it enters a schema and down when it leaves it, whether the schema has been typed or
not.  Both ways come to the same, and a run that counts leaves the number as it was.

* `Counting` is a result of a run that counts, `Counting.nested` enters and leaves a level, and
  `Counting.schema` types a schema so.
* `Counting.Tracks t u`: the run `t` does what `u` does at the depth that is counted; one lemma for
  each kind of step.
* `Counting.tracks_schema`: counting and being told come to the same.
-/
import ApiTypes.Typing.Schema
import Mathlib.Data.List.Forall2

namespace ApiTypes

/-! ## 1. Runs that count -/

/-- How many levels are entered, and the pointers referred to. -/
structure Context where
  depth : Nat
  referenced : List Pointer

/-- A result that may fail, and changes the context. -/
abbrev Counting (α : Type) := ExceptT Fault (StateM Context) α

namespace Counting

/-- The pointer that a reference at a place leads to; it is recorded. -/
def reference (env : Environment) (target : String) (location : Pointer) : Counting Pointer :=
  match env.resolver.canonical target location with
  | .ok p => do
    modify fun c => { c with referenced := Pointer.insert p c.referenced }
    return p
  | .error e => throw e

/-- Enters a level unless it is deeper than the options allow, and leaves it again in any case. -/
def nested {α : Type} (env : Environment) (location : Pointer) (inner : Counting α) :
    Counting α := ExceptT.mk fun c =>
  if c.depth ≥ env.config.maxDepth then
    (.error (.recursionLimit location env.config.maxDepth), c)
  else
    let (result, c') := ExceptT.run inner { c with depth := c.depth + 1 }
    (result, { c' with depth := c'.depth - 1 })

/-- The alternative at a position, narrowed by its tag if it has one. -/
def arrange (config : Config) (d : Option Discriminator) (variants : List (Counting TypeExpr)) :
    Nat × Option String → Counting TypeExpr
  | (i, tag) => do
    let variant ← variants.getD i (pure .never)
    match tag, d with
    | some tag, some d => return Typing.withTag config d.property tag variant
    | _, _ => return variant

/-- The union of some alternatives, which stands in a combination only if there are any. -/
def alternatives (env : Environment) (d : Option Discriminator) (members : List Schema)
    (variants : List (Counting TypeExpr)) : Counting (List TypeExpr) :=
  if members.isEmpty then pure []
  else do
    let order := Discriminator.memberOrder env.resolver.self members d
    let es ← order.mapM (arrange env.config d variants)
    return [.unionOf es]

mutual
/-- The type of a schema whose own level is entered. -/
def node (env : Environment) (p : Pointer) : Schema → Counting TypeExpr
  | .reference target _ => return .reference (← reference env target p)
  | .unknown _ => return .unknown
  | .scalar kinds traits =>
    return Typing.withNull env.config traits (.unionOf (kinds.map Typing.ofScalar))
  | .enumerated values traits =>
    return Typing.withNull env.config traits (.unionOf (values.map Typing.ofValue))
  | .array none _ _ traits =>
    return Typing.withNull env.config traits (.list .unknown .unbounded env.config.immutableTypes)
  | .array (some items) least most traits => do
    let element ← nested env (p.child "items") (node env (p.child "items") items)
    return Typing.withNull env.config traits
      (.list element (Typing.boundsOf env.config least most) env.config.immutableTypes)
  | .object properties required additional traits => do
    let members ← propertyList env (p.child "properties") required properties
    let catchAll ← additionalOf env (p.child "additionalProperties") additional
    return Typing.withNull env.config traits
      (.record { members, catchAll, catchAllReadonly := env.config.immutableTypes })
  | .composed allOf oneOf anyOf discriminator base traits => do
    let all ← (nodes env (p.child "allOf") 0 allOf).mapM id
    let one ← alternatives env discriminator oneOf (nodes env (p.child "oneOf") 0 oneOf)
    let any ← alternatives env discriminator anyOf (nodes env (p.child "anyOf") 0 anyOf)
    let own ← match base with
      | none => pure []
      | some base => do
        let own ← nested env p (node env p base)
        pure [own]
    return Typing.withNull env.config traits (.intersectionOf (all ++ one ++ any ++ own))

/-- The types of the schemas of a list from a position on. -/
def nodes (env : Environment) (p : Pointer) (i : Nat) : List Schema → List (Counting TypeExpr)
  | [] => []
  | s :: rest => nested env (p.item i) (node env (p.item i) s) :: nodes env p (i + 1) rest

/-- The members of the properties of an object. -/
def propertyList (env : Environment) (p : Pointer) (required : List String) :
    List (String × Schema) → Counting (List (Member TypeExpr))
  | [] => return []
  | (name, s) :: rest => do
    let type ← nested env (p.child name) (node env (p.child name) s)
    return Typing.property env.config required name s type
      :: (← propertyList env p required rest)

/-- The type of the members that are not declared. -/
def additionalOf (env : Environment) (p : Pointer) : Additional Schema → Counting (Option TypeExpr)
  | .unsaid => return if env.config.additionalProperties then some .unknown else none
  | .allowed allowed => return if allowed then some .unknown else none
  | .schema s => return some (← nested env p (node env p s))
end

/-- The type of a schema that stands at a pointer. -/
def schema (env : Environment) (p : Pointer) (s : Schema) : Counting TypeExpr :=
  nested env p (node env p s)

/-! ## 2. Both ways -/

variable {α β : Type} {env : Environment}

/-- **A run that counts does what a typing does** that is told the depth, and leaves the depth as
it was, whether it fails or not. -/
def Tracks (t : Counting α) (u : Nat → Typing α) : Prop :=
  ∀ depth refs, ExceptT.run t ⟨depth, refs⟩ =
    ((ExceptT.run (u depth) refs).1, ⟨depth, (ExceptT.run (u depth) refs).2⟩)

theorem tracks_pure (a : α) : Tracks (pure a) fun _ => pure a := fun _ _ => rfl

theorem Tracks.bind {t : Counting α} {u : Nat → Typing α} {f : α → Counting β}
    {g : Nat → α → Typing β} (h : Tracks t u) (hf : ∀ a, Tracks (f a) fun depth => g depth a) :
    Tracks (t >>= f) fun depth => u depth >>= g depth := by
  intro depth refs
  have hfirst := h depth refs
  rw [ExceptT.run_bind, ExceptT.run_bind]
  cases hu : ExceptT.run (u depth) refs with
  | mk result mid =>
    rw [hu] at hfirst
    cases result with
    | error e =>
      simp only [Bind.bind, StateT.bind, hfirst, hu]
      rfl
    | ok a =>
      simp only [Bind.bind, StateT.bind, hfirst, hu]
      exact hf a depth mid

theorem tracks_reference (target : String) (location : Pointer) :
    Tracks (reference env target location) fun _ => Typing.reference env target location := by
  intro depth refs
  unfold reference Typing.reference
  cases env.resolver.canonical target location with
  | ok p => rfl
  | error e => rfl

/-- A level that is entered is left again. -/
theorem Tracks.nested {location : Pointer} {t : Counting α} {u : Nat → Typing α}
    (h : Tracks t u) :
    Tracks (nested env location t) fun depth => Typing.within env depth location u := by
  intro depth refs
  have hinner := h (depth + 1) refs
  unfold Counting.nested Typing.within
  rw [ExceptT.run_mk]
  beta_reduce
  by_cases hdepth : depth ≥ env.config.maxDepth
  · rw [if_pos hdepth, if_pos hdepth]
    rfl
  · rw [if_neg hdepth, if_neg hdepth]
    simp only [hinner, Nat.add_sub_cancel]

theorem Tracks.mapM_id {ts : List (Counting α)} {us : List (Nat → Typing α)}
    (h : List.Forall₂ Tracks ts us) :
    Tracks (ts.mapM id) fun depth => (us.map (· depth)).mapM id := by
  induction h with
  | nil => exact tracks_pure []
  | cons h _ ih =>
    simp only [List.map_cons, List.mapM_cons]
    exact h.bind fun a => ih.bind fun as => tracks_pure (a :: as)

theorem Tracks.mapM {γ : Type} {f : γ → Counting α} {g : Nat → γ → Typing α} (cs : List γ)
    (h : ∀ c, Tracks (f c) fun depth => g depth c) :
    Tracks (cs.mapM f) fun depth => cs.mapM (g depth) := by
  induction cs with
  | nil => exact tracks_pure []
  | cons c rest ih =>
    simp only [List.mapM_cons]
    exact (h c).bind fun a => ih.bind fun as => tracks_pure (a :: as)

theorem Tracks.getD {ts : List (Counting α)} {us : List (Nat → Typing α)} {a : α}
    (h : List.Forall₂ Tracks ts us) (i : Nat) :
    Tracks (ts.getD i (pure a)) fun depth => (us.map (· depth)).getD i (pure a) := by
  induction h generalizing i with
  | nil => exact tracks_pure a
  | cons h _ ih =>
    cases i with
    | zero => exact h
    | succ i => exact ih i

/-! ## 3. Schemas -/

theorem tracks_arrange {d : Option Discriminator} {ts : List (Counting TypeExpr)}
    {us : List (Nat → Typing TypeExpr)} (h : List.Forall₂ Tracks ts us)
    (step : Nat × Option String) :
    Tracks (arrange env.config d ts step) fun depth =>
      Typing.arrange env.config d (us.map (· depth)) step := by
  obtain ⟨i, tag⟩ := step
  refine (Tracks.getD h i).bind fun variant => ?_
  cases tag <;> cases d <;> exact tracks_pure _

theorem tracks_alternatives {d : Option Discriminator} {members : List Schema}
    {ts : List (Counting TypeExpr)} {us : List (Nat → Typing TypeExpr)}
    (h : List.Forall₂ Tracks ts us) :
    Tracks (alternatives env d members ts) fun depth =>
      Typing.alternatives env d members (us.map (· depth)) := by
  unfold alternatives Typing.alternatives
  split
  · exact tracks_pure []
  · refine (Tracks.mapM _ (tracks_arrange h)).bind fun es => ?_
    exact tracks_pure [TypeExpr.unionOf es]

/-- The schemas of a list from a position on, each for itself and at any depth. -/
def levels (env : Environment) (p : Pointer) (i : Nat) : List Schema → List (Nat → Typing TypeExpr)
  | [] => []
  | s :: rest =>
    (fun depth => Typing.within env depth (p.item i) fun depth =>
      Typing.node env depth (p.item i) s) :: levels env p (i + 1) rest

theorem map_levels {p : Pointer} {i depth : Nat} {ss : List Schema} :
    (levels env p i ss).map (· depth) = Typing.nodes env depth p i ss := by
  induction ss generalizing i with
  | nil => rw [levels, Typing.nodes, List.map_nil]
  | cons s rest ih => rw [levels, Typing.nodes, List.map_cons, ih]

mutual
theorem tracks_node {p : Pointer} :
    ∀ s : Schema, Tracks (node env p s) fun depth => Typing.node env depth p s
  | .reference target _ => by
    simp only [node, Typing.node]
    exact (tracks_reference target p).bind fun q => tracks_pure _
  | .unknown _ | .scalar _ _ | .enumerated _ _ | .array none _ _ _ => by
    simp only [node, Typing.node]
    exact tracks_pure _
  | .array (some items) _ _ _ => by
    simp only [node, Typing.node]
    exact (tracks_node items).nested.bind fun element => tracks_pure _
  | .object properties required additional _ => by
    simp only [node, Typing.node]
    refine (tracks_propertyList properties).bind fun members => ?_
    exact (tracks_additionalOf additional).bind fun catchAll => tracks_pure _
  | .composed allOf oneOf anyOf discriminator base _ => by
    simp only [node, Typing.node, ← map_levels]
    refine (Tracks.mapM_id (tracks_nodes allOf 0)).bind fun all => ?_
    refine (tracks_alternatives (tracks_nodes oneOf 0)).bind fun one => ?_
    refine (tracks_alternatives (tracks_nodes anyOf 0)).bind fun any => ?_
    cases base with
    | none => exact tracks_pure _
    | some base =>
      simp only [pure_bind]
      exact (tracks_node base).nested.bind fun own => tracks_pure _

theorem tracks_nodes {p : Pointer} : ∀ (ss : List Schema) (i : Nat),
    List.Forall₂ Tracks (nodes env p i ss) (levels env p i ss)
  | [], _ => by
    rw [nodes, levels]
    exact .nil
  | s :: rest, i => by
    rw [nodes, levels]
    exact .cons (tracks_node s).nested (tracks_nodes rest (i + 1))

theorem tracks_propertyList {p : Pointer} {required : List String} :
    ∀ properties : List (String × Schema), Tracks (propertyList env p required properties)
      fun depth => Typing.propertyList env depth p required properties
  | [] => by
    simp only [propertyList, Typing.propertyList]
    exact tracks_pure []
  | (name, s) :: rest => by
    simp only [propertyList, Typing.propertyList]
    refine (tracks_node s).nested.bind fun type => ?_
    exact (tracks_propertyList rest).bind fun members => tracks_pure _

theorem tracks_additionalOf {p : Pointer} (additional : Additional Schema) :
    Tracks (additionalOf env p additional)
      fun depth => Typing.additionalOf env depth p additional := by
  cases additional with
  | unsaid | allowed =>
    simp only [additionalOf, Typing.additionalOf]
    exact tracks_pure _
  | schema s =>
    simp only [additionalOf, Typing.additionalOf]
    exact (tracks_node s).nested.bind fun type => tracks_pure _
end

/-- **Counting the levels and being told the depth come to the same**, and the levels that were
entered are left again. -/
theorem tracks_schema {p : Pointer} (s : Schema) :
    Tracks (schema env p s) fun depth => Typing.schema env depth p s :=
  (tracks_node s).nested

end Counting

end ApiTypes
