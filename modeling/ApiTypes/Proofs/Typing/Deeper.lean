/-
# Allowing more levels

The number of levels that the options allow is only ever compared with a depth, so a typing that
has succeeded never came to the limit, and it succeeds in the same way if more levels are allowed.

* `Environment.deeper` is an environment that allows another number of levels.
* `Typing.Persists t u`: a run of `t` that succeeds is a run of `u`; one lemma for each step.
* `Typing.persists_node` is the step by kinds of schemas, `Typing.persists_response` and
  `Typing.persists_operation` the ones for payloads and operations.
-/
import ApiTypes.Proofs.Typing.Outcome

namespace ApiTypes

/-- An environment that allows another number of levels. -/
def Environment.deeper (env : Environment) (maxDepth : Nat) : Environment :=
  { env with config := { env.config with maxDepth } }

namespace Typing

variable {α β γ : Type}

/-! ## 1. Runs that persist -/

/-- **A typing persists in another one**: a run of it that succeeds is a run of the other, with the
same result and the same pointers. -/
def Persists (t u : Typing α) : Prop :=
  ∀ refs a refs', ExceptT.run t refs = (.ok a, refs') → ExceptT.run u refs = (.ok a, refs')

theorem Persists.refl (t : Typing α) : Persists t t := fun _ _ _ h => h

/-- What fails persists in anything. -/
theorem persists_throw {e : Fault} {u : Typing α} : Persists (throw e) u := by
  intro refs a refs' h
  cases h

theorem Persists.bind {t u : Typing α} {f g : α → Typing β} (h : Persists t u)
    (hfg : ∀ a, Persists (f a) (g a)) : Persists (t >>= f) (u >>= g) := by
  intro refs b refs' hrun
  obtain ⟨a, mid, ht, hf⟩ := run_bind hrun
  rw [ExceptT.run_bind]
  simp only [Bind.bind, StateT.bind, h refs a mid ht]
  exact hfg a mid b refs' hf

/-- The same step after steps of which one persists in the other. -/
theorem Persists.bind_same {t u : Typing α} {f : α → Typing β} (h : Persists t u) :
    Persists (t >>= f) (u >>= f) :=
  h.bind fun a => .refl (f a)

theorem Persists.mapM {f g : α → Typing β} {as : List α} (h : ∀ a ∈ as, Persists (f a) (g a)) :
    Persists (as.mapM f) (as.mapM g) := by
  induction as with
  | nil => exact .refl _
  | cons a rest ih =>
    rw [List.mapM_cons, List.mapM_cons]
    refine (h a List.mem_cons_self).bind fun b => ?_
    exact (ih fun a ha => h a (List.mem_cons_of_mem _ ha)).bind_same

theorem Persists.mapM_id {ts us : List (Typing α)} (h : List.Forall₂ Persists ts us) :
    Persists (ts.mapM id) (us.mapM id) := by
  induction h with
  | nil => exact .refl _
  | cons h _ ih =>
    rw [List.mapM_cons, List.mapM_cons]
    exact h.bind fun b => ih.bind_same

theorem Persists.getD {ts us : List (Typing α)} (h : List.Forall₂ Persists ts us) (t : Typing α)
    (i : Nat) : Persists (ts.getD i t) (us.getD i t) := by
  induction h generalizing i with
  | nil => exact .refl _
  | cons h _ ih =>
    cases i with
    | zero => exact h
    | succ i => exact ih i

section Deeper

variable {env : Environment} {m : Nat}

/-- What stands on a level that is allowed stands on one if more are allowed. -/
theorem Persists.within {depth : Nat} {p : Pointer} {inner inner' : Nat → Typing α}
    (hm : env.config.maxDepth ≤ m) (h : Persists (inner (depth + 1)) (inner' (depth + 1))) :
    Persists (within env depth p inner) (within (env.deeper m) depth p inner') := by
  unfold Typing.within
  by_cases hdepth : depth ≥ env.config.maxDepth
  · rw [if_pos hdepth]
    exact persists_throw
  · have hdepth' : ¬ depth ≥ (env.deeper m).config.maxDepth := fun hge =>
      hdepth (Nat.le_trans hm hge)
    rw [if_neg hdepth, if_neg hdepth']
    exact h

/-! ## 2. Schemas -/

theorem persists_alternatives {d : Option Discriminator} {members : List Schema}
    {ts us : List (Typing TypeExpr)} (h : List.Forall₂ Persists ts us) :
    Persists (alternatives env d members ts) (alternatives (env.deeper m) d members us) := by
  unfold alternatives
  split
  · exact .refl _
  · refine (Persists.mapM fun step _ => ?_).bind_same
    exact (Persists.getD h _ step.1).bind_same

mutual
/-- **A schema is typed alike if more levels are allowed.** -/
theorem persists_node (hm : env.config.maxDepth ≤ m) {depth : Nat} {p : Pointer} : ∀ s : Schema,
    Persists (node env depth p s) (node (env.deeper m) depth p s)
  | .reference _ _ | .unknown _ | .scalar _ _ | .enumerated _ _ | .array none _ _ _ => by
    rw [node, node]
    exact .refl _
  | .array (some items) _ _ _ => by
    rw [node, node]
    exact (Persists.within hm (persists_node hm items)).bind_same
  | .object properties _ additional _ => by
    rw [node, node]
    refine (persists_propertyList hm properties).bind fun members => ?_
    exact (persists_additionalOf hm additional).bind_same
  | .composed allOf oneOf anyOf _ base _ => by
    rw [node, node]
    refine (Persists.mapM_id (persists_nodes hm allOf 0)).bind fun all => ?_
    refine (persists_alternatives (persists_nodes hm oneOf 0)).bind fun one => ?_
    refine (persists_alternatives (persists_nodes hm anyOf 0)).bind fun any => ?_
    cases base with
    | none => exact .refl _
    | some base => exact (Persists.within hm (persists_node hm base)).bind_same

theorem persists_nodes (hm : env.config.maxDepth ≤ m) {depth : Nat} {p : Pointer} :
    ∀ (ss : List Schema) (i : Nat),
      List.Forall₂ Persists (nodes env depth p i ss) (nodes (env.deeper m) depth p i ss)
  | [], _ => by
    rw [nodes, nodes]
    exact .nil
  | s :: rest, i => by
    rw [nodes, nodes]
    exact .cons (.within hm (persists_node hm s)) (persists_nodes hm rest (i + 1))

theorem persists_propertyList (hm : env.config.maxDepth ≤ m) {depth : Nat} {p : Pointer}
    {required : List String} : ∀ properties : List (String × Schema),
      Persists (propertyList env depth p required properties)
        (propertyList (env.deeper m) depth p required properties)
  | [] => by
    rw [propertyList, propertyList]
    exact .refl _
  | (name, s) :: rest => by
    rw [propertyList, propertyList]
    refine (Persists.within hm (persists_node hm s)).bind fun type => ?_
    exact (persists_propertyList hm rest).bind_same

theorem persists_additionalOf (hm : env.config.maxDepth ≤ m) {depth : Nat} {p : Pointer} :
    ∀ additional : Additional Schema,
      Persists (additionalOf env depth p additional)
        (additionalOf (env.deeper m) depth p additional)
  | .unsaid | .allowed _ => by
    rw [additionalOf, additionalOf]
    exact .refl _
  | .schema s => by
    rw [additionalOf, additionalOf]
    exact (Persists.within hm (persists_node hm s)).bind_same
end

theorem persists_schema (hm : env.config.maxDepth ≤ m) {depth : Nat} {p : Pointer} (s : Schema) :
    Persists (schema env depth p s) (schema (env.deeper m) depth p s) :=
  .within hm (persists_node hm s)

/-! ## 3. Payloads -/

theorem persists_eachNamed {base : Pointer} {type type' : String → Pointer → α → Typing β}
    {entries : List (String × α)} (h : ∀ name p a, Persists (type name p a) (type' name p a)) :
    Persists (eachNamed env base type entries) (eachNamed (env.deeper m) base type' entries) :=
  .mapM fun _ _ => h _ _ _

theorem persists_mediaType (hm : env.config.maxDepth ≤ m) {p : Pointer} {media : MediaType} :
    Persists (mediaType env p media) (mediaType (env.deeper m) p media) := by
  unfold mediaType
  split
  · exact persists_schema hm _
  · exact .refl _

theorem persists_content (hm : env.config.maxDepth ≤ m) {role : ContentRole} {p : Pointer}
    {c : Content} : Persists (content env role p c) (content (env.deeper m) role p c) := by
  unfold content
  split
  · exact .refl _
  · split
    · exact .refl _
    · exact (Persists.mapM fun _ _ => persists_mediaType hm).bind_same

theorem persists_schemaOrContent (hm : env.config.maxDepth ≤ m) {p : Pointer} {s : Option Schema}
    {c : Option Content} {byContent byContent' : Content → Typing TypeExpr} {otherwise : TypeExpr}
    (h : ∀ c, Persists (byContent c) (byContent' c)) :
    Persists (schemaOrContent env p s c byContent otherwise)
      (schemaOrContent (env.deeper m) p s c byContent' otherwise) := by
  unfold schemaOrContent
  split
  · exact persists_schema hm _
  · exact h _
  · exact .refl _

theorem persists_header (hm : env.config.maxDepth ≤ m) {p : Pointer} {h : Header} :
    Persists (header env p h) (header (env.deeper m) p h) :=
  persists_schemaOrContent hm fun _ =>
    (persists_eachNamed fun _ _ _ => (persists_mediaType hm).bind_same).bind_same

theorem persists_headerMember (hm : env.config.maxDepth ≤ m) {name : String} {p : Pointer}
    {part : OrRef Header} :
    Persists (headerMember env name p part) (headerMember (env.deeper m) name p part) := by
  cases part with
  | ref r => exact .refl _
  | item h => exact (persists_header hm).bind_same

theorem persists_response (hm : env.config.maxDepth ≤ m) {p : Pointer} {r : Response} :
    Persists (response env p r) (response (env.deeper m) p r) := by
  unfold response
  split
  · exact .refl _
  · refine (persists_content hm).bind fun body => ?_
    split
    · exact .refl _
    · exact (persists_eachNamed fun _ _ _ => persists_headerMember hm).bind_same

/-! ## 4. Operations -/

theorem effective_deeper : effective (env.deeper m) = effective env := by
  funext p part
  cases part <;> rfl

theorem persists_effectiveParameters {site : Site} {location : Pointer} {o : Operation} :
    Persists (effectiveParameters env site location o)
      (effectiveParameters (env.deeper m) site location o) := by
  unfold effectiveParameters
  rw [effective_deeper]
  exact .refl _

theorem persists_parameter (hm : env.config.maxDepth ≤ m) {p : Pointer} {param : Parameter} :
    Persists (parameter env p param) (parameter (env.deeper m) p param) :=
  persists_schemaOrContent hm fun _ => persists_content hm

theorem persists_parameters (hm : env.config.maxDepth ≤ m) {es : List EffectiveParameter} :
    Persists (parameters env es) (parameters (env.deeper m) es) :=
  (Persists.mapM fun _ _ => (persists_parameter hm).bind_same).bind_same

theorem persists_sharedParameters (hm : env.config.maxDepth ≤ m) {p : Pointer}
    {shared : List (OrRef Parameter)} :
    Persists (sharedParameters env p shared) (sharedParameters (env.deeper m) p shared) := by
  unfold sharedParameters
  rw [effective_deeper]
  exact (Persists.refl _).bind fun es => persists_parameters hm

theorem persists_requestBody (hm : env.config.maxDepth ≤ m) {p : Pointer} {b : RequestBody} :
    Persists (requestBody env p b) (requestBody (env.deeper m) p b) :=
  persists_content hm

theorem persists_bodyMember (hm : env.config.maxDepth ≤ m) {p : Pointer}
    {body : Option (OrRef RequestBody)} :
    Persists (bodyMember env p body) (bodyMember (env.deeper m) p body) := by
  rcases body with _ | ⟨r | b⟩
  · exact .refl _
  · exact .refl _
  · exact (persists_requestBody hm).bind_same

theorem persists_responseMember (hm : env.config.maxDepth ≤ m) {code : String} {p : Pointer}
    {part : OrRef Response} :
    Persists (responseMember env code p part) (responseMember (env.deeper m) code p part) := by
  cases part with
  | ref r => exact .refl _
  | item r => exact (persists_response hm).bind_same

theorem persists_operation (hm : env.config.maxDepth ≤ m) {site : Site} {method : Method}
    {o : Operation} :
    Persists (operation env site method o) (operation (env.deeper m) site method o) := by
  refine persists_effectiveParameters.bind fun es => ?_
  refine (Persists.mapM fun _ _ => (persists_parameter hm).bind_same).bind fun pathParams => ?_
  refine (persists_parameters hm).bind fun params => ?_
  refine (persists_bodyMember hm).bind fun body => ?_
  exact (persists_eachNamed fun _ _ _ => persists_responseMember hm).bind_same

end Deeper

end Typing

end ApiTypes
