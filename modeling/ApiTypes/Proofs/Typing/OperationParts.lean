/-
# What occurs in the types of operations

The properties of pointers and records that hold in the types of payloads hold in the types of
operations as well, with one exception.  The record of the parameters puts together parameters
from different places of a request, and two of them may have one name; whether the record has a
property therefore depends on the names that come together in it.

* `Typing.Fits` is what the record of the parameters needs; `Typing.ParameterLists` are the lists
  of parameters of a path item from which such records are made.
* `Typing.obeys_parameters`, `Typing.obeys_operation` and `Typing.obeys_pathRecord` are the steps.
-/
import ApiTypes.Proofs.Typing.Occurring
import ApiTypes.Typing.Document

namespace ApiTypes

open TypeExpr

/-- A parameter in effect whose parts have names of their own and whose place in a collection, if
it has one, is one that a reference leads to. -/
structure EffectiveParameter.Sound (env : Environment) (e : EffectiveParameter) : Prop where
  names : e.parameter.UniqueNames
  pick : ∀ group key, e.group = some (group, key) → env.Resolves (group.child key)

/-- Everything that occurs in the type of an operation and in those of its path parameters has a
property. -/
def TypedOperation.Obeys (P : TypeExpr → Prop) (o : TypedOperation) : Prop :=
  TypeExpr.Obeys P o.type ∧ ∀ q ∈ o.pathParams, TypeExpr.Obeys P q.2

namespace Typing

variable {env : Environment} {P : TypeExpr → Prop}

/-! ## 1. Parameters in effect -/

/-- The names of the parameters that stand in the record. -/
def inlineNames (es : List EffectiveParameter) : List String :=
  (es.filter (·.group.isNone)).map (·.parameter.name)

/-- Members under the names of the parameters in the record make a record with a property. -/
def Fits (P : TypeExpr → Prop) (es : List EffectiveParameter) : Prop :=
  ∀ ms, ms.filterMap Member.name? = inlineNames es → P (.record { members := ms })

/-- The collection and the name of a pointer lead back to it. -/
theorem child_of_parameterGroup {p group : Pointer} {key : String}
    (h : parameterGroup? p = some (group, key)) : group.child key = p := by
  unfold parameterGroup? at h
  split at h
  · rename_i k rest hsegments
    split at h
    · cases h
      have hp := congrArg List.reverse hsegments
      rw [List.reverse_reverse, List.reverse_cons] at hp
      rw [Pointer.child, ← hp]
    · cases h
  · cases h

theorem sound_effective (hk : env.resolver.root.UniqueKeys) {p : Pointer}
    {part : OrRef Parameter} {e : EffectiveParameter} (hpart : part.All Parameter.UniqueNames)
    (h : Gives (effective env p part) e) : e.Sound env := by
  cases part with
  | item param =>
    rw [h.of_pure]
    exact ⟨hpart param rfl, fun _ _ h => by cases h⟩
  | ref r =>
    obtain ⟨target, htarget, h⟩ := h.of_bind
    obtain ⟨⟨q, param⟩, hparam, h⟩ := h.of_bind
    rw [h.of_pure]
    obtain ⟨v, hv, hread⟩ := Resolver.find_of_resolveAs hparam.of_lift
    refine ⟨Decode.ensures_parameter v param (hk.find? hv) hread, fun group key hgroup => ?_⟩
    rw [child_of_parameterGroup hgroup]
    exact ⟨_, _, htarget.of_reference⟩

theorem sound_eachItem (hk : env.resolver.root.UniqueKeys) {base : Pointer}
    {parts : List (OrRef Parameter)} {es : List EffectiveParameter}
    (hparts : ∀ part ∈ parts, part.All Parameter.UniqueNames)
    (h : Gives (eachItem base (effective env) parts) es) : ∀ e ∈ es, e.Sound env := by
  intro e he
  obtain ⟨part, hpart, p, hgives⟩ := exists_of_forall₂ h.of_eachItem he
  exact sound_effective hk (hparts part hpart) hgives

theorem sound_effectiveParameters (hk : env.resolver.root.UniqueKeys)
    {site : Site} {location : Pointer} {o : Operation} {es : List EffectiveParameter}
    (ho : ∀ part ∈ o.parameters, part.All Parameter.UniqueNames)
    (hs : ∀ part ∈ site.shared, part.All Parameter.UniqueNames)
    (h : Gives (effectiveParameters env site location o) es) : ∀ e ∈ es, e.Sound env := by
  obtain ⟨own, hown, h⟩ := h.of_bind
  obtain ⟨shared, hshared, h⟩ := h.of_bind
  rw [h.of_pure]
  intro e he
  rcases List.mem_append.mp he with he | he
  · exact sound_eachItem hk ho hown e he
  · exact sound_eachItem hk hs hshared e (List.mem_of_mem_filter he)

/-! ## 2. The types of parameters -/

theorem obeys_parameter (hp : Permits env P) {p : Pointer} {param : Parameter} {e : TypeExpr}
    (hn : param.UniqueNames) (h : Gives (parameter env p param) e) : Obeys P e :=
  obeys_schemaOrContent hp hn (fun _ hc _ h => obeys_content hp hc h)
    (obeys_primitive hp.plain) h

/-- What is picked from a collection was to be picked from it. -/
theorem mem_of_mem_addPick {pick : Pointer × String} {group : Pointer} {keys : List String}
    {key : String} : ∀ {groups : List (Pointer × List String)},
    (group, keys) ∈ addPick groups pick → key ∈ keys →
    (group, key) = pick ∨ ∃ keys, (group, keys) ∈ groups ∧ key ∈ keys
  | [], hg, hkey => by
    rw [addPick, List.mem_singleton] at hg
    cases hg
    exact Or.inl (by rw [List.mem_singleton.mp hkey])
  | (g, ks) :: rest, hg, hkey => by
    rw [addPick] at hg
    split at hg
    · rename_i heq
      rcases List.mem_cons.mp hg with hg | hg
      · cases hg
        split at hkey
        · exact Or.inr ⟨_, List.mem_cons_self, hkey⟩
        · rcases List.mem_append.mp hkey with hkey | hkey
          · exact Or.inr ⟨_, List.mem_cons_self, hkey⟩
          · exact Or.inl (by rw [List.mem_singleton.mp hkey, heq])
      · exact Or.inr ⟨keys, List.mem_cons_of_mem _ hg, hkey⟩
    · rcases List.mem_cons.mp hg with hg | hg
      · cases hg
        exact Or.inr ⟨_, List.mem_cons_self, hkey⟩
      · rcases mem_of_mem_addPick hg hkey with h | ⟨ks', hmem, hkey⟩
        · exact Or.inl h
        · exact Or.inr ⟨ks', List.mem_cons_of_mem _ hmem, hkey⟩

theorem mem_of_mem_picks {group : Pointer} {keys : List String} {key : String} :
    ∀ (picks : List (Pointer × String)) (groups : List (Pointer × List String)),
    (group, keys) ∈ picks.foldl addPick groups → key ∈ keys →
    (group, key) ∈ picks ∨ ∃ keys, (group, keys) ∈ groups ∧ key ∈ keys
  | [], _, hg, hkey => Or.inr ⟨keys, hg, hkey⟩
  | _ :: rest, _, hg, hkey => by
    rcases mem_of_mem_picks rest _ hg hkey with h | ⟨ks, hmem, hkey⟩
    · exact Or.inl (List.mem_cons_of_mem _ h)
    · rcases mem_of_mem_addPick hmem hkey with h | h
      · exact Or.inl (h ▸ List.mem_cons_self)
      · exact Or.inr h

/-- The members of the parameters that stand in the record. -/
theorem namedMembers_parameters (hp : Permits env P) {es : List EffectiveParameter}
    {ms : List (Member TypeExpr)} (hes : ∀ e ∈ es, e.Sound env)
    (h : Gives ((es.filter (·.group.isNone)).mapM (parameterMember env)) ms) :
    List.Forall₂ (NamedMember P) (inlineNames es) ms := by
  have hsound : ∀ e ∈ es.filter (·.group.isNone), e.Sound env :=
    fun e he => hes e (List.mem_of_mem_filter he)
  have hsteps := h.of_mapM
  unfold inlineNames
  generalize es.filter (·.group.isNone) = inline at hsound hsteps
  clear h hes
  induction hsteps with
  | nil => exact .nil
  | cons hstep _ ih =>
    obtain ⟨type, htype, hstep⟩ := hstep.of_bind
    rw [hstep.of_pure]
    refine .cons (namedMember_of ?_) (ih fun e he => hsound e (List.mem_cons_of_mem _ he))
    exact obeys_parameter hp (hsound _ List.mem_cons_self).names htype

/-- **Everything that occurs in the type of parameters obeys**, if their record fits. -/
theorem obeys_parameters (hp : Permits env P) {es : List EffectiveParameter} {e : TypeExpr}
    (hes : ∀ e ∈ es, e.Sound env) (hfit : Fits P es) (h : Gives (parameters env es) e) :
    Obeys P e := by
  unfold parameters at h
  obtain ⟨ms, hms, h⟩ := h.of_bind
  have hnamed := namedMembers_parameters hp hes hms
  simp only at h
  split at h
  · rw [h.of_pure]
    exact obeys_void hp.plain
  · rw [h.of_pure]
    refine obeys_intersectionOf hp.plain fun x hx => ?_
    rcases List.mem_append.mp hx with hx | hx
    · split at hx
      · cases hx
      · rw [List.mem_singleton.mp hx]
        exact obeys_closed.mpr
          ⟨hfit ms (names_of_namedMembers hnamed), obeys_of_namedMembers hnamed⟩
    · obtain ⟨⟨group, keys⟩, hpick, rfl⟩ := List.mem_map.mp hx
      refine obeys_pick.mpr (hp.pick _ _ fun key hkey => ?_)
      rcases mem_of_mem_picks _ _ hpick hkey with hmem | ⟨_, hmem, _⟩
      · obtain ⟨x, hx, hgroup⟩ := List.mem_filterMap.mp hmem
        exact (hes x hx).pick group key hgroup
      · cases hmem

/-! ## 3. Operations -/

theorem obeys_requestBody (hp : Permits env P) {p : Pointer} {b : RequestBody} {e : TypeExpr}
    (hb : b.UniqueNames) (h : Gives (requestBody env p b) e) : Obeys P e :=
  obeys_content hp hb h

theorem namedMember_body (hp : Permits env P) {p : Pointer} {body : Option (OrRef RequestBody)}
    {m : Member TypeExpr} (hb : ∀ b, body = some b → b.All RequestBody.UniqueNames)
    (h : Gives (bodyMember env p body) m) : NamedMember P "content" m := by
  unfold bodyMember at h
  split at h
  · rw [h.of_pure]
    exact namedMember_of (obeys_void hp.plain)
  · obtain ⟨q, hq, h⟩ := h.of_bind
    obtain ⟨_, _, h⟩ := h.of_bind
    rw [h.of_pure]
    exact namedMember_of (obeys_reference.mpr (hp.reference _ ⟨_, _, hq.of_reference⟩))
  · rename_i b
    obtain ⟨type, htype, h⟩ := h.of_bind
    rw [h.of_pure]
    exact namedMember_of (obeys_requestBody hp (hb _ rfl b rfl) htype)

theorem namedMember_response (hp : Permits env P) {code : String} {p : Pointer}
    {part : OrRef Response} {m : Member TypeExpr} (hu : part.All Response.UniqueNames)
    (h : Gives (responseMember env code p part) m) : NamedMember P code m := by
  cases part with
  | ref r => exact namedMember_reference hp h
  | item r =>
    obtain ⟨type, htype, h⟩ := h.of_bind
    rw [h.of_pure]
    exact namedMember_of (obeys_response hp (hu r rfl) htype)

/-- A record of some of the members with distinct names. -/
theorem obeys_closed_filter (hp : Permits env P) {names : List String}
    {ms : List (Member TypeExpr)} {keep : Member TypeExpr → Bool} (hn : names.Nodup)
    (h : List.Forall₂ (NamedMember P) names ms) : Obeys P (.closed (ms.filter keep)) := by
  refine obeys_closed.mpr ⟨hp.record _ ?_, fun m hm => ?_⟩
  · have hsub : ((ms.filter keep).filterMap Member.name?).Sublist (ms.filterMap Member.name?) :=
      List.filter_sublist.filterMap _
    rw [names_of_namedMembers h] at hsub
    exact hn.sublist hsub
  · exact obeys_of_namedMembers h m (List.mem_of_mem_filter hm)

/-- **Everything that occurs in the types of an operation obeys**, if the record of its parameters
fits. -/
theorem obeys_operation (hp : Permits env P) (hk : env.resolver.root.UniqueKeys) {site : Site}
    {method : Method} {o : Operation} {t : TypedOperation} (ho : o.UniqueNames)
    (hs : ∀ part ∈ site.shared, part.All Parameter.UniqueNames)
    (hfit : ∀ es, Gives (effectiveParameters env site (site.pointer.child method.name) o) es →
      Fits P es)
    (h : Gives (operation env site method o) t) : t.Obeys P := by
  obtain ⟨es, hes, h⟩ := h.of_bind
  obtain ⟨pathParams, hpath, h⟩ := h.of_bind
  obtain ⟨params, hparams, h⟩ := h.of_bind
  obtain ⟨body, hbody, h⟩ := h.of_bind
  obtain ⟨responses, hresponses, h⟩ := h.of_bind
  have hsound := sound_effectiveParameters hk ho.1 hs hes
  have hnames : ((ordered env.config.alphabetize o.responses).map Prod.fst).Nodup :=
    nodup_ordered ho.2.2.names
  have hmembers : ["parameters", "content", "responses", "exceptions"].Nodup := by decide
  have hnamed := namedMembers_eachNamed
    (fun e he _ => namedMember_response hp (ho.2.2.parts e he)) hresponses
  rw [h.of_pure]
  refine ⟨obeys_closed_of_named hp hmembers (.cons ?_ (.cons ?_ (.cons ?_ (.cons ?_ .nil)))),
    fun q hq => ?_⟩
  · exact namedMember_of (obeys_parameters hp hsound (hfit es hes) hparams)
  · exact namedMember_body hp ho.2.1 hbody
  · exact namedMember_of (obeys_closed_filter hp hnames hnamed)
  · exact namedMember_of (obeys_closed_filter hp hnames hnamed)
  · obtain ⟨e, he, hgives⟩ := exists_of_forall₂ hpath.of_mapM hq
    obtain ⟨type, htype, hgives⟩ := hgives.of_bind
    rw [hgives.of_pure]
    exact obeys_parameter hp (hsound e (List.mem_of_mem_filter he)).names htype

/-! ## 4. Path items -/

/-- The lists of parameters that are typed together have a property: the one that the operations of
a path item share, and those in effect for its operations.  What the path item is called does not
matter to them. -/
structure ParameterLists (env : Environment) (P : List EffectiveParameter → Prop) (p : Pointer)
    (item : PathItem) : Prop where
  shared : ∀ es, Gives (eachItem (p.child "parameters") (effective env) item.parameters) es → P es
  operations : ∀ o ∈ item.operations, ∀ es,
    Gives (effectiveParameters env
      { kind := .path, path := "", pointer := p, shared := item.parameters }
      (p.child o.1.name) o.2) es → P es

theorem ParameterLists.mono {P P' : List EffectiveParameter → Prop} {p : Pointer} {item : PathItem}
    (h : ParameterLists env P p item) (hP : ∀ es, P es → P' es) : ParameterLists env P' p item :=
  ⟨fun es hes => hP es (h.shared es hes), fun o ho es hes => hP es (h.operations o ho es hes)⟩

/-- Properties that are one where a third holds. -/
theorem ParameterLists.congr {P P' K : List EffectiveParameter → Prop} {p : Pointer}
    {item : PathItem} (hK : ParameterLists env K p item) (h : ∀ es, K es → (P es ↔ P' es)) :
    ParameterLists env P p item ↔ ParameterLists env P' p item := by
  constructor
  · rintro ⟨hshared, hoperations⟩
    exact ⟨fun es hes => (h es (hK.shared es hes)).mp (hshared es hes),
      fun o ho es hes => (h es (hK.operations o ho es hes)).mp (hoperations o ho es hes)⟩
  · rintro ⟨hshared, hoperations⟩
    exact ⟨fun es hes => (h es (hK.shared es hes)).mpr (hshared es hes),
      fun o ho es hes => (h es (hK.operations o ho es hes)).mpr (hoperations o ho es hes)⟩

/-- The lists of parameters that a path item and its operations declare have a property. -/
structure DeclaredLists (env : Environment) (P : List EffectiveParameter → Prop) (p : Pointer)
    (item : PathItem) : Prop where
  shared : ∀ es, Gives (eachItem (p.child "parameters") (effective env) item.parameters) es → P es
  own : ∀ o ∈ item.operations, ∀ es,
    Gives (eachItem ((p.child o.1.name).child "parameters") (effective env) o.2.parameters) es →
      P es

theorem effectiveParameters_site {site : Site} {location : Pointer} {o : Operation} :
    effectiveParameters env site location o
      = effectiveParameters env
          { kind := .path, path := "", pointer := site.pointer, shared := site.shared }
          location o :=
  rfl

/-- The operations of a path item, in the order of methods. -/
theorem obeys_operationsOf (hp : Permits env P) (hk : env.resolver.root.UniqueKeys)
    {kind : RouteKind} {path : String} {p : Pointer} {item : PathItem} {os : List TypedOperation}
    (hitem : item.UniqueNames) (hfit : ParameterLists env (Fits P) p item)
    (h : Gives (operationsOf env kind path p item) os) :
    os.map (·.method.name) = item.operations.map (·.1.name) ∧
      ∀ t ∈ os, t.Obeys P := by
  have hsteps := h.of_mapM
  constructor
  · refine map_eq_of_forall₂ hsteps fun o t ht => ?_
    rw [ht.of_operation.2.2.2.1]
  · intro t ht
    obtain ⟨o, ho, hgives⟩ := exists_of_forall₂ hsteps ht
    refine obeys_operation hp hk (hitem.operations o ho) hitem.parameters (fun es hes => ?_) hgives
    rw [effectiveParameters_site] at hes
    exact hfit.operations o ho es hes

theorem obeys_sharedParameters (hp : Permits env P) (hk : env.resolver.root.UniqueKeys)
    {p : Pointer} {item : PathItem} {e : TypeExpr} (hitem : item.UniqueNames)
    (hfit : ParameterLists env (Fits P) p item)
    (h : Gives (sharedParameters env p item.parameters) e) :
    Obeys P e := by
  obtain ⟨es, hes, h⟩ := h.of_bind
  exact obeys_parameters hp (sound_eachItem hk hitem.parameters hes) (hfit.shared es hes) h

theorem obeys_pathRecord (hp : Permits env P) (hk : env.resolver.root.UniqueKeys) {p : Pointer}
    {item : PathItem} {os : List TypedOperation} {shown : TypedOperation → TypeExpr} {e : TypeExpr}
    (hitem : item.UniqueNames) (hfit : ParameterLists env (Fits P) p item)
    (hnames : os.map (·.method.name) = item.operations.map (·.1.name))
    (hshown : ∀ o ∈ os, Obeys P (shown o)) (h : Gives (pathRecord env p item os shown) e) :
    Obeys P e := by
  have hmethods := item.nodup_methods
  rw [← hnames] at hmethods
  have hmembers : List.Forall₂ (NamedMember P) (os.map (·.method.name))
      (os.map fun o => memberFor env (.name o.method.name) (shown o) o.doc) := by
    rw [List.forall₂_map_left_iff, List.forall₂_map_right_iff]
    exact List.forall₂_same.mpr fun o ho => ⟨rfl, hshown o ho⟩
  unfold pathRecord at h
  split at h
  · rw [h.of_pure]
    exact obeys_closed_of_named hp (hmethods.sublist (List.sublist_append_left _ _)) hmembers
  · obtain ⟨shared, hshared, h⟩ := h.of_bind
    rw [h.of_pure]
    refine obeys_closed_of_named hp hmethods (List.rel_append hmembers (.cons ⟨rfl, ?_⟩ .nil))
    exact obeys_sharedParameters hp hk hitem hfit hshared

end Typing

end ApiTypes
