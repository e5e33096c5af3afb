/-
# What typing a description records

Typing the parts of a description records the pointers that references lead to, and the types name
none but those.  The types of the parts need not depend on everything that was recorded for them:
a parameter that stands behind another one has no type, and an operation may be typed for several
entries and be registered for one.  `Typing.Tracks` says what is left: a run keeps what was
recorded, adds pointers that references lead to, and what it gives names pointers that are recorded
in the end.

* `Typing.Tracks env Q t`, with one lemma for each kind of step.
* `Typing.tracks_response`, `Typing.tracks_operation`, `Typing.tracks_pathRecord` and
  `Typing.tracks_components` are the parts of a description.
-/
import ApiTypes.Proofs.Typing.OperationParts
import ApiTypes.Proofs.Typing.Recording

namespace ApiTypes

/-- The pointers that the types of an operation name are in a set. -/
def TypedOperation.NamesWithin (S : Pointer → Prop) (o : TypedOperation) : Prop :=
  o.Obeys (TypeExpr.Holds S fun _ => True)

/-- A parameter that is picked from a collection is picked by a pointer in a set. -/
def EffectiveParameter.NamesWithin (S : Pointer → Prop) (e : EffectiveParameter) : Prop :=
  ∀ group key, e.group = some (group, key) → S (group.child key)

namespace Typing

open TypeExpr

variable {α β : Type} {env : Environment} {Q : (Pointer → Prop) → α → Prop}
  {R : (Pointer → Prop) → β → Prop} {t : Typing α}

/-! ## 1. Tracking -/

/-- **A run keeps what was recorded and adds pointers that references lead to**, and what it gives
has a property of every set that contains what is recorded in the end. -/
def Tracks (env : Environment) (Q : (Pointer → Prop) → α → Prop) (t : Typing α) : Prop :=
  ∀ refs a refs', ExceptT.run t refs = (.ok a, refs') →
    (∀ p ∈ refs, p ∈ refs') ∧ (∀ p ∈ refs', p ∈ refs ∨ env.Resolves p) ∧
      ∀ S, (∀ p ∈ refs', S p) → Q S a

theorem Tracks.mono {Q' : (Pointer → Prop) → α → Prop} (h : Tracks env Q t)
    (hQ : ∀ S a, Q S a → Q' S a) : Tracks env Q' t := fun refs a refs' hrun =>
  ⟨(h refs a refs' hrun).1, (h refs a refs' hrun).2.1,
    fun S hS => hQ S a ((h refs a refs' hrun).2.2 S hS)⟩

/-- What follows certain targets records where they lead. -/
theorem Follows.tracks {T : String → Prop} (h : Follows env T Q t) : Tracks env Q t := by
  intro refs a refs' hrun
  obtain ⟨_, hyields, hQ⟩ := h a ⟨refs, refs', hrun⟩
  obtain ⟨_, hrun', _, hmem⟩ := hyields refs
  rw [hrun] at hrun'
  cases hrun'
  refine ⟨fun p hp => (hmem p).mpr (Or.inl hp), fun p hp => ?_, fun S hS => ?_⟩
  · rcases (hmem p).mp hp with hp | ⟨target, _, hp⟩
    · exact Or.inl hp
    · exact Or.inr ⟨target, _, hp⟩
  · exact hQ S fun p hp => hS p ((hmem p).mpr (Or.inr hp))

theorem tracks_pure {a : α} (h : ∀ S, Q S a) : Tracks env Q (pure a) := (follows_pure h).tracks

/-- The second step may name what the first one has recorded. -/
theorem Tracks.bind {f : α → Typing β} (h : Tracks env Q t)
    (hf : ∀ a, Tracks env (fun S b => Q S a → R S b) (f a)) : Tracks env R (t >>= f) := by
  intro refs b refs' hrun
  obtain ⟨a, mid, ht, hfa⟩ := run_bind hrun
  obtain ⟨hkeep, hnew, hQ⟩ := h _ _ _ ht
  obtain ⟨hkeep', hnew', hR⟩ := hf a _ _ _ hfa
  refine ⟨fun p hp => hkeep' p (hkeep p hp), fun p hp => ?_, fun S hS => ?_⟩
  · rcases hnew' p hp with hp | hp
    · exact hnew p hp
    · exact Or.inr hp
  · exact hR S hS (hQ S fun p hp => hS p (hkeep' p hp))

/-- A last step that records nothing. -/
theorem Tracks.bind_pure {f : α → β} (h : Tracks env Q t) (hf : ∀ S a, Q S a → R S (f a)) :
    Tracks env R (t >>= fun a => pure (f a)) :=
  h.bind fun a => tracks_pure fun S => hf S a

theorem tracks_lift {r : Except Fault α} : Tracks env (fun _ a => r = .ok a) (lift r) := by
  cases r with
  | ok a => exact tracks_pure fun _ => rfl
  | error e =>
    intro refs a refs' hrun
    cases hrun

theorem Tracks.mapM {f : α → Typing β} :
    ∀ {as : List α}, (∀ a ∈ as, Tracks env R (f a)) →
      Tracks env (fun S bs => ∀ b ∈ bs, R S b) (as.mapM f)
  | [], _ => by
    rw [List.mapM_nil]
    exact tracks_pure fun _ b hb => absurd hb List.not_mem_nil
  | a :: as, h => by
    rw [List.mapM_cons]
    have hrest := Tracks.mapM fun a ha => h a (List.mem_cons_of_mem _ ha)
    exact (h a List.mem_cons_self).bind fun b => hrest.bind_pure fun S bs hbs hb =>
      List.forall_mem_cons.mpr ⟨hb, hbs⟩

theorem Tracks.eachItem {base : Pointer} {type : Pointer → α → Typing β} {items : List α}
    (h : ∀ p a, Tracks env R (type p a)) :
    Tracks env (fun S bs => ∀ b ∈ bs, R S b) (eachItem base type items) :=
  Tracks.mapM fun _ _ => h _ _

theorem Tracks.eachNamed {base : Pointer} {type : String → Pointer → α → Typing β}
    {entries : List (String × α)} (h : ∀ name p a, Tracks env R (type name p a)) :
    Tracks env (fun S bs => ∀ b ∈ bs, R S b) (eachNamed env base type entries) :=
  Tracks.mapM fun _ _ => h _ _ _

/-! ## 2. Payloads -/

section Names

variable {S : Pointer → Prop}

theorem namesWithin_member {name : String} {type : TypeExpr} {optional readonly : Bool}
    {doc : Option String} (h : type.NamesWithin S) :
    (Member.of name type optional readonly doc).NamesWithin S :=
  (memberObeys_name rfl).mpr h

theorem namesWithin_closed {ms : List (Member TypeExpr)} (h : ∀ m ∈ ms, m.NamesWithin S) :
    (closed ms).NamesWithin S :=
  obeys_closed.mpr ⟨trivial, h⟩

end Names

theorem tracks_reference {target : String} {location : Pointer} :
    Tracks env (fun S p => S p) (reference env target location) :=
  follows_reference.tracks

theorem tracks_schema {depth : Nat} {p : Pointer} (s : Schema) :
    Tracks env NamesWithin (schema env depth p s) :=
  (follows_schema s).tracks

theorem tracks_referenceMember {name target : String} {p : Pointer} {doc : Option String} :
    Tracks env Member.NamesWithin (referenceMember env name p target doc) :=
  tracks_reference.bind_pure fun _ _ hq => namesWithin_member (obeys_reference.mpr hq)

theorem tracks_mediaType {p : Pointer} (m : MediaType) :
    Tracks env NamesWithin (mediaType env p m) := by
  unfold mediaType
  split
  · exact tracks_schema _
  · exact tracks_pure fun _ => obeys_unknown holds_plain

theorem tracks_content {role : ContentRole} {p : Pointer} (c : Content) :
    Tracks env NamesWithin (content env role p c) := by
  unfold content
  split
  · exact tracks_pure fun _ => obeys_never holds_plain
  · split
    · exact tracks_pure fun _ => obeys_void holds_plain
    · exact (Tracks.mapM fun m _ => tracks_mediaType m.2).bind_pure fun _ _ hes =>
        obeys_unionOf holds_plain hes

theorem tracks_schemaOrContent {p : Pointer} {s : Option Schema} {c : Option Content}
    {byContent : Content → Typing TypeExpr} {otherwise : TypeExpr}
    (hc : ∀ c, Tracks env NamesWithin (byContent c)) (ho : ∀ S, otherwise.NamesWithin S) :
    Tracks env NamesWithin (schemaOrContent env p s c byContent otherwise) := by
  unfold schemaOrContent
  split
  · exact tracks_schema _
  · exact hc _
  · exact tracks_pure ho

theorem tracks_header {p : Pointer} (h : Header) : Tracks env NamesWithin (header env p h) := by
  refine tracks_schemaOrContent (fun c => ?_) fun _ => obeys_unknown holds_plain
  refine (Tracks.eachNamed fun name p m => ?_).bind_pure fun S ms hms => namesWithin_closed hms
  exact (tracks_mediaType m).bind_pure fun _ _ h => namesWithin_member h

theorem tracks_headerMember {name : String} {p : Pointer} (part : OrRef Header) :
    Tracks env Member.NamesWithin (headerMember env name p part) := by
  cases part with
  | ref r => exact tracks_referenceMember
  | item h => exact (tracks_header h).bind_pure fun _ _ h => namesWithin_member h

theorem tracks_response {p : Pointer} (r : Response) :
    Tracks env NamesWithin (response env p r) := by
  unfold response
  split
  · exact tracks_pure fun _ => obeys_never holds_plain
  · refine (tracks_content _).bind fun body => ?_
    split
    · exact tracks_pure fun _ h => h
    · refine (Tracks.eachNamed fun _ _ part => tracks_headerMember part).bind_pure ?_
      intro S ms hms hbody
      exact (obeys_withHeaders holds_plain).mpr ⟨hbody, namesWithin_closed hms⟩

/-! ## 3. Operations -/

theorem tracks_effective {p : Pointer} (part : OrRef Parameter) :
    Tracks env EffectiveParameter.NamesWithin (effective env p part) := by
  cases part with
  | item param => exact tracks_pure fun _ _ _ h => by cases h
  | ref r =>
    refine tracks_reference.bind fun target => tracks_lift.bind_pure ?_
    intro S _ _ htarget group key hgroup
    rw [child_of_parameterGroup hgroup]
    exact htarget

theorem tracks_effectiveParameters {site : Site} {location : Pointer} {o : Operation} :
    Tracks env (fun S es => ∀ e ∈ es, e.NamesWithin S)
      (effectiveParameters env site location o) := by
  refine (Tracks.eachItem fun _ => tracks_effective).bind fun own =>
    (Tracks.eachItem fun _ => tracks_effective).bind_pure fun S shared hshared hown => ?_
  exact List.forall_mem_append.mpr ⟨hown, fun e he => hshared e (List.mem_of_mem_filter he)⟩

theorem tracks_parameter {p : Pointer} (param : Parameter) :
    Tracks env NamesWithin (parameter env p param) :=
  tracks_schemaOrContent (fun c => tracks_content c) fun _ => obeys_primitive holds_plain

/-- What is picked from collections is what the parameters were declared by. -/
theorem tracks_parameters {es : List EffectiveParameter} :
    Tracks env (fun S e => (∀ e ∈ es, e.NamesWithin S) → e.NamesWithin S)
      (parameters env es) := by
  unfold parameters
  refine (Tracks.mapM (R := Member.NamesWithin) fun e _ => ?_).bind fun ms => ?_
  · exact (tracks_parameter e.parameter).bind_pure fun _ _ h => namesWithin_member h
  · simp only
    split
    · exact tracks_pure fun _ _ _ => obeys_void holds_plain
    · refine tracks_pure fun S hms hes => obeys_intersectionOf holds_plain fun x hx => ?_
      rcases List.mem_append.mp hx with hx | hx
      · split at hx
        · cases hx
        · rw [List.mem_singleton.mp hx]
          exact namesWithin_closed hms
      · obtain ⟨⟨group, keys⟩, hpick, rfl⟩ := List.mem_map.mp hx
        refine obeys_pick.mpr fun key hkey => ?_
        rcases mem_of_mem_picks _ _ hpick hkey with hmem | ⟨_, hmem, _⟩
        · obtain ⟨e, he, hgroup⟩ := List.mem_filterMap.mp hmem
          exact hes e he group key hgroup
        · cases hmem

theorem tracks_sharedParameters {p : Pointer} {shared : List (OrRef Parameter)} :
    Tracks env NamesWithin (sharedParameters env p shared) :=
  (Tracks.eachItem fun _ => tracks_effective).bind fun _ => tracks_parameters.mono fun _ _ h => h

theorem tracks_bodyMember {p : Pointer} (body : Option (OrRef RequestBody)) :
    Tracks env Member.NamesWithin (bodyMember env p body) := by
  unfold bodyMember
  split
  · exact tracks_pure fun _ => namesWithin_member (obeys_void holds_plain)
  · refine tracks_reference.bind fun target => tracks_lift.bind_pure ?_
    exact fun S _ _ htarget => namesWithin_member (obeys_reference.mpr htarget)
  · exact (tracks_content _).bind_pure fun _ _ h => namesWithin_member h

theorem tracks_responseMember {code : String} {p : Pointer} (part : OrRef Response) :
    Tracks env Member.NamesWithin (responseMember env code p part) := by
  cases part with
  | ref r => exact tracks_referenceMember
  | item r => exact (tracks_response r).bind_pure fun _ _ h => namesWithin_member h

/-- **The types of an operation name what was recorded for it.** -/
theorem tracks_operation {site : Site} {method : Method} {o : Operation} :
    Tracks env TypedOperation.NamesWithin (operation env site method o) := by
  unfold operation
  refine tracks_effectiveParameters.bind fun es => ?_
  have hpath : ∀ e ∈ es.filter (·.parameter.place = .path), Tracks env
      (fun S (q : String × TypeExpr) => q.2.NamesWithin S)
      (do return (e.parameter.name, ← parameter env e.pointer e.parameter)) :=
    fun e _ => (tracks_parameter e.parameter).bind_pure fun _ _ h => h
  refine (Tracks.mapM hpath).bind fun pathParams => tracks_parameters.bind fun params =>
    (tracks_bodyMember o.requestBody).bind fun body =>
    (Tracks.eachNamed fun _ _ => tracks_responseMember).bind_pure ?_
  intro S responses hresponses hbody hparams hpath hes
  have hsome : ∀ keep, (closed (responses.filter keep)).NamesWithin S := fun keep =>
    namesWithin_closed fun m hm => hresponses m (List.mem_of_mem_filter hm)
  refine ⟨namesWithin_closed ?_, hpath⟩
  simp only [List.forall_mem_cons]
  exact ⟨namesWithin_member (hparams hes), hbody, namesWithin_member (hsome _),
    namesWithin_member (hsome _), List.forall_mem_nil _⟩

/-! ## 4. Path items -/

theorem tracks_operationsOf {kind : RouteKind} {path : String} {p : Pointer} {item : PathItem} :
    Tracks env (fun S os => ∀ o ∈ os, o.NamesWithin S) (operationsOf env kind path p item) :=
  Tracks.mapM fun _ _ => tracks_operation

/-- The record of a path item names what is shown for its operations, and its parameters. -/
theorem tracks_pathRecord {p : Pointer} {item : PathItem} {os : List TypedOperation}
    {shown : TypedOperation → TypeExpr} :
    Tracks env (fun S e => (∀ o ∈ os, (shown o).NamesWithin S) → e.NamesWithin S)
      (pathRecord env p item os shown) := by
  have hmembers : ∀ S, (∀ o ∈ os, (shown o).NamesWithin S) →
      ∀ m ∈ os.map fun o => memberFor env (.name o.method.name) (shown o) o.doc,
        m.NamesWithin S :=
    fun S h => List.forall_mem_map.mpr fun o ho => (memberObeys_name rfl).mpr (h o ho)
  unfold pathRecord
  simp only
  split
  · exact tracks_pure fun S h => namesWithin_closed (hmembers S h)
  · refine tracks_sharedParameters.bind_pure fun S shared hshared h => namesWithin_closed ?_
    refine List.forall_mem_append.mpr ⟨hmembers S h, List.forall_mem_singleton.mpr ?_⟩
    exact (memberObeys_name rfl).mpr hshared

/-! ## 5. Components -/

theorem tracks_collection {name : String} {type : String → Pointer → α → Typing (Member TypeExpr)}
    {entries : Option (List (String × α))}
    (h : ∀ name p a, Tracks env Member.NamesWithin (type name p a)) :
    Tracks env Member.NamesWithin (collection env name type entries) := by
  unfold collection
  split
  · exact tracks_pure fun _ => (memberObeys_name rfl).mpr (obeys_never holds_plain)
  · exact (Tracks.eachNamed h).bind_pure fun S ms hms =>
      (memberObeys_name rfl).mpr (namesWithin_closed hms)

theorem tracks_componentOrRef {type : String → Pointer → α → Typing (Member TypeExpr)}
    (h : ∀ name p a, Tracks env Member.NamesWithin (type name p a)) (name : String) (p : Pointer)
    (part : OrRef α) : Tracks env Member.NamesWithin (componentOrRef env type name p part) := by
  cases part with
  | ref r => exact tracks_referenceMember
  | item a => exact h name p a

theorem tracks_pathItemComponent {name : String} {p : Pointer} {item : PathItem} :
    Tracks env Member.NamesWithin (pathItemComponent env name p item) :=
  tracks_operationsOf.bind fun _ => tracks_pathRecord.bind_pure fun _ _ h hos =>
    (memberObeys_name rfl).mpr (h fun o ho => (hos o ho).1)

/-- **The types of the components name what was recorded for them.** -/
theorem tracks_components {c : Components} : Tracks env NamesWithin (components env c) := by
  refine (tracks_collection fun _ _ s => ?_).bind fun _ =>
    (tracks_collection (tracks_componentOrRef fun _ _ r => ?_)).bind fun _ =>
    (tracks_collection (tracks_componentOrRef fun _ _ param => ?_)).bind fun _ =>
    (tracks_collection (tracks_componentOrRef fun _ _ b => ?_)).bind fun _ =>
    (tracks_collection (tracks_componentOrRef fun _ _ h => ?_)).bind fun _ =>
    (tracks_collection (tracks_componentOrRef fun _ _ item => ?_)).bind_pure
      fun S m6 h6 h5 h4 h3 h2 h1 => namesWithin_closed ?_
  · exact (tracks_schema s).bind_pure fun _ _ h => namesWithin_member h
  · exact (tracks_response r).bind_pure fun _ _ h => (memberObeys_name rfl).mpr h
  · exact (tracks_parameter param).bind_pure fun _ _ h => (memberObeys_name rfl).mpr h
  · exact (tracks_content b.content).bind_pure fun _ _ h => namesWithin_member h
  · exact (tracks_header h).bind_pure fun _ _ h => (memberObeys_name rfl).mpr h
  · exact tracks_pathItemComponent
  · simp only [List.forall_mem_cons]
    exact ⟨h1, h2, h3, h4, h5, h6, List.forall_mem_nil _⟩

end Typing

end ApiTypes
