/-
# Parameters that are picked from the components

A parameter that is declared by reference to the components stands in no record of its operation:
it is picked from the record of the parameters among the components.  There every parameter has a
member, and no such member is optional, whatever the parameter says of itself.  A parameter that is
declared on the spot has an optional member if it may be left out.  So the two forms of a parameter
agree just if it must be sent.

* `Typing.exists_pick`: a parameter in effect that was declared so is picked in the type of its
  operation.
* `Typing.exists_parameterMembers`: the record from which it is picked.
* `Document.optional_of_picked` is the statement.
* `exists_picked_misflagged`: a parameter that may be left out and is not optional.
-/
import ApiTypes.Proofs.Document.Declared
import ApiTypes.Proofs.Typing.OperationOrder
import ApiTypes.Proofs.Typing.Requiredness

namespace ApiTypes

open TypeExpr

namespace Typing

variable {env : Environment} {group : Pointer} {key : String}

/-! ## 1. What is picked -/

/-- What occurs in the type of a member occurs in the record. -/
theorem mem_parts_closed {ms : List (Member TypeExpr)} {m : Member TypeExpr} {x : TypeExpr}
    (hm : m ∈ ms) (hx : x ∈ m.type.parts) : x ∈ (closed ms).parts := by
  obtain ⟨key, type, _, _, _⟩ := m
  refine List.mem_cons_of_mem _ (mem_recordParts.mpr (Or.inl ⟨_, hm, ?_⟩))
  exact List.mem_append_right _ hx

/-- A name stays picked when another one is. -/
theorem exists_mem_addPick_of_mem (pick : Pointer × String) {keys : List String} :
    ∀ {groups : List (Pointer × List String)}, (group, keys) ∈ groups → key ∈ keys →
      ∃ keys, (group, keys) ∈ addPick groups pick ∧ key ∈ keys
  | (g, ks) :: rest, hg, hkey => by
    rw [addPick]
    rcases List.mem_cons.mp hg with hg | hg
    · cases hg
      split
      · refine ⟨_, List.mem_cons_self, ?_⟩
        split
        · exact hkey
        · exact List.mem_append_left _ hkey
      · exact ⟨_, List.mem_cons_self, hkey⟩
    · split
      · exact ⟨keys, List.mem_cons_of_mem _ hg, hkey⟩
      · obtain ⟨ks', hmem, hkey⟩ := exists_mem_addPick_of_mem pick hg hkey
        exact ⟨ks', List.mem_cons_of_mem _ hmem, hkey⟩

/-- What was to be picked is picked. -/
theorem exists_mem_addPick : ∀ groups : List (Pointer × List String),
    ∃ keys, (group, keys) ∈ addPick groups (group, key) ∧ key ∈ keys
  | [] => ⟨_, List.mem_singleton_self _, List.mem_singleton_self _⟩
  | (g, ks) :: rest => by
    rw [addPick]
    split
    · rename_i heq
      rw [heq]
      refine ⟨_, List.mem_cons_self, ?_⟩
      split
      · rename_i hcontains
        exact List.contains_iff_mem.mp hcontains
      · exact List.mem_append_right _ (List.mem_singleton_self _)
    · obtain ⟨keys, hmem, hkey⟩ := exists_mem_addPick rest
      exact ⟨keys, List.mem_cons_of_mem _ hmem, hkey⟩

theorem exists_mem_picks : ∀ (picks : List (Pointer × String))
    (groups : List (Pointer × List String)),
    ((group, key) ∈ picks ∨ ∃ keys, (group, keys) ∈ groups ∧ key ∈ keys) →
      ∃ keys, (group, keys) ∈ picks.foldl addPick groups ∧ key ∈ keys
  | [], _, h => h.resolve_left List.not_mem_nil
  | _ :: rest, groups, h => by
    refine exists_mem_picks rest _ ?_
    rcases h with h | ⟨keys, hmem, hkey⟩
    · rcases List.mem_cons.mp h with rfl | h
      · exact Or.inr (exists_mem_addPick groups)
      · exact Or.inl h
    · exact Or.inr (exists_mem_addPick_of_mem _ hmem hkey)

/-- A parameter that was declared by reference to a collection is picked from it. -/
theorem exists_pick {es : List EffectiveParameter} {e : EffectiveParameter} {type : TypeExpr}
    (h : Gives (parameters env es) type) (he : e ∈ es) (hgroup : e.group = some (group, key)) :
    ∃ keys, .pick group keys ∈ type.parts ∧ key ∈ keys := by
  unfold parameters at h
  obtain ⟨ms, _, h⟩ := h.of_bind
  have hpicks : (group, key) ∈ es.filterMap (·.group) := List.mem_filterMap.mpr ⟨e, he, hgroup⟩
  obtain ⟨keys, hkeys, hkey⟩ := exists_mem_picks _ [] (Or.inl hpicks)
  have hsome : (es.filterMap (·.group)).foldl addPick [] ≠ [] := List.ne_nil_of_mem hkeys
  simp only at h
  rw [if_neg (by simp [hsome])] at h
  refine ⟨keys, ?_, hkey⟩
  rw [h.of_pure]
  -- nothing that is put into an intersection is left out of it
  by_contra hnot
  have hobeys := of_obeys_intersectionOf (P := (· ≠ .pick group keys))
    (fun e hplain heq => by rw [heq] at hplain; exact hplain) (fun x hx heq => hnot (heq ▸ hx))
  refine obeys_self (hobeys (.pick group keys) (List.mem_append_right _ ?_)) rfl
  exact List.mem_map.mpr ⟨(group, keys), hkeys, rfl⟩

/-- The reference by which a parameter in effect was declared leads to its name in a collection. -/
theorem resolves_of_group {p : Pointer} {part : OrRef Parameter} {e : EffectiveParameter}
    (h : Gives (effective env p part) e) (hgroup : e.group = some (group, key)) :
    env.Resolves (group.child key) := by
  cases part with
  | item param =>
    rw [h.of_pure] at hgroup
    cases hgroup
  | ref r =>
    obtain ⟨target, htarget, h⟩ := h.of_bind
    obtain ⟨_, _, h⟩ := h.of_bind
    rw [h.of_pure] at hgroup
    rw [child_of_parameterGroup hgroup]
    exact ⟨_, _, htarget.of_reference⟩

theorem resolves_of_effectiveParameters {site : Site} {location : Pointer} {o : Operation}
    {es : List EffectiveParameter} {e : EffectiveParameter}
    (h : Gives (effectiveParameters env site location o) es) (he : e ∈ es)
    (hgroup : e.group = some (group, key)) : env.Resolves (group.child key) := by
  obtain ⟨own, hown, h⟩ := h.of_bind
  obtain ⟨shared, hshared, h⟩ := h.of_bind
  rw [h.of_pure] at he
  rcases List.mem_append.mp he with he | he
  · obtain ⟨_, _, _, hgives⟩ := exists_of_forall₂ hown.of_eachItem he
    exact resolves_of_group hgives hgroup
  · obtain ⟨_, _, _, hgives⟩ :=
      exists_of_forall₂ hshared.of_eachItem (List.mem_of_mem_filter he)
    exact resolves_of_group hgives hgroup

/-! ## 2. The parameters among the components -/

/-- No parameter among the components has an optional member. -/
theorem optional_parameterComponent {name : String} {p : Pointer} {part : OrRef Parameter}
    {m : Member TypeExpr} (h : Gives (componentOrRef env (parameterComponent env) name p part) m) :
    m.key = .name name ∧ m.optional = false := by
  cases part with
  | ref r =>
    obtain ⟨_, _, h⟩ := h.of_bind
    rw [h.of_pure]
    exact ⟨rfl, rfl⟩
  | item param =>
    obtain ⟨_, _, h⟩ := h.of_bind
    rw [h.of_pure]
    exact ⟨rfl, rfl⟩

theorem key_of_collection {α : Type} {name : String}
    {type : String → Pointer → α → Typing (Member TypeExpr)}
    {entries : Option (List (String × α))} {m : Member TypeExpr}
    (h : Gives (collection env name type entries) m) : m.key = .name name := by
  cases entries with
  | none =>
    rw [h.of_pure]
    rfl
  | some entries =>
    obtain ⟨_, _, h⟩ := h.of_bind
    rw [h.of_pure]
    rfl

/-- The record of the parameters among the components. -/
theorem exists_parameterMembers {c : Components} {e : TypeExpr}
    {entries : List (String × OrRef Parameter)} (h : Gives (components env c) e)
    (hentries : c.parameters = some entries) :
    ∃ ms, e.reached ["parameters"] = [.closed ms] ∧
      List.Forall₂ (fun entry m => m.key = .name entry.1 ∧ m.optional = false)
        (ordered env.config.alphabetize entries) ms := by
  obtain ⟨m1, h1, h⟩ := h.of_bind
  obtain ⟨m2, h2, h⟩ := h.of_bind
  obtain ⟨m3, h3, h⟩ := h.of_bind
  obtain ⟨m4, h4, h⟩ := h.of_bind
  obtain ⟨m5, h5, h⟩ := h.of_bind
  obtain ⟨m6, h6, h⟩ := h.of_bind
  have hreached : e.reached ["parameters"] = [m3.type] := by
    rw [h.of_pure]
    simp [TypeExpr.reached, TypeExpr.members, TypeExpr.closed, Member.name?,
      key_of_collection h1, key_of_collection h2, key_of_collection h3, key_of_collection h4,
      key_of_collection h5, key_of_collection h6]
  rw [hentries] at h3
  obtain ⟨ms, hms, h3⟩ := h3.of_bind
  rw [h3.of_pure] at hreached
  exact ⟨ms, hreached, hms.of_eachNamed.imp fun _ _ => optional_parameterComponent⟩

/-- Of members that stand under different names there is one of each name. -/
theorem exists_filter_name {α : Type} {R : String × α → Member TypeExpr → Prop} {name : String}
    {entries : List (String × α)} {ms : List (Member TypeExpr)} (h : List.Forall₂ R entries ms)
    (hkey : ∀ entry m, R entry m → m.key = .name entry.1) (hn : (entries.map Prod.fst).Nodup)
    (hname : name ∈ entries.map Prod.fst) :
    ∃ entry m, R entry m ∧ ms.filter (·.name? = some name) = [m] := by
  induction h with
  | nil => cases hname
  | @cons entry m entries ms hm hrest ih =>
    obtain ⟨hnot, hn⟩ := List.nodup_cons.mp hn
    have hnamed : m.name? = some entry.1 := by rw [Member.name?, hkey _ _ hm]
    rcases List.mem_cons.mp hname with rfl | hname
    · refine ⟨entry, m, hm, ?_⟩
      rw [List.filter_cons_of_pos (by simpa using hnamed), List.filter_eq_nil_iff.mpr]
      intro other hother
      obtain ⟨entry', hentry', hm'⟩ := exists_of_forall₂ hrest hother
      rw [decide_eq_true_eq, Member.name?, hkey _ _ hm', Option.some.injEq]
      exact fun heq => hnot (List.mem_map.mpr ⟨entry', hentry', heq⟩)
    · have hne : entry.1 ≠ name := fun heq => hnot (heq ▸ hname)
      rw [List.filter_cons_of_neg (by simpa [hnamed] using hne)]
      exact ih hn hname

end Typing

open Typing

/-! ## 3. Documents -/

/-- The pointer of the parameters among the components. -/
def parametersPointer : Pointer := ⟨["components", "parameters"]⟩

namespace TypedDocument

/-- The members under a name in the record that a pointer leads to. -/
def membersAt (t : TypedDocument) (p : Pointer) (name : String) : List (Member TypeExpr) :=
  ((t.reached p).flatMap TypeExpr.members).filter (·.name? = some name)

end TypedDocument

/-- A parameter that stands in the document has one member among the components, which is not
optional. -/
theorem Document.Made.membersAt_parameter {d : Document} {config : Config} {t : TypedDocument}
    {paths webhooks : List (Member TypeExpr × List TypedOperation)}
    (hmade : d.Made config t paths webhooks) (h : d.Loaded) {key : String} {v : Json}
    (hv : (parametersPointer.child key).find? d.raw = some v) :
    ∃ m, t.membersAt parametersPointer key = [m] ∧ m.optional = false := by
  have hcollection : ("parameters", (d.spec.components.getD {}).parameters.map (·.map Prod.fst)) ∈
      (d.spec.components.getD {}).collections := by
    simp [Components.collections]
  obtain ⟨names, hnames, hkey⟩ := h.component_of_find hcollection hv
  obtain ⟨entries, hentries, rfl⟩ := Option.map_eq_some_iff.mp hnames
  obtain ⟨ms, hreached, hms⟩ := exists_parameterMembers hmade.components hentries
  have hn : (entries.map Prod.fst).Nodup :=
    h.uniqueNames.components.collections _ hcollection _ hnames
  obtain ⟨_, m, hm, hfilter⟩ := exists_filter_name hms (fun _ _ hm => hm.1) (nodup_ordered hn)
    (((ordered_perm _ _).map Prod.fst).mem_iff.mpr hkey)
  refine ⟨m, ?_, hm.2⟩
  have hmembers : t.reached parametersPointer = t.components.reached ["parameters"] := by
    simp [TypedDocument.reached, TypedDocument.sections, TypeExpr.reached, TypeExpr.members,
      TypeExpr.closed, Member.name?, Member.of, parametersPointer]
  rw [TypedDocument.membersAt, hmembers, hreached]
  simpa [TypeExpr.closed, TypeExpr.members] using hfilter

/-- **A parameter that is picked from the components is not optional there.**  If an operation, or
the path that it belongs to, declares a parameter by reference to the components, the parameter is
picked in the type of the operation, and the one member from which it is picked is not optional.
So it is flagged like the parameter would be on the spot just if the parameter must be sent. -/
theorem Document.optional_of_picked {d : Document} {config : Config} {t : TypedDocument}
    (h : d.Loaded) (ht : d.typed config = .ok t) {site : Site} {method : Method} {o : Operation}
    {s : TypedOperation} {es : List EffectiveParameter} {e : EffectiveParameter} {key : String}
    (hs : Gives (operation ⟨config, d.resolver⟩ site method o) s)
    (hes : Gives (effectiveParameters ⟨config, d.resolver⟩ site
      (site.pointer.child method.name) o) es)
    (he : e ∈ es) (hgroup : e.group = some (parametersPointer, key)) :
    (∃ keys, .pick parametersPointer keys ∈ s.type.parts ∧ key ∈ keys) ∧
      ∃ m, t.membersAt parametersPointer key = [m] ∧ m.optional = false ∧
        ∀ onTheSpot, Gives (parameterMember ⟨config, d.resolver⟩ e) onTheSpot →
          (onTheSpot.optional = true ↔
            e.parameter.place ≠ .path ∧ e.parameter.required = false) ∧
          (m.optional = onTheSpot.optional ↔
            e.parameter.place = .path ∨ e.parameter.required = true) := by
  constructor
  · obtain ⟨es', hes', hs⟩ := hs.of_bind
    obtain ⟨_, _, hs⟩ := hs.of_bind
    obtain ⟨params, hparams, hs⟩ := hs.of_bind
    obtain ⟨body, _, hs⟩ := hs.of_bind
    obtain ⟨responses, _, hs⟩ := hs.of_bind
    obtain rfl : es = es' := (agree_effectiveParameters (b := true)).left.gives hes hes'
    obtain ⟨keys, hpick, hkey⟩ := exists_pick hparams he hgroup
    rw [hs.of_pure]
    exact ⟨keys, mem_parts_closed List.mem_cons_self hpick, hkey⟩
  · obtain ⟨paths, webhooks, hmade⟩ := Document.of_typed ht
    obtain ⟨_, _, hcanonical⟩ := resolves_of_effectiveParameters hes he hgroup
    obtain ⟨v, hv⟩ := Resolver.find_of_canonical hcanonical
    obtain ⟨m, hm, hoptional⟩ := hmade.membersAt_parameter h hv
    refine ⟨m, hm, hoptional, fun onTheSpot hgives => ?_⟩
    obtain ⟨_, _, hgives⟩ := hgives.of_bind
    rw [hgives.of_pure, hoptional]
    simp [Member.of, or_iff_not_imp_left]

/-! ## 4. A parameter that is picked and may be left out -/

/-- A value with a parameter among the components and an operation that declares it. -/
def limitRaw : Json := .object [("openapi", .string "3.1.0"),
  ("paths", .object [("/pets", .object [("get", .object [("operationId", .string "list"),
    ("parameters", .array [.object [("$ref", .string "#/components/parameters/Limit")]])])])]),
  ("components", .object [("parameters", .object [("Limit", .object [("name", .string "limit"),
    ("in", .string "query"), ("schema", .object [("type", .string "integer")])])])])]

/-- The parameter. -/
def limitParameter : Parameter where
  name := "limit"
  place := .query
  schema := some (.scalar [.integer] {})

/-- The operation. -/
def limitOperation : Operation where
  operationId := some "list"
  parameters := [.ref { target := "#/components/parameters/Limit" }]

/-- The document that the value spells. -/
def limitDocument : Document where
  raw := limitRaw
  spec := {
    openapi := "3.1.0"
    paths := some [("/pets", { get := some limitOperation })]
    components := some { parameters := some [("Limit", .item limitParameter)] } }

/-- Where the operation stands. -/
def limitSite : Site where
  kind := .path
  path := "/pets"
  pointer := ⟨["paths", "/pets"]⟩

theorem loaded_limitDocument : limitDocument.Loaded :=
  ⟨limitRaw, Json.uniqueKeys_of_distinct (by cbv), by cbv⟩

theorem exists_typed_limitDocument : ∃ t, limitDocument.typed {} = .ok t := by
  have hok : (limitDocument.typed {}).toOption.any (fun _ => true) = true := by decide +kernel
  obtain ⟨t, ht, _⟩ := exists_of_any hok
  exact ⟨t, ht⟩

/-- The operation has the parameter, which may be left out, and is typed. -/
theorem exists_limitEffective : ∃ s es e,
    Gives (operation ⟨{}, limitDocument.resolver⟩ limitSite .get limitOperation) s ∧
    Gives (effectiveParameters ⟨{}, limitDocument.resolver⟩ limitSite
      (limitSite.pointer.child Method.get.name) limitOperation) es ∧
    e ∈ es ∧ e.group = some (parametersPointer, "Limit") ∧
    e.parameter.place ≠ .path ∧ e.parameter.required = false := by
  obtain ⟨s, hs, _⟩ := exists_gives_of_any (p := fun _ => true)
    (t := operation ⟨{}, limitDocument.resolver⟩ limitSite .get limitOperation)
    (by decide +kernel)
  obtain ⟨es, hes, hany⟩ := exists_gives_of_any
    (p := fun es => es.any fun e => e.group = some (parametersPointer, "Limit") &&
      e.parameter.place ≠ .path && e.parameter.required = false)
    (t := effectiveParameters ⟨{}, limitDocument.resolver⟩ limitSite
      (limitSite.pointer.child Method.get.name) limitOperation)
    (by decide +kernel)
  obtain ⟨e, he, hcheck⟩ := List.any_eq_true.mp hany
  simp only [Bool.and_eq_true, decide_eq_true_eq] at hcheck
  exact ⟨s, es, e, hs, hes, he, hcheck.1.1, hcheck.1.2, hcheck.2⟩

/-- The parameter is picked from a member that is not optional. -/
theorem optional_limitParameter : ∃ t s, limitDocument.typed {} = .ok t ∧
    Gives (operation ⟨{}, limitDocument.resolver⟩ limitSite .get limitOperation) s ∧
    (∃ keys, .pick parametersPointer keys ∈ s.type.parts ∧ "Limit" ∈ keys) ∧
    ∃ m, t.membersAt parametersPointer "Limit" = [m] ∧ m.optional = false := by
  obtain ⟨t, ht⟩ := exists_typed_limitDocument
  obtain ⟨s, es, e, hs, hes, he, hgroup, _⟩ := exists_limitEffective
  obtain ⟨hpick, m, hm, hoptional, _⟩ :=
    Document.optional_of_picked loaded_limitDocument ht hs hes he hgroup
  exact ⟨t, s, ht, hs, hpick, m, hm, hoptional⟩

/-- A parameter that is picked and may be left out is not optional. -/
theorem exists_picked_misflagged : ¬ ∀ (d : Document) (config : Config) (t : TypedDocument)
    (site : Site) (method : Method) (o : Operation) (s : TypedOperation)
    (es : List EffectiveParameter) (e : EffectiveParameter) (key : String),
    d.Loaded → d.typed config = .ok t →
      Gives (operation ⟨config, d.resolver⟩ site method o) s →
      Gives (effectiveParameters ⟨config, d.resolver⟩ site
        (site.pointer.child method.name) o) es →
      e ∈ es → e.group = some (parametersPointer, key) →
      ∃ m, t.membersAt parametersPointer key = [m] ∧
        (m.optional = true ↔ e.parameter.place ≠ .path ∧ e.parameter.required = false) := by
  intro hall
  obtain ⟨t, ht⟩ := exists_typed_limitDocument
  obtain ⟨s, es, e, hs, hes, he, hgroup, hflags⟩ := exists_limitEffective
  obtain ⟨m, hm, hoptional⟩ := hall _ _ t _ _ _ s es e _ loaded_limitDocument ht hs hes he hgroup
  obtain ⟨_, _, hmade⟩ := Document.of_typed ht
  obtain ⟨v, hv⟩ : ∃ v, (parametersPointer.child "Limit").find? limitRaw = some v := ⟨_, rfl⟩
  obtain ⟨m', hm', hfalse⟩ := hmade.membersAt_parameter loaded_limitDocument hv
  rw [hm] at hm'
  cases hm'
  rw [hoptional.mpr hflags] at hfalse
  cases hfalse

end ApiTypes
