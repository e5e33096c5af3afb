/-
# The names of parameters

A parameter is known by its name and its place in a request, and no list of parameters has one
twice.  The record of the parameters does not keep the places: what is declared on the spot stands
in it under the name alone.  So its members have names of their own just if no two parameters in
it share a name in different places.

* `Typing.NamedApart` is that condition, and `Typing.nodup_inlineNames_iff` says what it is for.
* `Typing.knownApart_effective`: the parameters in effect are known apart if both lists that they
  come from are.
* `Typing.nodup_of_parameters`, `Typing.nodup_of_operation` and `Typing.nodup_of_pathRecord` find
  the record in the types that are made of it.
-/
import ApiTypes.Proofs.Typing.OperationOrder
import ApiTypes.Proofs.Typing.OperationParts
import Mathlib.Data.List.Nodup

namespace ApiTypes

open TypeExpr

/-- What a parameter is known by. -/
def EffectiveParameter.key (e : EffectiveParameter) : String × Place :=
  (e.parameter.name, e.parameter.place)

/-- A record whose members have names of their own. -/
def Record.Distinct (r : Record TypeExpr) : Prop := r.names.Nodup

namespace Typing

variable {env : Environment} {es own shared : List EffectiveParameter}

/-! ## 1. Lists of parameters -/

/-- No two parameters of a list have one name in one place. -/
def KnownApart (es : List EffectiveParameter) : Prop := (es.map EffectiveParameter.key).Nodup

/-- Parameters in the record that have one name are in one place. -/
def NamedApart (es : List EffectiveParameter) : Prop :=
  ∀ a ∈ es, ∀ b ∈ es, a.group = none → b.group = none →
    a.parameter.name = b.parameter.name → a.parameter.place = b.parameter.place

theorem sameParameter_iff {a b : EffectiveParameter} :
    sameParameter a b = true ↔ a.key = b.key := by
  simp [sameParameter, EffectiveParameter.key]

/-- **The names in the record are distinct just if names are not used in different places.** -/
theorem nodup_inlineNames_iff (h : KnownApart es) :
    (inlineNames es).Nodup ↔ NamedApart es := by
  have hinline : ∀ {e}, e ∈ es.filter (·.group.isNone) ↔ e ∈ es ∧ e.group = none := by
    simp [List.mem_filter]
  have hkeys : ((es.filter (·.group.isNone)).map EffectiveParameter.key).Nodup :=
    h.sublist (List.filter_sublist.map _)
  constructor
  · intro hn a ha b hb hga hgb hname
    rw [List.inj_on_of_nodup_map hn (hinline.mpr ⟨ha, hga⟩) (hinline.mpr ⟨hb, hgb⟩) hname]
  · intro hplace
    refine List.Nodup.map_on (fun a ha b hb hname => ?_) (List.Nodup.of_map _ hkeys)
    refine List.inj_on_of_nodup_map hkeys ha hb (Prod.ext hname ?_)
    obtain ⟨ha, hga⟩ := hinline.mp ha
    obtain ⟨hb, hgb⟩ := hinline.mp hb
    exact hplace a ha b hb hga hgb hname

/-- What an operation declares itself takes the place of what it shares. -/
theorem knownApart_effective (hown : KnownApart own) (hshared : KnownApart shared) :
    KnownApart (own ++ shared.filter fun e => !own.any (sameParameter e)) := by
  rw [KnownApart, List.map_append]
  refine List.Nodup.append hown (hshared.sublist (List.filter_sublist.map _)) ?_
  intro key hkey hkey'
  obtain ⟨a, ha, rfl⟩ := List.mem_map.mp hkey
  obtain ⟨b, hb, heq⟩ := List.mem_map.mp hkey'
  have hnone := (List.mem_filter.mp hb).2
  rw [Bool.not_eq_true', List.any_eq_false] at hnone
  exact hnone a ha (sameParameter_iff.mpr heq)

/-- Parameters that are known apart where they are declared are so where they are in effect. -/
theorem DeclaredLists.parameterLists {p : Pointer} {item : PathItem}
    (h : DeclaredLists env KnownApart p item) : ParameterLists env KnownApart p item := by
  refine ⟨h.shared, fun o ho es hes => ?_⟩
  obtain ⟨own, hown, hes⟩ := hes.of_bind
  obtain ⟨shared, hshared, hes⟩ := hes.of_bind
  rw [hes.of_pure]
  exact knownApart_effective (h.own o ho own hown) (h.shared shared hshared)

/-- A record of members under the names of parameters has names of its own just if the parameters
have. -/
theorem fits_distinct_iff {Q : Pointer → Prop} :
    Fits (Holds Q Record.Distinct) es ↔ (inlineNames es).Nodup := by
  constructor
  · intro h
    have hnames : ((inlineNames es).map fun name => Member.of name .void).filterMap Member.name?
        = inlineNames es := by
      rw [List.filterMap_map]
      exact List.filterMap_some
    have hdistinct : Record.Distinct _ := h _ hnames
    rw [Record.Distinct, Record.names, hnames] at hdistinct
    exact hdistinct
  · intro h ms hms
    rw [Holds, Record.Distinct, Record.names, hms]
    exact h

/-! ## 2. The record in a type -/

variable {Q : Pointer → Prop}

theorem names_of_parameterMembers {ms : List (Member TypeExpr)}
    (h : Gives ((es.filter (·.group.isNone)).mapM (parameterMember env)) ms) :
    ms.filterMap Member.name? = inlineNames es := by
  refine names_of_keys h.of_mapM fun e m hm => ?_
  obtain ⟨type, _, hm⟩ := hm.of_bind
  rw [hm.of_pure]
  rfl

/-- **The record of the parameters occurs in their type.** -/
theorem nodup_of_parameters {e : TypeExpr} (h : Gives (parameters env es) e)
    (he : Obeys (Holds Q Record.Distinct) e) : (inlineNames es).Nodup := by
  unfold parameters at h
  obtain ⟨ms, hms, h⟩ := h.of_bind
  rw [← names_of_parameterMembers hms]
  by_cases hempty : ms.isEmpty = true
  · rw [List.isEmpty_iff.mp hempty]
    exact List.nodup_nil
  · rw [Bool.not_eq_true] at hempty
    simp only [hempty, Bool.false_and, Bool.false_eq_true, if_false] at h
    rw [h.of_pure] at he
    have hclosed := of_obeys_intersectionOf holds_plain he (.closed ms) List.mem_cons_self
    exact (obeys_closed.mp hclosed).1

theorem gives_effectiveParameters_unique {site : Site} {location : Pointer} {o : Operation}
    {es' : List EffectiveParameter} (h : Gives (effectiveParameters env site location o) es)
    (h' : Gives (effectiveParameters env site location o) es') : es = es' :=
  (agree_effectiveParameters (b := true)).left.gives h h'

/-- The record of the parameters occurs in the type of an operation. -/
theorem nodup_of_operation {site : Site} {method : Method} {o : Operation} {t : TypedOperation}
    (h : Gives (operation env site method o) t) (ht : Obeys (Holds Q Record.Distinct) t.type)
    (hes : Gives (effectiveParameters env site (site.pointer.child method.name) o) es) :
    (inlineNames es).Nodup := by
  obtain ⟨es', hes', h⟩ := h.of_bind
  obtain ⟨pathParams, _, h⟩ := h.of_bind
  obtain ⟨params, hparams, h⟩ := h.of_bind
  obtain ⟨body, _, h⟩ := h.of_bind
  obtain ⟨responses, _, h⟩ := h.of_bind
  rw [h.of_pure] at ht
  have hmember := (obeys_closed.mp ht).2 _ List.mem_cons_self
  rw [gives_effectiveParameters_unique hes hes']
  exact nodup_of_parameters hparams (obeys_of_memberObeys hmember)

/-- The record of the shared parameters occurs in the record of a path item, and so do the types
that its operations are shown by. -/
theorem nodup_of_pathRecord {p : Pointer} {item : PathItem} {os : List TypedOperation}
    {shown : TypedOperation → TypeExpr} {e : TypeExpr}
    (h : Gives (pathRecord env p item os shown) e) (he : Obeys (Holds Q Record.Distinct) e) :
    (∀ o ∈ os, Obeys (Holds Q Record.Distinct) (shown o)) ∧
      ∀ es, Gives (eachItem (p.child "parameters") (effective env) item.parameters) es →
        (inlineNames es).Nodup := by
  unfold pathRecord at h
  split at h
  · rename_i hempty
    rw [h.of_pure] at he
    constructor
    · intro o ho
      exact obeys_of_memberObeys ((obeys_closed.mp he).2 _ (List.mem_map.mpr ⟨o, ho, rfl⟩))
    · intro es hes
      rw [List.isEmpty_iff.mp hempty] at hes
      rw [hes.of_pure]
      exact List.nodup_nil
  · obtain ⟨type, htype, h⟩ := h.of_bind
    rw [h.of_pure] at he
    have hmembers := (obeys_closed.mp he).2
    constructor
    · intro o ho
      have hmem : memberFor env (.name o.method.name) (shown o) o.doc ∈
          os.map fun o => memberFor env (.name o.method.name) (shown o) o.doc :=
        List.mem_map.mpr ⟨o, ho, rfl⟩
      exact obeys_of_memberObeys (hmembers _ (List.mem_append_left _ hmem))
    · intro es hes
      obtain ⟨es', hes', htype⟩ := htype.of_bind
      have heq : es = es' :=
        (agree_eachItem fun _ part => (agree_effective (b := true) part).left).gives hes hes'
      rw [heq]
      have hmember := hmembers _ (List.mem_append_right _ (List.mem_singleton_self _))
      exact nodup_of_parameters htype (obeys_of_memberObeys hmember)

end Typing

end ApiTypes
