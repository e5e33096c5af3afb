/-
# What an operation has is in its type once

The type of an operation puts together parameters that are declared in two lists, by themselves or
by references to them, and separates the responses by their codes.  Nothing is lost on the way and
nothing comes twice: a parameter in effect is a member of the record of the parameters or is picked
from one collection, and a response is a member of one of two records.

* `EffectiveParameter.DeclaredBy` says what a declaration of a parameter comes to;
  `Typing.exists_declared`: which declarations are in effect.
* `Typing.perm_picks`: picking puts names together by collections and keeps each of them.
* `Typing.Carries`: a type holds each of some parameters once; `Typing.carries_parameters`.
* `Typing.Separates`: two lists of members hold each of some responses once, in order;
  `Typing.separates_responses`.
* `Typing.conserves_of_operation` is the statement about operations.
-/
import ApiTypes.Proofs.Text.ByteOrder
import ApiTypes.Proofs.Typing.ParameterNames
import Mathlib

namespace ApiTypes

open TypeExpr

/-! ## 1. Declarations -/

/-- **What a declaration of a parameter comes to**: itself, or what is at the end of the chain of
its reference.  It belongs to a collection if the reference itself is to a name in one. -/
def EffectiveParameter.DeclaredBy (env : Environment) (part : OrRef Parameter)
    (e : EffectiveParameter) : Prop :=
  match part with
  | .item parameter => e.parameter = parameter ∧ e.group = none
  | .ref r => ∃ target, env.resolver.canonical r.target .root = .ok target ∧
      e.group = Typing.parameterGroup? target ∧
      env.resolver.resolveAs Decode.parameter r.target .root = .ok (e.pointer, e.parameter)

namespace Typing

variable {env : Environment} {es own shared : List EffectiveParameter}

theorem declaredBy_of_effective {p : Pointer} {part : OrRef Parameter} {e : EffectiveParameter}
    (h : Gives (effective env p part) e) : e.DeclaredBy env part := by
  cases part with
  | item parameter =>
    rw [h.of_pure]
    exact ⟨rfl, rfl⟩
  | ref r =>
    obtain ⟨target, htarget, h⟩ := h.of_bind
    obtain ⟨⟨q, parameter⟩, hparameter, h⟩ := h.of_bind
    have hcanonical := htarget.of_reference
    have hroot := Resolver.canonical_root hcanonical
    rw [h.of_pure]
    exact ⟨target, hroot, rfl, Resolver.resolveAs_congr hcanonical hroot hparameter.of_lift⟩

theorem declaredBy_of_eachItem {base : Pointer} {parts : List (OrRef Parameter)}
    (h : Gives (eachItem base (effective env) parts) es) :
    List.Forall₂ (fun part e => e.DeclaredBy env part) parts es :=
  h.of_eachItem.imp fun _ _ ⟨_, hgives⟩ => declaredBy_of_effective hgives

/-- A declaration comes to one parameter. -/
theorem key_eq_of_declaredBy {a b : EffectiveParameter} {part : OrRef Parameter}
    (ha : a.DeclaredBy env part) (hb : b.DeclaredBy env part) : a.key = b.key := by
  have hparameter : a.parameter = b.parameter := by
    cases part with
    | item parameter => exact ha.1.trans hb.1.symm
    | ref r =>
      obtain ⟨_, _, _, ha⟩ := ha
      obtain ⟨_, _, _, hb⟩ := hb
      exact congrArg Prod.snd (Except.ok.inj (ha.symm.trans hb))
  rw [EffectiveParameter.key, EffectiveParameter.key, hparameter]

theorem keys_eq_of_declaredBy {parts : List (OrRef Parameter)} {es es' : List EffectiveParameter}
    (h : List.Forall₂ (EffectiveParameter.DeclaredBy env) parts es)
    (h' : List.Forall₂ (EffectiveParameter.DeclaredBy env) parts es') :
    es.map EffectiveParameter.key = es'.map EffectiveParameter.key := by
  induction h generalizing es' with
  | nil =>
    cases h'
    rfl
  | cons ha _ ih =>
    cases h' with
    | cons hb h' => rw [List.map_cons, List.map_cons, key_eq_of_declaredBy ha hb, ih h']

/-- The parameters that a list declares are known apart, after references. -/
def DeclaredApart (env : Environment) (parts : List (OrRef Parameter)) : Prop :=
  ∀ es, List.Forall₂ (EffectiveParameter.DeclaredBy env) parts es → KnownApart es

/-- It is enough to see what the declarations come to. -/
theorem declaredApart_of {parts : List (OrRef Parameter)}
    (h : List.Forall₂ (EffectiveParameter.DeclaredBy env) parts es) (hes : KnownApart es) :
    DeclaredApart env parts := by
  intro es' h'
  rw [KnownApart, keys_eq_of_declaredBy h' h]
  exact hes

/-- One name in one collection is one parameter. -/
theorem key_eq_of_group {a b : EffectiveParameter} {part part' : OrRef Parameter}
    {pick : Pointer × String} (ha : a.DeclaredBy env part) (hb : b.DeclaredBy env part')
    (hgroup : a.group = some pick) (hgroup' : b.group = some pick) : a.key = b.key := by
  cases part with
  | item parameter => cases ha.2.symm.trans hgroup
  | ref r =>
    cases part' with
    | item parameter => cases hb.2.symm.trans hgroup'
    | ref r' =>
      obtain ⟨target, htarget, hg, hparameter⟩ := ha
      obtain ⟨target', htarget', hg', hparameter'⟩ := hb
      have hp := child_of_parameterGroup (hg.symm.trans hgroup)
      have hp' := child_of_parameterGroup (hg'.symm.trans hgroup')
      obtain rfl : target = target' := hp.symm.trans hp'
      have hsame := Resolver.resolveAs_congr htarget htarget' hparameter
      have hparameters : b.parameter = a.parameter :=
        congrArg Prod.snd (Except.ok.inj (hparameter'.symm.trans hsame))
      rw [EffectiveParameter.key, EffectiveParameter.key, hparameters]

/-- What an operation does not declare itself of what it shares. -/
theorem not_overridden (own shared : List EffectiveParameter) :
    (shared.filter fun e => !own.any (sameParameter e)) =
      shared.filter (·.key ∉ own.map EffectiveParameter.key) := by
  refine List.filter_congr fun e _ => ?_
  rw [Bool.eq_iff_iff, Bool.not_eq_true', List.any_eq_false, decide_eq_true_iff, List.mem_map]
  constructor
  · rintro h ⟨a, ha, hkey⟩
    exact h a ha (sameParameter_iff.mpr hkey.symm)
  · intro h a ha hsame
    exact h ⟨a, ha, (sameParameter_iff.mp hsame).symm⟩

/-- **What is in effect is declared**: the operation's own parameters, and after them those of the
shared ones that it does not declare itself, by name and place. -/
theorem exists_declared {site : Site} {location : Pointer} {o : Operation}
    (h : Gives (effectiveParameters env site location o) es) :
    ∃ own shared, List.Forall₂ (EffectiveParameter.DeclaredBy env) o.parameters own ∧
      List.Forall₂ (EffectiveParameter.DeclaredBy env) site.shared shared ∧
      es = own ++ shared.filter (·.key ∉ own.map EffectiveParameter.key) := by
  obtain ⟨own, hown, h⟩ := h.of_bind
  obtain ⟨shared, hshared, h⟩ := h.of_bind
  refine ⟨own, shared, declaredBy_of_eachItem hown, declaredBy_of_eachItem hshared, ?_⟩
  rw [h.of_pure, not_overridden]

theorem exists_declaredBy {parts parts' : List (OrRef Parameter)} {p : EffectiveParameter → Bool}
    (hown : List.Forall₂ (EffectiveParameter.DeclaredBy env) parts own)
    (hshared : List.Forall₂ (EffectiveParameter.DeclaredBy env) parts' shared) :
    ∀ e ∈ own ++ shared.filter p, ∃ part, e.DeclaredBy env part := by
  intro e he
  rcases List.mem_append.mp he with he | he
  · obtain ⟨part, _, hpart⟩ := exists_of_forall₂ hown he
    exact ⟨part, hpart⟩
  · obtain ⟨part, _, hpart⟩ := exists_of_forall₂ hshared (List.mem_filter.mp he).1
    exact ⟨part, hpart⟩

/-! ## 2. Names from collections -/

/-- The names that are picked, each with its collection. -/
def pickedNames (groups : List (Pointer × List String)) : List (Pointer × String) :=
  groups.flatMap fun g => g.2.map (g.1, ·)

/-- A name that is not picked yet is picked once more. -/
theorem perm_addPick {pick : Pointer × String} : ∀ {groups : List (Pointer × List String)},
    pick ∉ pickedNames groups →
      (pickedNames (addPick groups pick)).Perm (pick :: pickedNames groups)
  | [], _ => by
    rw [addPick]
    exact .refl _
  | (group, keys) :: rest, h => by
    obtain ⟨hfirst, hrest⟩ : (pick ∉ keys.map (group, ·)) ∧ pick ∉ pickedNames rest := by
      rwa [pickedNames, List.flatMap_cons, List.mem_append, not_or] at h
    rw [addPick]
    split
    · rename_i hgroup
      have hkey : keys.contains pick.2 = false := by
        rw [Bool.eq_false_iff, ne_eq, List.contains_iff_mem]
        exact fun hmem => hfirst (List.mem_map.mpr ⟨pick.2, hmem, by rw [hgroup]⟩)
      have hadded : (keys ++ [pick.2]).map (group, ·) = keys.map (group, ·) ++ [pick] := by
        rw [List.map_append, List.map_singleton, hgroup]
      simp only [hkey, Bool.false_eq_true, if_false, pickedNames, List.flatMap_cons, hadded]
      rw [List.append_assoc, List.singleton_append]
      exact List.perm_middle
    · rw [pickedNames, List.flatMap_cons]
      exact ((perm_addPick hrest).append_left _).trans List.perm_middle

/-- A collection is added at the end, or is there. -/
theorem map_fst_addPick (pick : Pointer × String) : ∀ groups : List (Pointer × List String),
    (addPick groups pick).map Prod.fst =
      if pick.1 ∈ groups.map Prod.fst then groups.map Prod.fst
      else groups.map Prod.fst ++ [pick.1]
  | [] => rfl
  | (group, keys) :: rest => by
    have ih := map_fst_addPick pick rest
    rw [addPick]
    by_cases hgroup : group = pick.1
    · rw [if_pos hgroup]
      simp [hgroup]
    · rw [if_neg hgroup, List.map_cons, ih]
      have hne : pick.1 ≠ group := Ne.symm hgroup
      by_cases hmem : pick.1 ∈ rest.map Prod.fst <;> simp [hmem, hne]

theorem nodup_addPick {pick : Pointer × String} {groups : List (Pointer × List String)}
    (h : (groups.map Prod.fst).Nodup) : ((addPick groups pick).map Prod.fst).Nodup := by
  rw [map_fst_addPick]
  split
  · exact h
  · rename_i hnot
    rw [List.nodup_append]
    refine ⟨h, List.nodup_singleton _, fun a ha b hb heq => hnot ?_⟩
    rwa [heq, List.mem_singleton.mp hb] at ha

/-- **Different names are put together by collections, and each of them is kept.** -/
theorem perm_picks {picks : List (Pointer × String)} (h : picks.Nodup) :
    ((picks.foldl addPick []).map Prod.fst).Nodup ∧
      (pickedNames (picks.foldl addPick [])).Perm picks := by
  induction picks using List.reverseRecOn with
  | nil => exact ⟨List.nodup_nil, .refl _⟩
  | append_singleton picks pick ih =>
    obtain ⟨hpicks, _, hdisjoint⟩ := List.nodup_append.mp h
    obtain ⟨hgroups, hperm⟩ := ih hpicks
    rw [List.foldl_append, List.foldl_cons, List.foldl_nil]
    have hnew : pick ∉ pickedNames (picks.foldl addPick []) := fun hmem =>
      hdisjoint pick (hperm.mem_iff.mp hmem) pick (List.mem_singleton_self _) rfl
    refine ⟨nodup_addPick hgroups, (perm_addPick hnew).trans ?_⟩
    exact (hperm.cons pick).trans (List.perm_append_singleton pick picks).symm

/-- Parameters that are known apart are not the same name in the same collection. -/
theorem nodup_groups (h : KnownApart es) (hes : ∀ e ∈ es, ∃ part, e.DeclaredBy env part) :
    (es.filterMap (·.group)).Nodup := by
  rw [List.Nodup, List.pairwise_filterMap]
  refine (List.pairwise_map.mp h).imp_of_mem fun {a b} ha hb hne pick hpick pick' hpick' => ?_
  obtain ⟨part, hpart⟩ := hes a ha
  obtain ⟨part', hpart'⟩ := hes b hb
  rintro rfl
  exact hne (key_eq_of_group hpart hpart' hpick hpick')

/-! ## 3. The type of the parameters -/

/-- The parts of a type of parameters: a record, if anything stands in it, and what is picked. -/
def parameterParts (ms : List (Member TypeExpr)) (picks : List (Pointer × List String)) :
    List TypeExpr :=
  (if ms.isEmpty then [] else [.closed ms]) ++ picks.map fun g => .pick g.1 g.2

/-- **A type holds each of some parameters once**: as a member of its record, in order, or as one
name that is picked from one collection.  Without parameters there is nothing to hold. -/
structure Carries (env : Environment) (es : List EffectiveParameter)
    (ms : List (Member TypeExpr)) (picks : List (Pointer × List String)) (type : TypeExpr) :
    Prop where
  void : type = .void ↔ es = []
  parts : es ≠ [] → type.constituents = parameterParts ms picks
  record : List.Forall₂
    (fun e m => m.key = .name e.parameter.name ∧ Gives (parameter env e.pointer e.parameter) m.type)
    (es.filter (·.group.isNone)) ms
  collections : (picks.map Prod.fst).Nodup
  picked : (pickedNames picks).Perm (es.filterMap (·.group))
  once : (es.filterMap (·.group)).Nodup

/-- Nothing is left out of an intersection of expressions that are none. -/
theorem constituents_intersectionOf {types : List TypeExpr} (hne : types ≠ [])
    (hplain : ∀ e ∈ types, e.constituents = [e]) :
    (intersectionOf types).constituents = types := by
  have hflat : types.flatMap constituents = types := by
    rw [List.flatMap_def, List.map_congr_left hplain, ← List.flatMap_def, List.flatMap_singleton']
  rw [intersectionOf, hflat]
  split
  · exact absurd rfl hne
  · exact hplain _ (List.mem_singleton_self _)
  · rfl

theorem constituents_parameterPart {ms : List (Member TypeExpr)}
    {picks : List (Pointer × List String)} {e : TypeExpr} (h : e ∈ parameterParts ms picks) :
    e.constituents = [e] ∧ e ≠ .void := by
  rcases List.mem_append.mp h with h | h
  · split at h
    · cases h
    · rw [List.mem_singleton.mp h]
      exact ⟨rfl, nofun⟩
  · obtain ⟨g, _, rfl⟩ := List.mem_map.mp h
    exact ⟨rfl, nofun⟩

/-- If there are parameters, there is something to hold them. -/
theorem parameterParts_ne_nil {ms : List (Member TypeExpr)} {picks : List (Pointer × List String)}
    {R : EffectiveParameter → Member TypeExpr → Prop}
    (hrecord : List.Forall₂ R (es.filter (·.group.isNone)) ms)
    (hpicked : (pickedNames picks).Perm (es.filterMap (·.group))) (hes : es ≠ []) :
    parameterParts ms picks ≠ [] := by
  obtain ⟨e, he⟩ := List.exists_mem_of_ne_nil es hes
  intro hnil
  obtain ⟨hms, hpicks⟩ := List.append_eq_nil_iff.mp hnil
  cases hgroup : e.group with
  | none =>
    have hmem : e ∈ es.filter (·.group.isNone) := List.mem_filter.mpr ⟨he, by rw [hgroup]; rfl⟩
    have hempty : ms = [] := by
      cases ms with
      | nil => rfl
      | cons => cases hms
    rw [hempty, List.forall₂_nil_right_iff] at hrecord
    exact absurd (hrecord ▸ hmem) List.not_mem_nil
  | some pick =>
    have hmem : pick ∈ es.filterMap (·.group) := List.mem_filterMap.mpr ⟨e, he, hgroup⟩
    rw [List.map_eq_nil_iff.mp hpicks] at hpicked
    exact absurd (hpicked.mem_iff.mpr hmem) List.not_mem_nil

/-- **The type of parameters holds each of them once.** -/
theorem carries_parameters {type : TypeExpr} (h : Gives (parameters env es) type)
    (honce : (es.filterMap (·.group)).Nodup) : ∃ ms picks, Carries env es ms picks type := by
  unfold parameters at h
  obtain ⟨ms, hms, h⟩ := h.of_bind
  obtain ⟨hcollections, hpicked⟩ := perm_picks honce
  have hrecord : List.Forall₂ (fun e m => m.key = .name e.parameter.name ∧
      Gives (parameter env e.pointer e.parameter) m.type) (es.filter (·.group.isNone)) ms := by
    refine hms.of_mapM.imp fun e m hm => ?_
    obtain ⟨type, htype, hm⟩ := hm.of_bind
    rw [hm.of_pure]
    exact ⟨rfl, htype⟩
  suffices (type = .void ↔ es = []) ∧
      (es ≠ [] → type.constituents =
        parameterParts ms ((es.filterMap (·.group)).foldl addPick [])) from
    ⟨ms, _, this.1, this.2, hrecord, hcollections, hpicked, honce⟩
  by_cases hes : es = []
  · subst hes
    cases hrecord
    rw [h.of_pure]
    exact ⟨iff_of_true rfl rfl, fun hne => absurd rfl hne⟩
  · have hne := parameterParts_ne_nil hrecord hpicked hes
    have hfull : (ms.isEmpty && ((es.filterMap (·.group)).foldl addPick []).isEmpty) = false := by
      rw [Bool.eq_false_iff]
      intro hnone
      rw [Bool.and_eq_true, List.isEmpty_iff, List.isEmpty_iff] at hnone
      rw [hnone.1, hnone.2] at hne
      exact hne rfl
    simp only [hfull, Bool.false_eq_true, if_false] at h
    have htype : type.constituents =
        parameterParts ms ((es.filterMap (·.group)).foldl addPick []) := by
      rw [h.of_pure]
      exact constituents_intersectionOf hne fun e he => (constituents_parameterPart he).1
    refine ⟨iff_of_false ?_ hes, fun _ => htype⟩
    rintro rfl
    have hvoid : TypeExpr.void ∈ parameterParts ms ((es.filterMap (·.group)).foldl addPick []) :=
      htype ▸ List.mem_singleton_self _
    exact (constituents_parameterPart hvoid).2 rfl

/-! ## 4. Responses -/

/-- **Two lists of members hold each of some responses once**: those under codes of success and the
others, in the order in which they are shown, which is that of declaration or of the bytes of the
codes. -/
structure Separates (alphabetize : Bool) (declared codes : List String)
    (successes others : List (Member TypeExpr)) : Prop where
  once : ((successes ++ others).map (·.key)).Perm (declared.map .name)
  order : if alphabetize then codes.Pairwise fun a b => nameBytes a ≤ nameBytes b
    else codes = declared
  successes : successes.map (·.key) = (codes.filter isSuccessCode).map .name
  others : others.map (·.key) = (codes.filter (!isSuccessCode ·)).map .name

/-- Members under names are of success as the names are. -/
theorem map_key_filter {p : Bool → Bool} {codes : List String} {ms : List (Member TypeExpr)}
    (h : List.Forall₂ (fun code m => m.key = .name code) codes ms) :
    (ms.filter fun m => p (isSuccess m)).map (·.key) =
      (codes.filter fun code => p (isSuccessCode code)).map .name := by
  induction h with
  | nil => rfl
  | cons hm _ ih =>
    rw [List.filter_cons, List.filter_cons, isSuccess_eq hm]
    split
    · rw [List.map_cons, List.map_cons, ih, hm]
    · exact ih

theorem key_of_responseMember {code : String} {p : Pointer} {part : OrRef Response}
    {m : Member TypeExpr} (h : Gives (responseMember env code p part) m) : m.key = .name code := by
  cases part with
  | ref r =>
    obtain ⟨_, _, h⟩ := h.of_bind
    rw [h.of_pure]
    rfl
  | item r =>
    obtain ⟨_, _, h⟩ := h.of_bind
    rw [h.of_pure]
    rfl

/-- **Responses are separated by their codes.** -/
theorem separates_responses {p : Pointer} {responses : List (String × OrRef Response)}
    {ms : List (Member TypeExpr)} (h : Gives (eachNamed env p (responseMember env) responses) ms) :
    Separates env.config.alphabetize (responses.map Prod.fst)
      ((ordered env.config.alphabetize responses).map Prod.fst)
      (ms.filter isSuccess) (ms.filter (!isSuccess ·)) := by
  have hkeys : List.Forall₂ (fun code m => m.key = .name code)
      ((ordered env.config.alphabetize responses).map Prod.fst) ms := by
    rw [List.forall₂_map_left_iff]
    exact h.of_eachNamed.imp fun _ _ hm => key_of_responseMember hm
  have hsuccesses : (ms.filter isSuccess).map (·.key) = _ := map_key_filter (p := id) hkeys
  have hothers : (ms.filter (!isSuccess ·)).map (·.key) = _ := map_key_filter (p := not) hkeys
  refine ⟨?_, ?_, hsuccesses, hothers⟩
  · rw [List.map_append, hsuccesses, hothers, ← List.map_append]
    exact ((List.filter_append_perm _ _).trans ((ordered_perm _ _).map _)).map _
  · cases env.config.alphabetize with
    | true => exact pairwise_ordered responses
    | false => rfl

/-! ## 5. Operations -/

/-- Parameters in one place that are known apart have names of their own. -/
theorem nodup_namesIn (h : KnownApart es) (place : Place) : (namesIn place es).Nodup := by
  have hkeys : ((es.filter (·.parameter.place = place)).map EffectiveParameter.key).Nodup :=
    h.sublist (List.filter_sublist.map _)
  refine List.Nodup.map_on (fun a ha b hb hname => ?_) (List.Nodup.of_map _ hkeys)
  have hplace : ∀ e ∈ es.filter (·.parameter.place = place), e.parameter.place = place :=
    fun e he => of_decide_eq_true (List.mem_filter.mp he).2
  refine List.inj_on_of_nodup_map hkeys ha hb (Prod.ext hname ?_)
  exact (hplace a ha).trans (hplace b hb).symm

/-- **A typed operation conserves what it is typed from**: its type holds the parameters in effect
and the responses once each, and what is in a path, in a header or in a cookie is listed once, in
order. -/
structure Conserves (env : Environment) (o : Operation) (es : List EffectiveParameter)
    (t : TypedOperation) : Prop where
  type : ∃ params body successes others readonly,
    t.type = .closed [.of "parameters" params false readonly, body,
      .of "responses" (.closed successes) false readonly,
      .of "exceptions" (.closed others) false readonly] ∧
    (∃ ms picks, Carries env es ms picks params) ∧
    ∃ codes, Separates env.config.alphabetize (o.responses.map Prod.fst) codes successes others
  pathParams : List.Forall₂
    (fun e param => param.1 = e.parameter.name ∧
      Gives (parameter env e.pointer e.parameter) param.2)
    (es.filter (·.parameter.place = .path)) t.pathParams
  headerParams : t.headerParams = namesIn .header es
  cookieParams : t.cookieParams = namesIn .cookie es
  once : ∀ place, (namesIn place es).Nodup

/-- **Nothing is lost or doubled when an operation is typed.**  In effect are its own parameters
and, after them, those of the shared ones that it does not declare itself, by name and place. -/
theorem conserves_of_operation {site : Site} {method : Method} {o : Operation} {t : TypedOperation}
    (hown : DeclaredApart env o.parameters) (hshared : DeclaredApart env site.shared)
    (h : Gives (operation env site method o) t) :
    ∃ own shared, List.Forall₂ (EffectiveParameter.DeclaredBy env) o.parameters own ∧
      List.Forall₂ (EffectiveParameter.DeclaredBy env) site.shared shared ∧
      Conserves env o (own ++ shared.filter (·.key ∉ own.map EffectiveParameter.key)) t := by
  obtain ⟨es, hes, h⟩ := h.of_bind
  obtain ⟨pathParams, hpathParams, h⟩ := h.of_bind
  obtain ⟨params, hparams, h⟩ := h.of_bind
  obtain ⟨body, _, h⟩ := h.of_bind
  obtain ⟨responses, hresponses, h⟩ := h.of_bind
  obtain ⟨own, shared, hownParts, hsharedParts, rfl⟩ := exists_declared hes
  refine ⟨own, shared, hownParts, hsharedParts, ?_⟩
  have hapart : KnownApart (own ++ shared.filter (·.key ∉ own.map EffectiveParameter.key)) := by
    rw [← not_overridden]
    exact knownApart_effective (hown own hownParts) (hshared shared hsharedParts)
  have honce := nodup_groups hapart (exists_declaredBy hownParts hsharedParts)
  rw [h.of_pure]
  refine ⟨⟨params, body, _, _, _, rfl, carries_parameters hparams honce,
    _, separates_responses hresponses⟩, ?_, rfl, rfl, nodup_namesIn hapart⟩
  refine hpathParams.of_mapM.imp fun e param hparam => ?_
  obtain ⟨type, htype, hparam⟩ := hparam.of_bind
  rw [hparam.of_pure]
  exact ⟨rfl, htype⟩

/-! ## 6. An operation that shares what it declares otherwise -/

/-- A description with two parameters, one of them under two names. -/
def pageEnvironment : Environment where
  resolver := ⟨.object [("components", .object [("parameters", .object [
    ("Limit", .object [("name", .string "limit"), ("in", .string "query")]),
    ("Most", .object [("$ref", .string "#/components/parameters/Limit")]),
    ("Cursor", .object [("name", .string "cursor"), ("in", .string "query")])])])], none⟩

/-- The pointer of the collection of the parameters. -/
def pageParameters : Pointer := ⟨["components", "parameters"]⟩

/-- Where an operation stands, with three parameters that are shared there. -/
def pageSite : Site where
  kind := .path
  path := "/pages/{id}"
  pointer := ⟨["paths", "/pages/{id}"]⟩
  shared := [.ref { target := "#/components/parameters/Most" },
    .ref { target := "#/components/parameters/Cursor" },
    .item { name := "id", place := .path, required := true }]

/-- The operation, which declares one of the three on the spot. -/
def pageOperation : Operation where
  parameters := [.item { name := "limit", place := .query }]
  responses := [("404", .item {}), ("200", .item {})]

/-- What the operation declares. -/
def pageOwn : List EffectiveParameter :=
  [{ parameter := { name := "limit", place := .query }, pointer := .root }]

/-- What the path declares. -/
def pageShared : List EffectiveParameter :=
  [{ parameter := { name := "limit", place := .query }, pointer := pageParameters.child "Limit",
     group := some (pageParameters, "Most") },
   { parameter := { name := "cursor", place := .query }, pointer := pageParameters.child "Cursor",
     group := some (pageParameters, "Cursor") },
   { parameter := { name := "id", place := .path, required := true }, pointer := .root }]

theorem declaredBy_pageOwn :
    List.Forall₂ (EffectiveParameter.DeclaredBy pageEnvironment) pageOperation.parameters pageOwn :=
  .cons ⟨rfl, rfl⟩ .nil

theorem declaredBy_pageShared :
    List.Forall₂ (EffectiveParameter.DeclaredBy pageEnvironment) pageSite.shared pageShared :=
  .cons ⟨pageParameters.child "Most", by cbv, by decide +kernel, by cbv⟩ <|
    .cons ⟨pageParameters.child "Cursor", by cbv, by decide +kernel, by cbv⟩ <|
      .cons ⟨rfl, rfl⟩ .nil

/-- The operation has its own limit, which is the shared one, and then the rest. -/
theorem conserves_pageOperation : ∃ t es,
    Gives (operation pageEnvironment pageSite .get pageOperation) t ∧
    Conserves pageEnvironment pageOperation es t ∧
    es.map EffectiveParameter.key = [("limit", .query), ("cursor", .query), ("id", .path)] := by
  obtain ⟨t, ht, _⟩ := exists_gives_of_any (p := fun _ => true)
    (t := operation pageEnvironment pageSite .get pageOperation) (by decide +kernel)
  obtain ⟨own, shared, hown, hshared, hconserves⟩ :=
    conserves_of_operation (declaredApart_of declaredBy_pageOwn (by rw [KnownApart]; decide))
      (declaredApart_of declaredBy_pageShared (by rw [KnownApart]; decide)) ht
  refine ⟨t, _, ht, hconserves, ?_⟩
  have hfilter : (shared.filter (·.key ∉ own.map EffectiveParameter.key)).map
      EffectiveParameter.key = (shared.map EffectiveParameter.key).filter
        (· ∉ own.map EffectiveParameter.key) := by
    rw [List.filter_map]
    rfl
  rw [List.map_append, hfilter, keys_eq_of_declaredBy hown declaredBy_pageOwn,
    keys_eq_of_declaredBy hshared declaredBy_pageShared]
  decide

end Typing

end ApiTypes
