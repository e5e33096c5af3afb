/-
# What occurs in the types of schemas and payloads

Every name of another node in a type comes from a reference that was resolved, every record is
made of parts that have names of their own, and no operation is named.  `Permits` collects what
that says of a property of expressions, and the lemmas carry it through the typing of schemas,
contents, headers and responses: whatever property names of resolved nodes and records with
distinct names have, everything that occurs in the types has.

* `Typing.obeys_node` is the step by kinds of schemas.
* `Typing.obeys_content`, `Typing.header_obeys`, `Typing.obeys_response` are the payloads; members
  come with the name they stand under (`NamedMember`).
-/
import ApiTypes.Proofs.Model.Names
import ApiTypes.Proofs.Resolver
import ApiTypes.Proofs.TypeExpr.Parts
import ApiTypes.Proofs.Typing.Outcome
import ApiTypes.Typing.Content

namespace ApiTypes

/-- A pointer to which a reference leads. -/
def Environment.Resolves (env : Environment) (p : Pointer) : Prop :=
  ∃ target location, env.resolver.canonical target location = .ok p

/-- A property of the names of resolved nodes, of records with distinct names, and of all
expressions that name nothing and are no records. -/
structure Permits (env : Environment) (P : TypeExpr → Prop) : Prop where
  reference : ∀ p, env.Resolves p → P (.reference p)
  pick : ∀ group keys, (∀ key ∈ keys, env.Resolves (group.child key)) → P (.pick group keys)
  record : ∀ r, r.names.Nodup → P (.record r)
  plain : ∀ e, e.Plain → P e

/-- A property of resolved pointers and one of records with distinct names. -/
theorem permits_holds {env : Environment} {Q : Pointer → Prop} {D : Record TypeExpr → Prop}
    (pointers : ∀ p, env.Resolves p → Q p) (records : ∀ r, r.names.Nodup → D r) :
    Permits env (TypeExpr.Holds Q D) where
  reference := pointers
  pick _ _ h key hkey := pointers _ (h key hkey)
  record := records
  plain := TypeExpr.holds_plain

namespace Typing

open TypeExpr

variable {env : Environment} {P : TypeExpr → Prop}

/-- A member that stands under a name, with a type in which everything obeys. -/
def NamedMember (P : TypeExpr → Prop) (name : String) (m : Member TypeExpr) : Prop :=
  m.key = .name name ∧ Obeys P m.type

theorem NamedMember.obeys {name : String} {m : Member TypeExpr} (h : NamedMember P name m) :
    MemberObeys P m :=
  (memberObeys_name h.1).mpr h.2

theorem namedMember_of {name : String} {type : TypeExpr} {optional readonly : Bool}
    {doc : Option String} (h : Obeys P type) :
    NamedMember P name (.of name type optional readonly doc) :=
  ⟨rfl, h⟩

/-- Members that stand under the names of what they are made from. -/
theorem names_of_keys {α : Type} {R : α → Member TypeExpr → Prop} {name : α → String} {as : List α}
    {ms : List (Member TypeExpr)} (h : List.Forall₂ R as ms)
    (hkey : ∀ a m, R a m → m.key = .name (name a)) :
    ms.filterMap Member.name? = as.map name := by
  induction h with
  | nil => rfl
  | cons hm _ ih => rw [List.filterMap_cons, Member.name?, hkey _ _ hm, ih, List.map_cons]

theorem names_of_namedMembers {names : List String} {ms : List (Member TypeExpr)}
    (h : List.Forall₂ (NamedMember P) names ms) : ms.filterMap Member.name? = names := by
  rw [names_of_keys h fun _ _ hm => hm.1, List.map_id']

theorem obeys_of_namedMembers {names : List String} {ms : List (Member TypeExpr)}
    (h : List.Forall₂ (NamedMember P) names ms) : ∀ m ∈ ms, MemberObeys P m := by
  intro m hm
  obtain ⟨name, _, h⟩ := exists_of_forall₂ h hm
  exact h.obeys

/-- A closed record of members with distinct names. -/
theorem obeys_closed_of_named (hp : Permits env P) {names : List String}
    {ms : List (Member TypeExpr)} (hn : names.Nodup) (h : List.Forall₂ (NamedMember P) names ms) :
    Obeys P (.closed ms) := by
  refine obeys_closed.mpr ⟨hp.record _ ?_, obeys_of_namedMembers h⟩
  rw [Record.names, names_of_namedMembers h]
  exact hn

/-! ## 1. Schemas -/

theorem obeys_withNull (hp : Permits env P) {traits : Traits} {e : TypeExpr} (h : Obeys P e) :
    Obeys P (withNull env.config traits e) := by
  unfold withNull
  split
  · exact obeys_orNull hp.plain h
  · exact h

theorem obeys_ofScalar (hp : Permits env P) (k : ScalarKind) : Obeys P (ofScalar k) := by
  cases k with
  | null => exact obeys_null hp.plain
  | string | integer | number | boolean => exact obeys_primitive hp.plain

theorem obeys_ofValue (hp : Permits env P) (v : Json) : Obeys P (ofValue v) := by
  cases v with
  | null => exact obeys_null hp.plain
  | bool _ | number _ | string _ => exact obeys_literal hp.plain
  | array _ | object _ => exact obeys_unknown hp.plain

theorem obeys_arrange (hp : Permits env P) {d : Option Discriminator}
    {variants : List (Typing TypeExpr)} {step : Nat × Option String} {e : TypeExpr}
    (hv : ∀ t ∈ variants, ∀ e, Gives t e → Obeys P e)
    (h : Gives (arrange env.config d variants step) e) : Obeys P e := by
  obtain ⟨variant, hvariant, h⟩ := h.of_bind
  have hobeys : Obeys P variant := by
    rw [List.getD_eq_getElem?_getD] at hvariant
    cases hget : variants[step.1]? with
    | none =>
      rw [hget] at hvariant
      rw [hvariant.of_pure]
      exact obeys_never hp.plain
    | some t =>
      rw [hget] at hvariant
      exact hv t (List.mem_of_getElem? hget) variant hvariant
  split at h
  · rename_i tag d _
    rw [h.of_pure]
    refine obeys_intersectionOf hp.plain ?_
    intro e he
    rcases List.mem_cons.mp he with rfl | he
    · exact hobeys
    · rw [List.mem_singleton.mp he]
      refine obeys_closed_of_named hp (List.nodup_cons.mpr ⟨by simp, .nil⟩)
        (.cons (namedMember_of (obeys_literal hp.plain)) .nil)
  · rw [h.of_pure]
    exact hobeys

theorem obeys_alternatives (hp : Permits env P) {d : Option Discriminator}
    {members : List Schema} {variants : List (Typing TypeExpr)} {es : List TypeExpr}
    (hv : ∀ t ∈ variants, ∀ e, Gives t e → Obeys P e)
    (h : Gives (Typing.alternatives env d members variants) es) : ∀ e ∈ es, Obeys P e := by
  unfold Typing.alternatives at h
  split at h
  · rw [h.of_pure]
    simp
  · obtain ⟨vs, hvs, h⟩ := h.of_bind
    rw [h.of_pure]
    intro e he
    rw [List.mem_singleton.mp he]
    refine obeys_unionOf hp.plain ?_
    intro v hmem
    obtain ⟨step, _, hstep⟩ := exists_of_forall₂ hvs.of_mapM hmem
    exact obeys_arrange hp hv hstep

mutual
/-- **Everything that occurs in the type of a schema obeys.** -/
theorem obeys_node (hp : Permits env P) {depth : Nat} {p : Pointer} {e : TypeExpr} :
    ∀ (s : Schema), s.UniqueNames → Gives (node env depth p s) e → Obeys P e
  | .reference target traits, _, h => by
    rw [node] at h
    obtain ⟨q, hq, h⟩ := h.of_bind
    rw [h.of_pure]
    exact obeys_reference.mpr (hp.reference _ ⟨_, _, hq.of_reference⟩)
  | .unknown _, _, h => by
    rw [node] at h
    rw [h.of_pure]
    exact obeys_unknown hp.plain
  | .scalar kinds traits, _, h => by
    rw [node] at h
    rw [h.of_pure]
    refine obeys_withNull hp (obeys_unionOf hp.plain ?_)
    rw [List.forall_mem_map]
    exact fun k _ => obeys_ofScalar hp k
  | .enumerated values traits, _, h => by
    rw [node] at h
    rw [h.of_pure]
    refine obeys_withNull hp (obeys_unionOf hp.plain ?_)
    rw [List.forall_mem_map]
    exact fun v _ => obeys_ofValue hp v
  | .array none least most traits, _, h => by
    rw [node] at h
    rw [h.of_pure]
    exact obeys_withNull hp ((obeys_list hp.plain).mpr (obeys_unknown hp.plain))
  | .array (some items) least most traits, hs, h => by
    rw [node] at h
    obtain ⟨element, hel, h⟩ := h.of_bind
    rw [h.of_pure]
    cases hs with
    | array hs =>
      exact obeys_withNull hp
        ((obeys_list hp.plain).mpr (obeys_node hp items (hs items rfl) hel.of_within))
  | .object properties required additional traits, hs, h => by
    rw [node] at h
    obtain ⟨members, hmembers, h⟩ := h.of_bind
    obtain ⟨catchAll, hall, h⟩ := h.of_bind
    rw [h.of_pure]
    cases hs with
    | object names hs hr =>
      have hnamed := namedMembers_propertyList hp properties hs hmembers
      refine obeys_withNull hp (obeys_record.mpr ⟨hp.record _ ?_, obeys_of_namedMembers hnamed, ?_⟩)
      · rw [Record.names, names_of_namedMembers hnamed]
        exact names
      · exact fun e he => obeys_additionalOf hp additional hr hall e he
  | .composed allOf oneOf anyOf discriminator base traits, hs, h => by
    rw [node] at h
    obtain ⟨all, hall, h⟩ := h.of_bind
    obtain ⟨one, hone, h⟩ := h.of_bind
    obtain ⟨any, hany, h⟩ := h.of_bind
    cases hs with
    | composed hallOf honeOf hanyOf hbase =>
      obtain ⟨own, hown, rfl⟩ : ∃ own, (∀ e ∈ own, Obeys P e) ∧
          e = withNull env.config traits (.intersectionOf (all ++ one ++ any ++ own)) := by
        cases base with
        | none => exact ⟨[], fun _ he => absurd he (by simp), h.of_pure⟩
        | some base =>
          obtain ⟨b, hb, h⟩ := h.of_bind
          refine ⟨[b], fun e he => ?_, h.of_pure⟩
          rw [List.mem_singleton.mp he]
          exact obeys_node hp base (hbase base rfl) hb.of_within
      refine obeys_withNull hp (obeys_intersectionOf hp.plain ?_)
      intro e he
      rw [List.mem_append, List.mem_append, List.mem_append, or_assoc, or_assoc] at he
      rcases he with he | he | he | he
      · obtain ⟨t, ht, hte⟩ := exists_of_forall₂ hall.of_mapM he
        exact obeys_nodes hp allOf hallOf t ht e hte
      · exact obeys_alternatives hp (obeys_nodes hp oneOf honeOf) hone e he
      · exact obeys_alternatives hp (obeys_nodes hp anyOf hanyOf) hany e he
      · exact hown e he

theorem obeys_nodes (hp : Permits env P) {depth : Nat} {p : Pointer} :
    ∀ (ss : List Schema) {i : Nat}, (∀ s ∈ ss, s.UniqueNames) →
      ∀ t ∈ nodes env depth p i ss, ∀ e, Gives t e → Obeys P e
  | [], _, _, _, ht, _, _ => by
    rw [nodes] at ht
    exact absurd ht (by simp)
  | s :: rest, _, hs, t, ht, e, h => by
    rw [nodes] at ht
    rcases List.mem_cons.mp ht with rfl | ht
    · exact obeys_node hp s (hs s List.mem_cons_self) h.of_within
    · exact obeys_nodes hp rest (fun s h => hs s (List.mem_cons_of_mem _ h)) t ht e h

theorem namedMembers_propertyList (hp : Permits env P) {depth : Nat} {p : Pointer}
    {required : List String} :
    ∀ (properties : List (String × Schema)) {members : List (Member TypeExpr)},
      (∀ q ∈ properties, q.2.UniqueNames) →
      Gives (propertyList env depth p required properties) members →
      List.Forall₂ (NamedMember P) (properties.map Prod.fst) members
  | [], _, _, h => by
    rw [propertyList] at h
    rw [h.of_pure]
    exact .nil
  | (name, s) :: rest, _, hs, h => by
    rw [propertyList] at h
    obtain ⟨type, htype, h⟩ := h.of_bind
    obtain ⟨members, hm, h⟩ := h.of_bind
    rw [h.of_pure]
    exact .cons ⟨rfl, obeys_node hp s (hs _ List.mem_cons_self) htype.of_within⟩
      (namedMembers_propertyList hp rest (fun q h => hs q (List.mem_cons_of_mem _ h)) hm)

theorem obeys_additionalOf (hp : Permits env P) {depth : Nat} {p : Pointer}
    {catchAll : Option TypeExpr} : ∀ (additional : Additional Schema),
      (∀ s, additional = .schema s → s.UniqueNames) →
      Gives (additionalOf env depth p additional) catchAll →
      ∀ e, catchAll = some e → Obeys P e
  | .unsaid, _, h, e, he => by
    rw [additionalOf] at h
    rw [h.of_pure] at he
    split at he
    · cases he
      exact obeys_unknown hp.plain
    · cases he
  | .allowed _, _, h, e, he => by
    rw [additionalOf] at h
    rw [h.of_pure] at he
    split at he
    · cases he
      exact obeys_unknown hp.plain
    · cases he
  | .schema s, hs, h, e, he => by
    rw [additionalOf] at h
    obtain ⟨e', he', h⟩ := h.of_bind
    rw [h.of_pure] at he
    cases he
    exact obeys_node hp s (hs s rfl) he'.of_within
end

theorem obeys_schema (hp : Permits env P) {depth : Nat} {p : Pointer} {s : Schema}
    {e : TypeExpr} (hs : s.UniqueNames) (h : Gives (schema env depth p s) e) : Obeys P e :=
  obeys_node hp s hs h.of_within

/-! ## 2. Collections of parts -/

section Collections

variable {α β : Type}

/-- The items of a list, each with its pointer and what its typing gives. -/
theorem Gives.of_eachItem {base : Pointer} {type : Pointer → α → Typing β} {items : List α}
    {bs : List β} (h : Gives (eachItem base type items) bs) :
    List.Forall₂ (fun a b => ∃ p, Gives (type p a) b) items bs := by
  have hzip := h.of_mapM
  suffices ∀ {pairs : List (α × Nat)} {bs : List β},
      List.Forall₂ (fun ai b => Gives (type (base.item ai.2) ai.1) b) pairs bs →
        List.Forall₂ (fun a b => ∃ p, Gives (type p a) b) (pairs.map Prod.fst) bs by
    have hitems := this hzip
    rwa [List.zipIdx_map_fst] at hitems
  intro pairs bs hpairs
  induction hpairs with
  | nil => exact .nil
  | cons hstep _ ih => exact .cons ⟨_, hstep⟩ ih

/-- Named parts in the order in which they are shown, each with what its typing gives. -/
theorem Gives.of_eachNamed {base : Pointer} {type : String → Pointer → α → Typing β}
    {entries : List (String × α)} {bs : List β} (h : Gives (eachNamed env base type entries) bs) :
    List.Forall₂ (fun e b => Gives (type e.1 (base.child e.1) e.2) b)
      (ordered env.config.alphabetize entries) bs :=
  h.of_mapM

/-- The names of entries stay distinct in the order in which they are shown. -/
theorem nodup_ordered {alphabetize : Bool} {entries : List (String × α)}
    (h : (entries.map Prod.fst).Nodup) : ((ordered alphabetize entries).map Prod.fst).Nodup :=
  ((ordered_perm alphabetize entries).map Prod.fst).nodup_iff.mpr h

/-- The members that are typed from named parts stand under the names of the parts. -/
theorem namedMembers_eachNamed {base : Pointer}
    {type : String → Pointer → α → Typing (Member TypeExpr)} {entries : List (String × α)}
    {ms : List (Member TypeExpr)}
    (htype : ∀ e ∈ entries, ∀ m, Gives (type e.1 (base.child e.1) e.2) m → NamedMember P e.1 m)
    (h : Gives (eachNamed env base type entries) ms) :
    List.Forall₂ (NamedMember P) ((ordered env.config.alphabetize entries).map Prod.fst) ms := by
  have hparts : ∀ e ∈ ordered env.config.alphabetize entries, ∀ m,
      Gives (type e.1 (base.child e.1) e.2) m → NamedMember P e.1 m :=
    fun e hmem => htype e (mem_ordered.mp hmem)
  have hsteps := h.of_eachNamed
  generalize ordered env.config.alphabetize entries = shown at hparts hsteps
  clear h htype
  induction hsteps with
  | nil => exact .nil
  | cons hstep _ ih =>
    exact .cons (hparts _ List.mem_cons_self _ hstep)
      (ih fun e hmem => hparts e (List.mem_cons_of_mem _ hmem))

/-- **A record of named parts.** -/
theorem obeys_closed_eachNamed (hp : Permits env P) {base : Pointer}
    {type : String → Pointer → α → Typing (Member TypeExpr)} {entries : List (String × α)}
    {ms : List (Member TypeExpr)} (hn : (entries.map Prod.fst).Nodup)
    (htype : ∀ e ∈ entries, ∀ m, Gives (type e.1 (base.child e.1) e.2) m → NamedMember P e.1 m)
    (h : Gives (eachNamed env base type entries) ms) : Obeys P (.closed ms) :=
  obeys_closed_of_named hp (nodup_ordered hn) (namedMembers_eachNamed htype h)

theorem namedMember_reference (hp : Permits env P) {name target : String} {p : Pointer}
    {doc : Option String} {m : Member TypeExpr}
    (h : Gives (referenceMember env name p target doc) m) : NamedMember P name m := by
  obtain ⟨q, hq, h⟩ := h.of_bind
  rw [h.of_pure]
  exact namedMember_of (obeys_reference.mpr (hp.reference _ ⟨_, _, hq.of_reference⟩))

end Collections

/-! ## 3. Payloads -/

theorem obeys_mediaType (hp : Permits env P) {p : Pointer} {m : MediaType} {e : TypeExpr}
    (hm : m.UniqueNames) (h : Gives (mediaType env p m) e) : Obeys P e := by
  unfold mediaType at h
  split at h
  · rename_i s hs
    exact obeys_schema hp (hm s hs) h
  · rw [h.of_pure]
    exact obeys_unknown hp.plain

theorem obeys_content (hp : Permits env P) {role : ContentRole} {p : Pointer} {c : Content}
    {e : TypeExpr} (hc : Content.UniqueNames c) (h : Gives (content env role p c) e) :
    Obeys P e := by
  unfold content at h
  split at h
  · rw [h.of_pure]
    exact obeys_never hp.plain
  · split at h
    · rw [h.of_pure]
      exact obeys_void hp.plain
    · obtain ⟨es, hes, h⟩ := h.of_bind
      rw [h.of_pure]
      refine obeys_unionOf hp.plain ?_
      intro e he
      obtain ⟨m, hm, hme⟩ := exists_of_forall₂ hes.of_mapM he
      exact obeys_mediaType hp (hc.parts m hm) hme

theorem obeys_schemaOrContent (hp : Permits env P) {p : Pointer} {s : Option Schema}
    {c : Option Content} {byContent : Content → Typing TypeExpr} {otherwise e : TypeExpr}
    (hv : UniqueValue s c)
    (hc : ∀ c, Content.UniqueNames c → ∀ e, Gives (byContent c) e → Obeys P e)
    (ho : Obeys P otherwise) (h : Gives (schemaOrContent env p s c byContent otherwise) e) :
    Obeys P e := by
  cases s with
  | some s => exact obeys_schema hp (hv.1 s rfl) h
  | none =>
    cases c with
    | some c => exact hc c (hv.2 c rfl) e h
    | none =>
      rw [h.of_pure]
      exact ho

theorem obeys_header (hp : Permits env P) {p : Pointer} {hd : Header} {e : TypeExpr}
    (hu : hd.UniqueNames) (h : Gives (header env p hd) e) : Obeys P e := by
  refine obeys_schemaOrContent hp hu ?_ (obeys_unknown hp.plain) h
  intro c hc e h
  obtain ⟨ms, hms, h⟩ := h.of_bind
  rw [h.of_pure]
  refine obeys_closed_eachNamed hp hc.names (fun m hm member h => ?_) hms
  obtain ⟨type, htype, h⟩ := h.of_bind
  rw [h.of_pure]
  exact namedMember_of (obeys_mediaType hp (hc.parts m hm) htype)

theorem namedMember_header (hp : Permits env P) {name : String} {p : Pointer}
    {part : OrRef Header} {m : Member TypeExpr} (hu : part.All Header.UniqueNames)
    (h : Gives (headerMember env name p part) m) : NamedMember P name m := by
  cases part with
  | ref r => exact namedMember_reference hp h
  | item hd =>
    obtain ⟨type, htype, h⟩ := h.of_bind
    rw [h.of_pure]
    exact namedMember_of (obeys_header hp (hu hd rfl) htype)

/-- **Everything that occurs in the type of a response obeys.** -/
theorem obeys_response (hp : Permits env P) {p : Pointer} {r : Response} {e : TypeExpr}
    (hr : r.UniqueNames) (h : Gives (response env p r) e) : Obeys P e := by
  unfold response at h
  split at h
  · rw [h.of_pure]
    exact obeys_never hp.plain
  · rename_i c hcontent
    obtain ⟨body, hbody, h⟩ := h.of_bind
    have hobeys := obeys_content hp (hr.2 c hcontent) hbody
    split at h
    · rw [h.of_pure]
      exact hobeys
    · obtain ⟨ms, hms, h⟩ := h.of_bind
      rw [h.of_pure]
      exact (obeys_withHeaders hp.plain).mpr ⟨hobeys, obeys_closed_eachNamed hp hr.1.names
        (fun e he _ h => namedMember_header hp (hr.1.parts e he) h) hms⟩

end Typing

end ApiTypes
