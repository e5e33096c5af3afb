/-
# What occurs in the types of a document

The properties of expressions that go through the types of operations and payloads go through
whole documents.  A typed document is made of the typed entries of its sections, its components and
the operations that were registered.  Two things are to be asked for: that the parameters of the
path items that are visited fit, and that the registered operations may be named, as the records of
the sections do.

* `Document.of_typed` takes a typed document apart.
* `Document.Made.exists_registered` finds the operations of the entries among the registered ones.
* `Document.Visits` says which path items are visited.
* `Document.obeys_typed` is the statement.
-/
import ApiTypes.Proofs.Document.PathItems
import ApiTypes.Proofs.Document.Registry
import ApiTypes.Proofs.Typing.ComponentParts
import ApiTypes.Proofs.Typing.Interpolated

namespace ApiTypes

open TypeExpr Typing

/-! ## 1. Typed documents -/

/-- The expressions that occur in the sections of a typed document and in its operations. -/
def TypedDocument.parts (t : TypedDocument) : List TypeExpr :=
  t.paths.parts ++ t.webhooks.parts ++ t.components.parts ++
    t.operations.flatMap fun o => o.type.parts

/-- Everything that occurs in a typed document has a property. -/
def TypedDocument.Obeys (P : TypeExpr → Prop) (t : TypedDocument) : Prop := ∀ x ∈ t.parts, P x

theorem TypedDocument.obeys_iff {P : TypeExpr → Prop} {t : TypedDocument} : t.Obeys P ↔
      TypeExpr.Obeys P t.paths ∧ TypeExpr.Obeys P t.webhooks ∧ TypeExpr.Obeys P t.components ∧
        ∀ o ∈ t.operations, TypeExpr.Obeys P o.type := by
  simp only [TypedDocument.Obeys, TypedDocument.parts, List.forall_mem_append, TypeExpr.Obeys,
    and_assoc, List.mem_flatMap]
  refine and_congr_right fun _ => and_congr_right fun _ => and_congr_right fun _ => ?_
  constructor
  · intro h o ho x hx
    exact h x ⟨o, ho, hx⟩
  · rintro h x ⟨o, ho, hx⟩
    exact h o ho x hx

/-- The typed entries of which a typed document is made. -/
structure Document.Made (d : Document) (config : Config) (t : TypedDocument)
    (paths webhooks : List (Member TypeExpr × List TypedOperation)) : Prop where
  pathEntries : List.Forall₂ (fun e x => Gives (entry ⟨config, d.resolver⟩ .path e.1 (.item e.2)) x)
    (ordered config.alphabetize (d.spec.paths.getD [])) paths
  webhookEntries : List.Forall₂ (fun e x => Gives (entry ⟨config, d.resolver⟩ .webhook e.1 e.2) x)
    (ordered config.alphabetize (d.spec.webhooks.getD [])) webhooks
  pathRecord : t.paths = .closed (paths.map Prod.fst)
  webhookRecord : t.webhooks = .closed (webhooks.map Prod.fst)
  components : Gives (Typing.components ⟨config, d.resolver⟩ (d.spec.components.getD {}))
    t.components
  operations : (paths.flatMap Prod.snd ++ webhooks.flatMap Prod.snd).foldlM Registry.register []
    = .ok t.operations

/-- **A typed document is made of typed entries.** -/
theorem Document.of_typed {d : Document} {config : Config} {t : TypedDocument}
    (h : d.typed config = .ok t) : ∃ paths webhooks, d.Made config t paths webhooks := by
  unfold typed at h
  split at h
  · cases h
  · rename_i hrun
    cases h
    have hgives := (agree_collected d.spec).gives_right (gives_of_run hrun)
    obtain ⟨paths, hpaths, hgives⟩ := hgives.of_bind
    obtain ⟨webhooks, hwebhooks, hgives⟩ := hgives.of_bind
    obtain ⟨c, hc, hgives⟩ := hgives.of_bind
    obtain ⟨operations, hoperations, hgives⟩ := hgives.of_bind
    cases hgives.of_pure
    exact ⟨paths, webhooks, hpaths.of_mapM, hwebhooks.of_mapM, rfl, rfl, hc, hoperations.of_lift⟩

/-! ## 2. Entries and their operations -/

/-- What belongs to a section, given what belongs to the paths and to the webhooks. -/
def RouteKind.of {α : Type} (paths webhooks : α) : RouteKind → α
  | .path => paths
  | .webhook => webhooks

theorem RouteKind.mem_append {α : Type} {paths webhooks : List α} {kind : RouteKind} {x : α}
    (h : x ∈ kind.of paths webhooks) : x ∈ paths ++ webhooks := by
  cases kind with
  | path => exact List.mem_append_left _ h
  | webhook => exact List.mem_append_right _ h

theorem RouteKind.exists_of_mem_append {α : Type} {paths webhooks : List α} {x : α}
    (h : x ∈ paths ++ webhooks) : ∃ kind : RouteKind, x ∈ kind.of paths webhooks := by
  rcases List.mem_append.mp h with h | h
  · exact ⟨.path, h⟩
  · exact ⟨.webhook, h⟩

namespace Document

section Made

variable {d : Document} {config : Config} {t : TypedDocument}
  {paths webhooks : List (Member TypeExpr × List TypedOperation)} {kind : RouteKind}

/-- The record of a section has the members of its entries. -/
theorem Made.sectionRecord (hmade : d.Made config t paths webhooks) :
    kind.of t.paths t.webhooks = .closed ((kind.of paths webhooks).map Prod.fst) := by
  cases kind with
  | path => exact hmade.pathRecord
  | webhook => exact hmade.webhookRecord

/-- Every entry of a section has been typed. -/
theorem Made.exists_entry (hmade : d.Made config t paths webhooks) {name : String}
    {part : OrRef PathItem} (he : d.spec.Entry kind name part) :
    ∃ x ∈ kind.of paths webhooks, Gives (entry ⟨config, d.resolver⟩ kind name part) x := by
  cases kind with
  | path =>
    cases part with
    | ref r => cases he
    | item own =>
      obtain ⟨x, hx, hgives⟩ :=
        exists_of_forall₂ (R := flip _) hmade.pathEntries.flip (mem_ordered.mpr he)
      exact ⟨x, hx, hgives⟩
  | webhook =>
    obtain ⟨x, hx, hgives⟩ :=
      exists_of_forall₂ (R := flip _) hmade.webhookEntries.flip (mem_ordered.mpr he)
    exact ⟨x, hx, hgives⟩

/-- Every typed entry is one of its section. -/
theorem Made.exists_part (hmade : d.Made config t paths webhooks)
    {x : Member TypeExpr × List TypedOperation} (hx : x ∈ kind.of paths webhooks) :
    ∃ name part, d.spec.Entry kind name part ∧
      Gives (entry ⟨config, d.resolver⟩ kind name part) x := by
  cases kind with
  | path =>
    obtain ⟨e, he, hgives⟩ := exists_of_forall₂ hmade.pathEntries hx
    exact ⟨e.1, .item e.2, mem_ordered.mp he, hgives⟩
  | webhook =>
    obtain ⟨e, he, hgives⟩ := exists_of_forall₂ hmade.webhookEntries hx
    exact ⟨e.1, e.2, mem_ordered.mp he, hgives⟩

/-- What was to be registered is what the entries have. -/
theorem Made.registered (hmade : d.Made config t paths webhooks) :
    ((paths ++ webhooks).flatMap Prod.snd).foldlM Registry.register [] = .ok t.operations := by
  rw [List.flatMap_append]
  exact hmade.operations

/-- Every operation of a typed entry is typed from an operation of the path item that the entry
leads to. -/
theorem describes_of_entry (h : d.Loaded) {name : String} {part : OrRef PathItem}
    (he : d.spec.Entry kind name part) {x : Member TypeExpr × List TypedOperation}
    (hgives : Gives (entry ⟨config, d.resolver⟩ kind name part) x) {o : TypedOperation}
    (ho : o ∈ x.2) : ∃ p item op, d.Describes config p item op o := by
  obtain ⟨⟨p, item⟩, hitem, hgives⟩ := hgives.of_bind
  obtain ⟨os, hos, hgives⟩ := hgives.of_bind
  obtain ⟨_, _, hgives⟩ := hgives.of_bind
  rw [hgives.of_pure] at ho
  obtain ⟨hstands, hleads⟩ := h.of_itemOf he hitem
  obtain ⟨op, hop, hoperation⟩ := exists_of_forall₂ hos.of_mapM ho
  exact ⟨p, item, op.2, describes_of_gives hstands hleads hop hoperation⟩

/-- Every operation of the entries is typed from an operation of a path item. -/
theorem Made.exists_describes (h : d.Loaded) (hmade : d.Made config t paths webhooks)
    {o : TypedOperation} (ho : o ∈ (paths ++ webhooks).flatMap Prod.snd) :
    ∃ p item op, d.Describes config p item op o := by
  obtain ⟨x, hx, ho⟩ := List.mem_flatMap.mp ho
  obtain ⟨kind, hx⟩ := RouteKind.exists_of_mem_append hx
  obtain ⟨name, part, he, hgives⟩ := hmade.exists_part hx
  exact describes_of_entry h he hgives ho

/-- An entry that stands for a path item has all operations of the path item. -/
theorem exists_operation_of_entry {name : String} {part : OrRef PathItem} {p : Pointer}
    {item : PathItem} {x : Member TypeExpr × List TypedOperation}
    (hunique : ∀ y, Gives (itemOf ⟨config, d.resolver⟩ (kind.place name) part) y → y = (p, item))
    (hgives : Gives (entry ⟨config, d.resolver⟩ kind name part) x) {o : Method × Operation}
    (ho : o ∈ item.operations) : ∃ s ∈ x.2,
      Gives (operation ⟨config, d.resolver⟩ ⟨kind, name, p, item.parameters⟩ o.1 o.2) s := by
  obtain ⟨y, hy, hgives⟩ := hgives.of_bind
  rw [hunique y hy] at hgives
  obtain ⟨os, hos, hgives⟩ := hgives.of_bind
  obtain ⟨_, _, hgives⟩ := hgives.of_bind
  obtain ⟨s, hs, hoperation⟩ := exists_of_forall₂ (R := flip _) hos.of_mapM.flip ho
  refine ⟨s, ?_, hoperation⟩
  rw [hgives.of_pure]
  exact hs

/-- Every operation of a path item that an entry leads to has been typed for the entry. -/
theorem Made.exists_typed (h : d.Loaded) (hmade : d.Made config t paths webhooks)
    {name : String} {p : Pointer} {item : PathItem} (hstands : d.StandsAt p item)
    (hleads : d.Leads kind name p) {o : Method × Operation} (ho : o ∈ item.operations) :
    ∃ part, d.spec.Entry kind name part ∧ ∃ x ∈ kind.of paths webhooks,
      Gives (entry ⟨config, d.resolver⟩ kind name part) x ∧ ∃ s ∈ x.2,
        Gives (operation ⟨config, d.resolver⟩ ⟨kind, name, p, item.parameters⟩ o.1 o.2) s := by
  obtain ⟨part, he, hunique⟩ := h.eq_of_itemOf hstands hleads
  obtain ⟨x, hx, hgives⟩ := hmade.exists_entry he
  exact ⟨part, he, x, hx, hgives, exists_operation_of_entry hunique hgives ho⟩

/-- **Every operation that was typed for an entry is registered under its name**, perhaps for
another entry that leads to the same path item. -/
theorem Made.exists_registered (h : d.Loaded) (hmade : d.Made config t paths webhooks)
    {p : Pointer} {item : PathItem} {op : Operation} {s : TypedOperation}
    (hs : s ∈ (paths ++ webhooks).flatMap Prod.snd) (hdescribes : d.Describes config p item op s) :
    ∃ known, t.operations.find? s.name = some known ∧ known.location = s.location ∧
      known.method = s.method ∧ d.Describes config p item op known := by
  obtain ⟨known, hknown, hplace⟩ := Registry.placed_of_registered hmade.registered s hs
  obtain ⟨hmem, _⟩ := Registry.mem_of_find? hknown
  obtain ⟨p', item', op', hdescribes'⟩ :=
    hmade.exists_describes h (Registry.mem_of_registered hmade.registered hmem)
  obtain ⟨rfl, rfl, rfl, hmethod⟩ := hdescribes'.same_place hdescribes hplace
  exact ⟨known, hknown, hplace, hmethod, hdescribes'⟩

/-- Every operation of a path item that an entry leads to is registered. -/
theorem Made.exists_described (h : d.Loaded) (hmade : d.Made config t paths webhooks)
    {name : String} {p : Pointer} {item : PathItem} (hstands : d.StandsAt p item)
    (hleads : d.Leads kind name p) {o : Method × Operation} (ho : o ∈ item.operations) :
    ∃ s ∈ t.operations, s.method = o.1 ∧ d.Describes config p item o.2 s := by
  obtain ⟨part, he, x, hx, hgives, s, hs, hoperation⟩ := hmade.exists_typed h hstands hleads ho
  have hmem : s ∈ (paths ++ webhooks).flatMap Prod.snd :=
    List.mem_flatMap.mpr ⟨x, RouteKind.mem_append hx, hs⟩
  have hdescribes := describes_of_gives hstands hleads ho hoperation
  obtain ⟨known, hknown, _, hmethod, hdescribes'⟩ := hmade.exists_registered h hmem hdescribes
  refine ⟨known, (Registry.mem_of_find? hknown).1, ?_, hdescribes'⟩
  exact hmethod.trans hoperation.of_operation.2.2.2.1

end Made

end Document

/-! ## 3. Keys of paths -/

section Keys

variable {P : TypeExpr → Prop}

/-- A type that can stand in a pattern names nothing and has no records in it. -/
theorem obeys_of_interpolated (hplain : ∀ e, e.Plain → P e) {e : TypeExpr}
    (h : e.Interpolated) : TypeExpr.Obeys P e := by
  induction h with
  | primitive p => exact obeys_primitive hplain
  | literal notNull => exact obeys_literal hplain
  | union members ih => exact (obeys_union hplain).mpr ih

theorem obeys_parameterType (hplain : ∀ e, e.Plain → P e) {declared : Option TypeExpr} :
    TypeExpr.Obeys P (PathTemplate.parameterType declared) :=
  obeys_of_interpolated hplain (PathTemplate.interpolated_parameterType declared)

/-- What stands in the pattern of a key is the type of a parameter. -/
theorem exists_parameterType {env : Environment} {kind : RouteKind} {name : String}
    {os : List TypedOperation} {stretches : List (TemplatePart TypeExpr)} {e : TypeExpr}
    (h : routeKey env kind name os = .template stretches) (he : .param e ∈ stretches) :
    ∃ parameter, e = PathTemplate.parameterType
      (PathTemplate.declaredType? (os.flatMap (·.pathParams)) parameter) := by
  cases kind with
  | webhook => cases h
  | path =>
    rw [routeKey, pathKey] at h
    split at h
    · rw [PathTemplate.key] at h
      split at h
      · cases h
        obtain ⟨part, _, hpart⟩ := List.mem_map.mp he
        cases part with
        | text cs => cases hpart
        | parameter cs =>
          cases hpart
          exact ⟨_, rfl⟩
      · cases h
    · cases h

/-- The parameters in the pattern of a key are texts, or have the types that operations declare. -/
theorem param_of_routeKey {env : Environment} {kind : RouteKind} {name : String}
    {os : List TypedOperation} {stretches : List (TemplatePart TypeExpr)} {e : TypeExpr}
    (h : routeKey env kind name os = .template stretches) (he : .param e ∈ stretches) :
    e = .primitive .string ∨ ∃ o ∈ os, ∃ q ∈ o.pathParams, e = q.2 := by
  obtain ⟨parameter, rfl⟩ := exists_parameterType h he
  unfold PathTemplate.parameterType PathTemplate.declaredType?
  cases hlookup : (os.flatMap (·.pathParams)).lookup parameter with
  | none => exact .inl rfl
  | some e =>
    obtain ⟨before, after, heq, _⟩ := List.lookup_eq_some_iff.mp hlookup
    have hmem : (parameter, e) ∈ os.flatMap (·.pathParams) := by simp [heq]
    obtain ⟨o, ho, hq⟩ := List.mem_flatMap.mp hmem
    rw [Option.filter_some]
    split
    · exact .inr ⟨o, ho, _, hq, rfl⟩
    · exact .inl rfl

/-- The key of an entry brings nothing into its member. -/
theorem memberObeys_route (hplain : ∀ e, e.Plain → P e) {env : Environment} {kind : RouteKind}
    {name : String} {os : List TypedOperation} {type : TypeExpr} {doc : Option String}
    (h : TypeExpr.Obeys P type) :
    MemberObeys P (memberFor env (routeKey env kind name os) type doc) := by
  have hkey : ∀ x ∈ keyParts (routeKey env kind name os), P x := by
    intro x hx
    cases hroute : routeKey env kind name os with
    | name => simp [hroute, keyParts] at hx
    | template stretches =>
      rw [hroute, keyParts, mem_templateParts] at hx
      obtain ⟨s, hs, hx⟩ := hx
      cases s with
      | text text => cases hx
      | param e =>
        obtain ⟨_, rfl⟩ := exists_parameterType hroute hs
        exact obeys_parameterType hplain x hx
  intro x hx
  rcases List.mem_append.mp hx with hx | hx
  · exact hkey x hx
  · exact h x hx

end Keys

/-- Whether the entry of a section stands under a pattern there, and not under its name. -/
def Config.patternKey (config : Config) (kind : RouteKind) (name : String) : Bool :=
  kind = .path && config.pathParamsAsTypes &&
    (PathTemplate.parts name.toList).any PathTemplate.Part.isParameter

theorem name?_routeKey {env : Environment} {kind : RouteKind} {name : String}
    {os : List TypedOperation} {m : Member TypeExpr} (h : m.key = routeKey env kind name os) :
    m.name? = if env.config.patternKey kind name then none else some name := by
  rw [Member.name?, h, Config.patternKey]
  cases kind with
  | webhook => rfl
  | path =>
    rw [routeKey, pathKey]
    by_cases hconfig : env.config.pathParamsAsTypes = true
    · rw [if_pos hconfig, PathTemplate.key, hconfig]
      by_cases hparts : (PathTemplate.parts name.toList).any PathTemplate.Part.isParameter = true
      · rw [if_pos hparts, hparts]
        rfl
      · rw [if_neg hparts, Bool.eq_false_iff.mpr hparts]
        rfl
    · rw [if_neg hconfig, Bool.eq_false_iff.mpr hconfig]
      rfl

/-- The names in the record of a section are those of the entries that do not stand under a
pattern. -/
theorem names_of_entries {α : Type} {env : Environment} {kind : RouteKind}
    {part : String × α → OrRef PathItem} {entries : List (String × α)}
    {xs : List (Member TypeExpr × List TypedOperation)}
    (h : List.Forall₂ (fun e x => Gives (entry env kind e.1 (part e)) x) entries xs) :
    (xs.map Prod.fst).filterMap Member.name?
      = (entries.map Prod.fst).filter fun name => !env.config.patternKey kind name := by
  induction h with
  | nil => rfl
  | cons hx _ ih =>
    rename_i e _ _ _ _
    obtain ⟨os, hkey⟩ := key_of_entry hx
    rw [List.map_cons, List.map_cons, List.filterMap_cons, List.filter_cons, name?_routeKey hkey,
      ih]
    cases env.config.patternKey kind e.1 with
    | true => rfl
    | false => rfl

/-! ## 4. Visited path items -/

namespace Document

/-- The path items that are typed: those that entries lead to, and those among the components. -/
def Visits (d : Document) (p : Pointer) (item : PathItem) : Prop :=
  (d.StandsAt p item ∧ ∃ kind name, d.Leads kind name p) ∨
    ∃ name, (name, .item item) ∈ ((d.spec.components.getD {}).pathItems.getD []) ∧
      p = ((Pointer.root.child "components").child "pathItems").child name

variable {d : Document} {config : Config} {P : TypeExpr → Prop}

theorem StandsAt.uniqueNames (hk : d.raw.UniqueKeys) {p : Pointer} {item : PathItem}
    (h : d.StandsAt p item) : item.UniqueNames := by
  obtain ⟨v, hv, hitem⟩ := h
  exact Decode.ensures_pathItem v item (hk.find? hv) hitem

section

variable (hp : Permits ⟨config, d.resolver⟩ P) (h : d.Loaded)
  (hfit : ∀ p item, d.Visits p item → ParameterLists ⟨config, d.resolver⟩ (Fits P) p item)

include hp h hfit

/-- Everything in the types of the operations of an entry obeys, and everything in its member, if
the operations may be named. -/
theorem obeys_entry {kind : RouteKind} {name : String} {part : OrRef PathItem}
    {x : Member TypeExpr × List TypedOperation} (he : d.spec.Entry kind name part)
    (hx : Gives (entry ⟨config, d.resolver⟩ kind name part) x) :
    ((∀ o ∈ x.2, P (.operation o.name)) → MemberObeys P x.1) ∧
      ∀ o ∈ x.2, o.Obeys P := by
  obtain ⟨⟨p, item⟩, hitem, hx⟩ := hx.of_bind
  obtain ⟨os, hos, hx⟩ := hx.of_bind
  obtain ⟨type, htype, hx⟩ := hx.of_bind
  rw [hx.of_pure]
  obtain ⟨hstands, hleads⟩ := h.of_itemOf he hitem
  have hunique := hstands.uniqueNames h.uniqueKeys
  have hitemFits := hfit p item (Or.inl ⟨hstands, kind, name, hleads⟩)
  obtain ⟨hnames, hobeys⟩ := obeys_operationsOf hp h.uniqueKeys hunique hitemFits hos
  refine ⟨fun hnamed => memberObeys_route hp.plain ?_, hobeys⟩
  exact obeys_pathRecord hp h.uniqueKeys hunique hitemFits hnames
    (fun o ho => TypeExpr.obeys_operation.mpr (hnamed o ho)) htype

/-- The record of a section. -/
theorem obeys_section {α : Type} {kind : RouteKind} {part : String × α → OrRef PathItem}
    {entries : List (String × α)} {xs : List (Member TypeExpr × List TypedOperation)}
    (he : ∀ e ∈ entries, d.spec.Entry kind e.1 (part e)) (hn : (entries.map Prod.fst).Nodup)
    (hxs : List.Forall₂ (fun e x => Gives (entry ⟨config, d.resolver⟩ kind e.1 (part e)) x)
      entries xs) :
    ((∀ o ∈ xs.flatMap Prod.snd, P (.operation o.name)) →
      TypeExpr.Obeys P (.closed (xs.map Prod.fst))) ∧
        ∀ o ∈ xs.flatMap Prod.snd, o.Obeys P := by
  constructor
  · intro hnamed
    refine obeys_closed.mpr ⟨hp.record _ ?_, ?_⟩
    · rw [Record.names, names_of_entries hxs]
      exact hn.sublist List.filter_sublist
    · rw [List.forall_mem_map]
      intro x hx
      obtain ⟨e, hmem, hgives⟩ := exists_of_forall₂ hxs hx
      exact (obeys_entry hp h hfit (he e hmem) hgives).1 fun o ho =>
        hnamed o (List.mem_flatMap.mpr ⟨x, hx, ho⟩)
  · intro o ho
    obtain ⟨x, hx, ho⟩ := List.mem_flatMap.mp ho
    obtain ⟨e, hmem, hgives⟩ := exists_of_forall₂ hxs hx
    exact (obeys_entry hp h hfit (he e hmem) hgives).2 o ho

/-- Everything that occurs in the types of the components and of the registered operations obeys. -/
theorem obeys_inner {t : TypedDocument} (ht : d.typed config = .ok t) :
    TypeExpr.Obeys P t.components ∧ ∀ o ∈ t.operations, o.Obeys P := by
  obtain ⟨paths, webhooks, hmade⟩ := of_typed ht
  have hunique := h.uniqueNames
  constructor
  · refine Typing.obeys_components hp h.uniqueKeys hunique.components (fun name item hmem => ?_)
      hmade.components
    exact hfit _ item (Or.inr ⟨name, hmem, rfl⟩)
  intro o ho
  rcases List.mem_append.mp (Registry.mem_of_registered hmade.operations ho) with ho | ho
  · exact (obeys_section hp h hfit (fun e he => mem_ordered.mp he)
      (nodup_ordered hunique.1.nodup) hmade.pathEntries).2 o ho
  · exact (obeys_section hp h hfit (fun e he => mem_ordered.mp he)
      (nodup_ordered hunique.2.1.nodup) hmade.webhookEntries).2 o ho

/-- **Everything that occurs in the types of a document obeys**, if the parameters of the path
items that are visited fit and the registered operations may be named. -/
theorem obeys_typed {t : TypedDocument} (ht : d.typed config = .ok t)
    (hnamed : ∀ o ∈ t.operations, P (.operation o.name)) : t.Obeys P := by
  obtain ⟨paths, webhooks, hmade⟩ := of_typed ht
  have hunique := h.uniqueNames
  have hlisted : ∀ o ∈ paths.flatMap Prod.snd ++ webhooks.flatMap Prod.snd,
      P (.operation o.name) := by
    intro o ho
    obtain ⟨known, hknown, -⟩ := Registry.placed_of_registered hmade.operations o ho
    obtain ⟨hmem, hname⟩ := Registry.mem_of_find? hknown
    exact hname ▸ hnamed known hmem
  rw [TypedDocument.obeys_iff, hmade.pathRecord, hmade.webhookRecord]
  obtain ⟨hcomponents, hoperations⟩ := obeys_inner hp h hfit ht
  refine ⟨?_, ?_, hcomponents, fun o ho => (hoperations o ho).1⟩
  · exact (obeys_section hp h hfit (fun e he => mem_ordered.mp he)
      (nodup_ordered hunique.1.nodup) hmade.pathEntries).1 fun o ho =>
        hlisted o (List.mem_append_left _ ho)
  · exact (obeys_section hp h hfit (fun e he => mem_ordered.mp he)
      (nodup_ordered hunique.2.1.nodup) hmade.webhookEntries).1 fun o ho =>
        hlisted o (List.mem_append_right _ ho)

end

end Document

end ApiTypes
