/-
# The order of siblings in a document

One option sorts the parts of a description that have no order of their own.  It changes the
order in which entries are visited, and with it the order in which operations are registered,
duplicates are compared and references recorded; but none of this shows in the outcome.  Either
both orders fail, or both succeed with types that are equal up to the order of siblings, the same
references and registries that have the same operations under the same names.

* `Document.Alike` says how far two typings of a document may differ.
* `Document.alike_of_alphabetize` is the statement.
-/
import ApiTypes.Proofs.Document.PathItems
import ApiTypes.Proofs.Document.Registry
import Mathlib

namespace ApiTypes

open Typing

/-! ## 1. Typed documents that are alike -/

/-- Two typings of an operation of a document are equal up to the orders of its responses.  Only
if the operation belongs to a path item that several entries share by reference may it be
registered for two of them. -/
structure TypedOperation.Alike (d : Document) (s t : TypedOperation) : Prop where
  name : s.name = t.name
  location : s.location = t.location
  kind : s.kind = t.kind
  method : s.method = t.method
  tags : s.tags = t.tags
  pathParams : s.pathParams = t.pathParams
  headerParams : s.headerParams = t.headerParams
  cookieParams : s.cookieParams = t.cookieParams
  doc : s.doc = t.doc
  type : ∃ p item op, s.location = p.child s.method.name ∧ d.StandsAt p item ∧
    (s.method, op) ∈ item.operations ∧ op.Alike s.type t.type
  path : s.path = t.path ∨ ∃ p, s.location = p.child s.method.name ∧
    d.Leads s.kind s.path p ∧ d.Leads s.kind t.path p ∧
    (d.RefersTo s.kind s.path p ∨ d.RefersTo s.kind t.path p)

/-- Two typings of a document are equal up to the order of siblings. -/
structure Document.Alike (d : Document) (s t : TypedDocument) : Prop where
  paths : ∃ ms ns, s.paths = .closed ms ∧ t.paths = .closed ns ∧ ms.Perm ns
  webhooks : ∃ ms ns, s.webhooks = .closed ms ∧ t.webhooks = .closed ns ∧ ms.Perm ns
  components : (d.spec.components.getD {}).Alike s.components t.components
  names : (s.operations.map (·.name)).Perm (t.operations.map (·.name))
  operations : ∀ name,
    Option.Rel (TypedOperation.Alike d) (s.operations.find? name) (t.operations.find? name)
  referenced : s.referenced = t.referenced

/-- Two outcomes of the typing of a document: both fail, or both succeed and are alike. -/
inductive Document.SameOutcome (d : Document) :
    Except Fault TypedDocument → Except Fault TypedDocument → Prop
  | ok {s t : TypedDocument} (alike : d.Alike s t) : SameOutcome d (.ok s) (.ok t)
  | error (e e' : Fault) : SameOutcome d (.error e) (.error e')

/-! ## 2. Operations of one section -/

/-- Two typings of an operation of a document, in the two orders of siblings. -/
structure Typing.Twins (d : Document) (config : Config) (alphabetize : Bool) (kind : RouteKind)
    (s t : TypedOperation) : Prop where
  kind : s.kind = kind
  described : ∃ p item op, d.Describes config p item op s ∧
    d.Describes { config with alphabetize } p item op t ∧ s.SameButType op.Alike t

theorem Typing.Twins.same {d : Document} {config : Config} {alphabetize : Bool} {kind : RouteKind}
    {s t : TypedOperation} (h : Twins d config alphabetize kind s t) :
    s.name = t.name ∧ s.location = t.location := by
  obtain ⟨_, _, _, _, _, _, hsame⟩ := h
  exact ⟨hsame.name, hsame.location⟩

/-- Every operation of either list has a twin in the other. -/
def Typing.AllTwins (d : Document) (config : Config) (alphabetize : Bool) (kind : RouteKind)
    (os os' : List TypedOperation) : Prop :=
  (∀ s ∈ os, ∃ t ∈ os', Twins d config alphabetize kind s t) ∧
    ∀ t ∈ os', ∃ s ∈ os, Twins d config alphabetize kind s t

variable {d : Document} {config : Config} {alphabetize : Bool} {kind : RouteKind}
  {os os' : List TypedOperation}

/-- Operations that are typed at one location differ at most in what their entry says of them. -/
theorem Document.Describes.eq_of_location {p : Pointer} {item : PathItem} {op : Operation}
    {s t : TypedOperation} (hs : d.Describes config p item op s)
    (ht : d.Describes config p item op t) (hplace : s.location = t.location) :
    t = { s with name := t.name, kind := t.kind, path := t.path } := by
  obtain ⟨_, _, _, hmethod⟩ := hs.same_place ht hplace
  have hgives := ht.gives
  rw [← hmethod] at hgives
  exact (agree_operation_site op).gives hs.gives hgives

theorem Typing.Twins.alike {s t t' : TypedOperation} (h : Twins d config alphabetize kind s t)
    (h' : ∃ s', Twins d config alphabetize kind s' t') (hname : s.name = t'.name)
    (hplace : t.location = t'.location) : s.Alike d t' := by
  obtain ⟨hkind, p, item, op, hs, ht, hsame⟩ := h
  obtain ⟨s', hkind', p', item', op', _, ht', hsame'⟩ := h'
  obtain ⟨rfl, rfl, rfl, _⟩ := ht.same_place ht' hplace
  have hk : s.kind = t'.kind := hkind.trans (hkind'.symm.trans hsame'.kind)
  have heq := ht.eq_of_location ht' hplace
  refine ⟨hname, hsame.location.trans hplace, hk, ?_, ?_, ?_, ?_, ?_, ?_, ?_, ?_⟩
  · rw [heq, hsame.method]
  · rw [heq, hsame.tags]
  · rw [heq, hsame.pathParams]
  · rw [heq, hsame.headerParams]
  · rw [heq, hsame.cookieParams]
  · rw [heq, hsame.doc]
  · refine ⟨p, item, op, hs.location, hs.stands, hs.declared, ?_⟩
    rw [heq]
    exact hsame.type
  · have hleads := ht'.leads
    rw [← hk] at hleads
    rcases hs.leads.eq_or_refersTo hleads with h | h
    · exact Or.inl h
    · exact Or.inr ⟨p, hs.location, hs.leads, hleads, h⟩

/-- **Under one name the two orders have one operation**, perhaps registered for two entries. -/
theorem Typing.AllTwins.find? (h : AllTwins d config alphabetize kind os os')
    (hone : Registry.OnePlace os') (name : String) :
    Option.Rel (TypedOperation.Alike d) (Registry.find? os name) (Registry.find? os' name) := by
  cases hs : Registry.find? os name with
  | none =>
    cases ht : Registry.find? os' name with
    | none => exact .none
    | some t =>
      obtain ⟨hmem, hname⟩ := Registry.mem_of_find? ht
      obtain ⟨s, hmem', htwins⟩ := h.2 t hmem
      obtain ⟨o, ho⟩ := Registry.find?_isSome_of_mem hmem'
      rw [htwins.same.1, hname, hs] at ho
      cases ho
  | some s =>
    obtain ⟨hmem, hname⟩ := Registry.mem_of_find? hs
    obtain ⟨t, hmem', htwins⟩ := h.1 s hmem
    obtain ⟨t', ht'⟩ := Registry.find?_isSome_of_mem hmem'
    obtain ⟨hmem'', hname'⟩ := Registry.mem_of_find? ht'
    have htname : t.name = t'.name := hname'.symm
    rw [← htwins.same.1, hname] at ht' hname'
    rw [ht']
    obtain ⟨s', _, htwins'⟩ := h.2 t' hmem''
    exact .some (htwins.alike ⟨s', htwins'⟩ (hname.trans hname'.symm)
      (hone t hmem' t' hmem'' htname))

/-- Whether operations of one name stand in one place does not depend on the order. -/
theorem Typing.AllTwins.onePlace_iff {kind' : RouteKind} {ws ws' : List TypedOperation}
    (h : AllTwins d config alphabetize kind os os')
    (hw : AllTwins d config alphabetize kind' ws ws') :
    Registry.OnePlace (os ++ ws) ↔ Registry.OnePlace (os' ++ ws') := by
  have hleft : ∀ s ∈ os ++ ws, ∃ t ∈ os' ++ ws', s.name = t.name ∧ s.location = t.location := by
    intro s hs
    rcases List.mem_append.mp hs with hs | hs
    · obtain ⟨t, ht, htwins⟩ := h.1 s hs
      exact ⟨t, List.mem_append_left _ ht, htwins.same⟩
    · obtain ⟨t, ht, htwins⟩ := hw.1 s hs
      exact ⟨t, List.mem_append_right _ ht, htwins.same⟩
  have hright : ∀ t ∈ os' ++ ws', ∃ s ∈ os ++ ws, s.name = t.name ∧ s.location = t.location := by
    intro t ht
    rcases List.mem_append.mp ht with ht | ht
    · obtain ⟨s, hs, htwins⟩ := h.2 t ht
      exact ⟨s, List.mem_append_left _ hs, htwins.same⟩
    · obtain ⟨s, hs, htwins⟩ := hw.2 t ht
      exact ⟨s, List.mem_append_right _ hs, htwins.same⟩
  constructor
  · intro hone t ht t' ht' hname
    obtain ⟨s, hs, hsn, hsl⟩ := hright t ht
    obtain ⟨s', hs', hsn', hsl'⟩ := hright t' ht'
    rw [← hsl, ← hsl']
    exact hone s hs s' hs' (by rw [hsn, hsn', hname])
  · intro hone s hs s' hs' hname
    obtain ⟨t, ht, htn, htl⟩ := hleft s hs
    obtain ⟨t', ht', htn', htl'⟩ := hleft s' hs'
    rw [htl, htl']
    exact hone t ht t' ht' (by rw [← htn, ← htn', hname])

/-! ## 3. Sections -/

section Sections

variable (h : d.Loaded)

include h

theorem allTwins_of_entryTwins {name : String} {part : OrRef PathItem}
    {x y : Member TypeExpr × List TypedOperation} (he : d.spec.Entry kind name part)
    (hxy : EntryTwins ⟨config, d.resolver⟩ (Environment.shown ⟨config, d.resolver⟩ alphabetize)
      kind name part x y) : AllTwins d config alphabetize kind x.2 y.2 := by
  obtain ⟨_, p, item, hitem, hstep⟩ := hxy
  obtain ⟨hstands, hleads⟩ := h.of_itemOf he hitem
  have htwins : ∀ o ∈ item.operations, ∀ s t,
      OperationTwins ⟨config, d.resolver⟩ (Environment.shown ⟨config, d.resolver⟩ alphabetize)
        ⟨kind, name, p, item.parameters⟩ o s t → Twins d config alphabetize kind s t := by
    intro o ho s t hst
    obtain ⟨_, _, hkind, _, _⟩ := hst.left.of_operation
    exact ⟨hkind, p, item, o.2, Document.describes_of_gives hstands hleads ho hst.left,
      Document.describes_of_gives hstands hleads ho hst.right, hst.same⟩
  refine ⟨fun s hs => ?_, fun t ht => ?_⟩
  · obtain ⟨o, ho, t, ht, hst⟩ := hstep.exists_of_mem_left s hs
    exact ⟨t, ht, htwins o ho s t hst⟩
  · obtain ⟨o, ho, s, hs, hst⟩ := hstep.exists_of_mem_right t ht
    exact ⟨s, hs, htwins o ho s t hst⟩

/-- The entries of a section in two orders: the members are the same, and so are the operations up
to their types. -/
theorem agree_entries {α : Type} {part : String × α → OrRef PathItem}
    {entries : List (String × α)} (he : ∀ e ∈ entries, d.spec.Entry kind e.1 (part e)) :
    Agree (fun xs ys => (xs.map Prod.fst).Perm (ys.map Prod.fst) ∧
        AllTwins d config alphabetize kind (xs.flatMap Prod.snd) (ys.flatMap Prod.snd))
      ((ordered config.alphabetize entries).mapM fun e =>
        entry ⟨config, d.resolver⟩ kind e.1 (part e))
      ((ordered alphabetize entries).mapM fun e =>
        entry (Environment.shown ⟨config, d.resolver⟩ alphabetize) kind e.1 (part e)) := by
  refine (agree_rearranged (ordered_perm _ _) (ordered_perm _ _)
    fun e _ => agree_entry (part e)).mono fun xs ys hxy => ⟨?_, ?_, ?_⟩
  · exact (hxy.map fun _ _ _ h => h.1).perm
  · intro s hs
    obtain ⟨x, hx, hs⟩ := List.mem_flatMap.mp hs
    obtain ⟨e, hmem, y, hy, hxy⟩ := hxy.exists_of_mem_left x hx
    obtain ⟨t, ht, htwins⟩ := (allTwins_of_entryTwins h (he e hmem) hxy).1 s hs
    exact ⟨t, List.mem_flatMap.mpr ⟨y, hy, ht⟩, htwins⟩
  · intro t ht
    obtain ⟨y, hy, ht⟩ := List.mem_flatMap.mp ht
    obtain ⟨e, hmem, x, hx, hxy⟩ := hxy.exists_of_mem_right y hy
    obtain ⟨s, hs, htwins⟩ := (allTwins_of_entryTwins h (he e hmem) hxy).2 t ht
    exact ⟨s, List.mem_flatMap.mpr ⟨x, hx, hs⟩, htwins⟩

end Sections

/-- Operations that can be registered in either order. -/
theorem agree_registered (h : Registry.OnePlace os ↔ Registry.OnePlace os') :
    Agree (fun r r' => os.foldlM Registry.register [] = .ok r ∧
        os'.foldlM Registry.register [] = .ok r')
      (registerAll [] os) (registerAll [] os') := by
  rw [← Registry.registers_iff, ← Registry.registers_iff] at h
  unfold registerAll
  cases hr : os.foldlM Registry.register [] with
  | ok r =>
    obtain ⟨r', hr'⟩ := h.mp ⟨r, hr⟩
    rw [hr']
    exact agree_pure ⟨rfl, rfl⟩
  | error e =>
    cases hr' : os'.foldlM Registry.register [] with
    | ok r' =>
      obtain ⟨r, hok⟩ := h.mpr ⟨r', hr'⟩
      rw [hr] at hok
      cases hok
    | error e' => exact agree_throw

/-! ## 4. Documents -/

/-- The outcomes of the typing of a description in two orders, before the references are
counted. -/
def Document.AlikeSections (d : Document) (x y : TypeExpr × TypeExpr × TypeExpr × Registry) :
    Prop :=
  (∃ ms ns, x.1 = .closed ms ∧ y.1 = .closed ns ∧ ms.Perm ns) ∧
    (∃ ms ns, x.2.1 = .closed ms ∧ y.2.1 = .closed ns ∧ ms.Perm ns) ∧
    (d.spec.components.getD {}).Alike x.2.2.1 y.2.2.1 ∧
    (x.2.2.2.map (·.name)).Perm (y.2.2.2.map (·.name)) ∧
    ∀ name, Option.Rel (TypedOperation.Alike d) (x.2.2.2.find? name) (y.2.2.2.find? name)

theorem rel_or {α β : Type} {R : α → β → Prop} {a a' : Option α} {b b' : Option β}
    (h : Option.Rel R a b) (h' : Option.Rel R a' b') : Option.Rel R (a.or a') (b.or b') := by
  cases h with
  | none => exact h'
  | some hR => exact .some hR

/-- Registries with the same operations up to `Alike` have the same names. -/
theorem perm_names {R : TypedOperation → TypedOperation → Prop} {r r' : Registry}
    (hr : (r.map (·.name)).Nodup) (hr' : (r'.map (·.name)).Nodup)
    (h : ∀ name, Option.Rel R (r.find? name) (r'.find? name)) :
    (r.map (·.name)).Perm (r'.map (·.name)) := by
  refine (List.perm_ext_iff_of_nodup hr hr').mpr fun name => ?_
  rw [Registry.mem_names_iff, Registry.mem_names_iff]
  have hname := h name
  generalize r.find? name = x at hname ⊢
  generalize r'.find? name = y at hname ⊢
  cases hname with
  | none => exact Iff.rfl
  | some _ => exact Iff.rfl

theorem agree_collected_shown (h : d.Loaded) :
    Agree d.AlikeSections (collected ⟨config, d.resolver⟩ d.spec)
      (collected (Environment.shown ⟨config, d.resolver⟩ alphabetize) d.spec) := by
  have hpath : ∀ e ∈ d.spec.paths.getD [], d.spec.Entry .path e.1 (.item e.2) := fun _ he => he
  have hwebhook : ∀ e ∈ d.spec.webhooks.getD [], d.spec.Entry .webhook e.1 e.2 := fun _ he => he
  unfold collected
  refine (agree_entries h hpath).bind ?_
  rintro xs ys ⟨hpaths, hpathOps⟩
  refine (agree_entries h hwebhook).bind ?_
  rintro ws ws' ⟨hwebhooks, hwebhookOps⟩
  refine (agree_components _).bind fun c c' hc => ?_
  refine (agree_registered (hpathOps.onePlace_iff hwebhookOps)).bind ?_
  rintro r r' ⟨hr, hr'⟩
  have hone : Registry.OnePlace (ys.flatMap Prod.snd ++ ws'.flatMap Prod.snd) :=
    Registry.registers_iff.mp ⟨r', hr'⟩
  have hfind : ∀ name,
      Option.Rel (TypedOperation.Alike d) (Registry.find? r name) (Registry.find? r' name) := by
    intro name
    rw [Registry.find?_registered hr, Registry.find?_registered hr', Registry.find?, Registry.find?,
      List.find?_append, List.find?_append]
    refine rel_or (hpathOps.find? ?_ name) (hwebhookOps.find? ?_ name)
    · exact fun o ho o' ho' => hone o (List.mem_append_left _ ho) o' (List.mem_append_left _ ho')
    · exact fun o ho o' ho' => hone o (List.mem_append_right _ ho) o' (List.mem_append_right _ ho')
  refine agree_pure ⟨⟨_, _, rfl, rfl, hpaths⟩, ⟨_, _, rfl, rfl, hwebhooks⟩, hc, ?_, hfind⟩
  exact perm_names (Registry.nodup_registered hr) (Registry.nodup_registered hr') hfind

/-- **Sorting siblings changes their order and nothing else**: a loaded document has types with and
without it or in neither case, and then they are alike. -/
theorem Document.alike_of_alphabetize (d : Document) (h : d.Loaded) (config : Config)
    (alphabetize : Bool) : d.SameOutcome (d.typed config) (d.typed { config with alphabetize }) := by
  have hagree : Agree d.AlikeSections (Typing.spec ⟨config, d.resolver⟩ d.spec)
      (Typing.spec (Environment.shown ⟨config, d.resolver⟩ alphabetize) d.spec) :=
    (agree_collected d.spec).eq_comp
      ((agree_collected_shown h).comp_eq ((agree_collected d.spec).symm.mono fun _ _ => Eq.symm))
  unfold Document.typed
  rcases hagree.run with ⟨x, y, refs, hx, hy, hxy⟩ | ⟨e, e', refs, refs', hx, hy⟩
  · have hy : (Typing.spec ⟨{ config with alphabetize }, d.resolver⟩ d.spec).run
        = (.ok y, refs) := hy
    rw [hx, hy]
    obtain ⟨hpaths, hwebhooks, hc, hnames, hfind⟩ := hxy
    exact .ok ⟨hpaths, hwebhooks, hc, hnames, hfind, rfl⟩
  · have hy : (Typing.spec ⟨{ config with alphabetize }, d.resolver⟩ d.spec).run
        = (.error e', refs') := hy
    rw [hx, hy]
    exact .error e e'

/-- A value that spells a document with two paths that refer to one path item. -/
def sharedRaw : Json := .object [("openapi", .string "3.1.0"),
  ("paths", .object [("/b", .object [("$ref", .string "#/x-item")]),
    ("/a", .object [("$ref", .string "#/x-item")])]),
  ("x-item", .object [("get", .object [("operationId", .string "list")])])]

/-- The document that the value spells. -/
def sharedDocument : Document where
  raw := sharedRaw
  spec := {
    openapi := "3.1.0"
    paths := some [("/b", { reference := some "#/x-item" }),
      ("/a", { reference := some "#/x-item" })] }

theorem loaded_sharedDocument : sharedDocument.Loaded :=
  ⟨sharedRaw, Json.uniqueKeys_of_distinct (by cbv), by cbv⟩

/-- The paths for which the operations of a document are registered. -/
def registeredPaths (config : Config) (d : Document) : Option (List String) :=
  (d.typed config).toOption.map fun t => t.operations.map (·.path)

/-- The operation that two paths share is registered for the one that comes first. -/
theorem alike_sharedDocument : sharedDocument.Loaded ∧
    registeredPaths {} sharedDocument = some ["/b"] ∧
    registeredPaths { alphabetize := true } sharedDocument = some ["/a"] ∧
    sharedDocument.SameOutcome (sharedDocument.typed {})
      (sharedDocument.typed { alphabetize := true }) :=
  ⟨loaded_sharedDocument, by cbv, by cbv,
    sharedDocument.alike_of_alphabetize loaded_sharedDocument {} true⟩

end ApiTypes
