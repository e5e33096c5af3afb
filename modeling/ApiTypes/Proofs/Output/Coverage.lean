/-
# What the catalog covers

The catalog is made from the registry, which has an operation once even if several paths lead to
its path item.  So the catalog has every method of every path: an operation that is called by its
path is listed under each path that leads to it, any other one under the first of these paths.

* `Output.Lists`: the files of a tag list a method under a path.
* `Document.ListsUnder` says under which path an operation is listed.
* `Document.Made.listsUnder` says so of the operation that is registered first.
* `Document.exists_listed` finds the registered operation, and the path for which it is registered.
* `Document.catalogs_of_output` is the statement.
* `not_catalogs_sharedDocument`: of two paths that share a path item only one is listed.
-/
import ApiTypes.Output.Basic
import ApiTypes.Proofs.Document.Order
import ApiTypes.Proofs.Document.Operations
import ApiTypes.Proofs.Output.Files

namespace ApiTypes

open Typing

/-! ## 1. Coverage -/

/-- An operation has a tag; one that declares none has the default tag. -/
def Operation.Tagged (o : Operation) (tag : String) : Prop :=
  tag ∈ o.tags ∨ o.tags = [] ∧ tag = "default"

/-- The two files of a stem list a method under a path, with the operation that it invokes and the
names of its headers and cookies. -/
def Output.Lists (out : Output) (stem path : String) (method : Method) (name : String)
    (headers cookies : List String) : Prop :=
  (∃ text, out.files.lookup (Catalog.apiName stem) = some text ∧
      Catalog.Invokes text path method name) ∧
    ∃ text, out.files.lookup (Catalog.dataName stem) = some text ∧
      Catalog.Holds text path method headers cookies

namespace Document

/-- A path leads to an operation that has a tag. -/
def UsesTag (d : Document) (tag : String) : Prop :=
  ∃ url p item o, d.Leads .path url p ∧ d.StandsAt p item ∧ o ∈ item.operations ∧ o.2.Tagged tag

/-- A path is the first that leads to a pointer, in the order in which the paths are shown. -/
def FirstPath (d : Document) (config : Config) (path : String) (p : Pointer) : Prop :=
  ∃ before own after,
    ordered config.alphabetize (d.spec.paths.getD []) = before ++ (path, own) :: after ∧
      d.Leads .path path p ∧ ∀ e ∈ before, ¬ d.Leads .path e.1 p

/-- An operation to which a path leads is listed under that path if it is called by it, else under
the first path that leads to it. -/
def ListsUnder (d : Document) (config : Config) (url : String) (p : Pointer) (o : Operation)
    (path : String) : Prop :=
  (o.operationId = none ∧ path = url) ∨ (o.operationId ≠ none ∧ d.FirstPath config path p)

/-- The catalog lists every method of every path for each tag of its operation, under a path that
is told by `Under`; each tag has files of its own. -/
structure Catalogs (d : Document) (config : Config) (out : Output)
    (Under : String → Pointer → Operation → String → Prop) (stemOf : String → String) : Prop where
  /-- The stem of a tag is its file name, perhaps with a number. -/
  stem : ∀ tag, ∃ n, stemOf tag = Naming.numbered (Naming.fileStem tag) n
  /-- Tags do not share their files. -/
  apart : ∀ tag tag', d.UsesTag tag → d.UsesTag tag' → stemOf tag = stemOf tag' → tag = tag'
  /-- Every path leads to a path item, whose operations are listed. -/
  lists : ∀ url own, (url, own) ∈ d.spec.paths.getD [] →
    ∃ p item, d.Leads .path url p ∧ d.StandsAt p item ∧ ∀ o ∈ item.operations,
      ∃ es, Gives (effectiveParameters ⟨config, d.resolver⟩ ⟨.path, url, p, item.parameters⟩
          (p.child o.1.name) o.2) es ∧
        ∀ tag, o.2.Tagged tag → ∃ path, Under url p o.2 path ∧
          out.Lists (stemOf tag) path o.1 (operationKey .path url p item o)
            (namesIn .header es) (namesIn .cookie es)

variable {d : Document} {config : Config} {t : TypedDocument}
  {paths webhooks : List (Member TypeExpr × List TypedOperation)} {url name : String}
  {p : Pointer} {item : PathItem} {o : Method × Operation}

/-! ## 2. The path of a registered operation -/

/-- A path has one entry. -/
theorem Loaded.entry_unique (h : d.Loaded) {part part' : OrRef PathItem}
    (he : d.spec.Entry .path url part) (he' : d.spec.Entry .path url part') : part = part' := by
  cases part with
  | ref r => exact he.elim
  | item own =>
    cases part' with
    | ref r => exact he'.elim
    | item own' =>
      have hsame := List.inj_on_of_nodup_map h.uniqueNames.1.nodup he he' rfl
      cases hsame
      rfl

/-- A path leads to one pointer. -/
theorem Loaded.leads_unique (h : d.Loaded) {p' : Pointer} (hp : d.Leads .path url p)
    (hp' : d.Leads .path url p') : p = p' := by
  rcases hp with ⟨part, target, item, he, htarget, hresolve⟩ | ⟨rfl, part, he, hnone⟩
  · rcases hp' with ⟨part', target', item', he', htarget', hresolve'⟩ | ⟨rfl, part', he', hnone'⟩
    · cases h.entry_unique he he'
      cases htarget.symm.trans htarget'
      cases hresolve.symm.trans hresolve'
      rfl
    · cases h.entry_unique he he'
      cases htarget.symm.trans hnone'
  · rcases hp' with ⟨part', target', item', he', htarget', hresolve'⟩ | ⟨rfl, part', he', hnone'⟩
    · cases h.entry_unique he he'
      cases htarget'.symm.trans hnone
    · rfl

/-- The operations of an entry belong to its section and its name. -/
theorem site_of_entry {env : Environment} {kind : RouteKind} {part : OrRef PathItem}
    {x : Member TypeExpr × List TypedOperation} (hx : Gives (entry env kind name part) x)
    {s : TypedOperation} (hs : s ∈ x.2) : s.kind = kind ∧ s.path = name := by
  obtain ⟨_, _, hx⟩ := hx.of_bind
  obtain ⟨os, hos, hx⟩ := hx.of_bind
  obtain ⟨_, _, hx⟩ := hx.of_bind
  rw [hx.of_pure] at hs
  obtain ⟨_, _, hoperation⟩ := exists_of_forall₂ hos.of_mapM hs
  obtain ⟨_, _, hkind, _, hpath⟩ := hoperation.of_operation
  exact ⟨hkind, hpath⟩

/-- The operation that is registered for a path is one of the first entry that has its name. -/
theorem Made.exists_first (hmade : d.Made config t paths webhooks) {known : TypedOperation}
    (hfind : Registry.find? (paths.flatMap Prod.snd) name = some known) :
    ∃ before e after,
      ordered config.alphabetize (d.spec.paths.getD []) = before ++ e :: after ∧
        (∃ x, Gives (entry ⟨config, d.resolver⟩ .path e.1 (.item e.2)) x ∧ known ∈ x.2) ∧
        ∀ e ∈ before, ∃ y, Gives (entry ⟨config, d.resolver⟩ .path e.1 (.item e.2)) y ∧
          ∀ s ∈ y.2, s.name ≠ name := by
  rw [Registry.find?, List.find?_flatMap] at hfind
  obtain ⟨xs, x, ys, rfl, hknown, hbefore⟩ := List.findSome?_eq_some_iff.mp hfind
  obtain ⟨before, e, after, heq, hfirst, hx⟩ := exists_split_of_forall₂ hmade.pathEntries
  refine ⟨before, e, after, heq, ⟨x, hx, List.mem_of_find?_eq_some hknown⟩, fun e' he' => ?_⟩
  obtain ⟨y, hy, hgives⟩ := exists_of_forall₂ (R := flip _) hfirst.flip he'
  refine ⟨y, hgives, fun s hs hname => ?_⟩
  have hnone := List.find?_eq_none.mp (hbefore y hy) s hs
  exact hnone (decide_eq_true hname)

/-- An operation with a name of its own is called by it wherever it is reached. -/
theorem operationKey_of_some {id : String} (hid : o.2.operationId = some id) (kind : RouteKind)
    (path : String) : operationKey kind path p item o = id := by
  rw [operationKey, operationName, hid, Option.getD_some]

theorem operationKey_of_none (hid : o.2.operationId = none) (kind : RouteKind) (path : String) :
    operationKey kind path p item o = o.1.name ++ " " ++ path := by
  rw [operationKey, operationName, hid, Option.getD_none]

/-- The paths come before the webhooks, so an operation of a path is registered for a path. -/
theorem Made.find?_path (hmade : d.Made config t paths webhooks) {s known : TypedOperation}
    (hs : s ∈ paths.flatMap Prod.snd) (hknown : t.operations.find? s.name = some known) :
    Registry.find? (paths.flatMap Prod.snd) s.name = some known := by
  obtain ⟨first, hfirst⟩ := Registry.find?_isSome_of_mem hs
  have hall : t.operations.find? s.name = Registry.find? _ s.name :=
    Registry.find?_registered hmade.operations
  rw [hknown, Registry.find?, List.find?_append] at hall
  rw [Registry.find?] at hfirst ⊢
  rw [hfirst, Option.some_or] at hall
  rw [hfirst, hall]

/-- The first operation of a name among those of the paths has the path under which it is
listed. -/
theorem Made.listsUnder (h : d.Loaded) (hmade : d.Made config t paths webhooks)
    (hstands : d.StandsAt p item) (ho : o ∈ item.operations) {known : TypedOperation}
    (hfind : Registry.find? (paths.flatMap Prod.snd) (operationKey .path url p item o) = some known)
    (hdescribes : d.Describes config p item o.2 known) (hmethod : known.method = o.1) :
    known.kind = .path ∧ d.ListsUnder config url p o.2 known.path := by
  obtain ⟨before, e, after, heq, ⟨y, hy, hky⟩, hbefore⟩ := hmade.exists_first hfind
  obtain ⟨hkind, hpath⟩ := site_of_entry hy hky
  have hname := (Registry.mem_of_find? hfind).2
  refine ⟨hkind, ?_⟩
  cases hid : o.2.operationId with
  | none =>
    refine Or.inl ⟨hid, ?_⟩
    have hcalled : known.name = known.method.name ++ " " ++ known.path := by
      rw [hdescribes.gives.of_operation.1, operationName, hid, Option.getD_none]
    rw [hname, operationKey_of_none hid, hmethod, String.append_right_inj] at hcalled
    exact hcalled.symm
  | some id =>
    refine Or.inr ⟨hid ▸ Option.some_ne_none id, before, e.2, after, ?_, ?_,
      fun e' he' hleads' => ?_⟩
    · rw [heq, hpath]
    · rw [← hkind]
      exact hdescribes.leads
    · -- an earlier path that leads there would have the operation under its name
      obtain ⟨z, hz, hother⟩ := hbefore e' he'
      have hfollowed : ∃ part, d.spec.Entry .path e'.1 part ∧ ∀ x,
          Gives (itemOf ⟨config, d.resolver⟩ (RouteKind.path.place e'.1) part) x → x = (p, item) :=
        h.eq_of_itemOf hstands hleads'
      obtain ⟨part', he'', hunique⟩ := hfollowed
      have hentry : d.spec.Entry .path e'.1 (.item e'.2) :=
        mem_ordered.mp (heq ▸ List.mem_append_left _ he')
      cases h.entry_unique he'' hentry
      obtain ⟨s', hs', hoperation'⟩ := exists_operation_of_entry hunique hz ho
      refine hother s' hs' ?_
      rw [hoperation'.of_operation.1]
      exact (operationKey_of_some hid _ _).trans (operationKey_of_some hid _ _).symm

section Typed

variable (h : d.Loaded) (ht : d.typed config = .ok t)

include h ht

/-- **Every operation that a path leads to is registered for the path under which it is listed.** -/
theorem exists_listed (hleads : d.Leads .path url p) (hstands : d.StandsAt p item)
    (ho : o ∈ item.operations) : ∃ known ∈ t.operations, known.kind = .path ∧
      known.name = operationKey .path url p item o ∧ d.Describes config p item o.2 known ∧
      known.method = o.1 ∧ d.ListsUnder config url p o.2 known.path := by
  obtain ⟨paths, webhooks, hmade⟩ := of_typed ht
  obtain ⟨part, he, x, hx, hgives, s, hs, hoperation⟩ := hmade.exists_typed h hstands hleads ho
  have hname : s.name = operationKey .path url p item o := hoperation.of_operation.1
  obtain ⟨known, hknown, -, hmethod, hdescribes⟩ := hmade.exists_registered h
    (List.mem_flatMap.mpr ⟨x, RouteKind.mem_append hx, hs⟩)
    (describes_of_gives hstands hleads ho hoperation)
  have hfind := hmade.find?_path (List.mem_flatMap.mpr ⟨x, hx, hs⟩) hknown
  have hmethod : known.method = o.1 := hmethod.trans hoperation.of_operation.2.2.2.1
  rw [hname] at hfind hknown
  obtain ⟨hkind, hunder⟩ := hmade.listsUnder h hstands ho hfind hdescribes hmethod
  obtain ⟨hmem, hcalled⟩ := Registry.mem_of_find? hknown
  exact ⟨known, hmem, hkind, hcalled, hdescribes, hmethod, hunder⟩

/-- **A path and a method are those of one registered operation.** -/
theorem eq_of_path_of_method {s s' : TypedOperation} (hs : s ∈ t.operations)
    (hs' : s' ∈ t.operations) (hkind : s.kind = .path) (hkind' : s'.kind = .path)
    (hpath : s.path = s'.path) (hmethod : s.method.name = s'.method.name) : s = s' := by
  obtain ⟨paths, webhooks, hmade⟩ := of_typed ht
  obtain ⟨p, item, op, hdescribes⟩ :=
    hmade.exists_describes h (Registry.mem_of_registered hmade.registered hs)
  obtain ⟨p', item', op', hdescribes'⟩ :=
    hmade.exists_describes h (Registry.mem_of_registered hmade.registered hs')
  have hleads := hdescribes.leads
  have hleads' := hdescribes'.leads
  rw [hkind, hpath] at hleads
  rw [hkind'] at hleads'
  cases h.leads_unique hleads hleads'
  have hplace : s.location = s'.location := by
    rw [hdescribes.location, hdescribes'.location, hmethod]
  obtain ⟨-, rfl, rfl, -⟩ := hdescribes.same_place hdescribes' hplace
  have hname : s.name = s'.name := by
    rw [hdescribes.gives.of_operation.1, hdescribes'.gives.of_operation.1]
    simp only [Typing.operationName, hmethod, hpath]
  rw [hdescribes.eq_of_location hdescribes' hplace, ← hname, hkind', ← hkind, ← hpath]

end Typed

/-! ## 3. Documents -/

theorem typed_of_output {out : Output} (h : d.output config = .ok out) :
    ∃ t, d.typed config = .ok t ∧ out.files = Output.filesOf config d.spec t := by
  unfold output at h
  cases ht : d.typed config with
  | error e =>
    rw [ht] at h
    cases h
  | ok t =>
    rw [ht] at h
    cases h
    exact ⟨t, rfl, rfl⟩

/-- The module of types is not one of the files of the catalog. -/
theorem lookup_filesOf (hcatalog : config.catalog = true) {file : String}
    (hfile : file ≠ Output.typesFile) : (Output.filesOf config d.spec t).lookup file =
      (Catalog.files config d.spec t.operations).lookup file := by
  rw [Output.filesOf, if_pos hcatalog, List.lookup_cons, beq_eq_false_iff_ne.mpr hfile]

/-- The operation that is registered under a tag and a path has its line and its names. -/
theorem lists_of_registered (h : d.Loaded) (hcatalog : config.catalog = true) {out : Output}
    (ht : d.typed config = .ok t) (hfiles : out.files = Output.filesOf config d.spec t)
    {known : TypedOperation} (hknown : known ∈ t.operations) (hkind : known.kind = .path)
    {tag : String} (htag : tag ∈ Catalog.tagsOf known) :
    out.Lists (Catalog.stemOf t.operations tag) known.path known.method known.name
      known.headerParams known.cookieParams := by
  have hlisted := Catalog.mem_listed_iff.mpr ⟨hknown, hkind, htag, rfl⟩
  obtain ⟨g, hg, hos⟩ := Catalog.exists_lookup_of_listed hlisted
  obtain ⟨hapi, hdata⟩ := Catalog.lookup_files config d.spec hg
  rw [← lookup_filesOf hcatalog (Catalog.apiName_ne_typesFile _), ← hfiles] at hapi
  rw [← lookup_filesOf hcatalog (Catalog.dataName_ne_typesFile _), ← hfiles] at hdata
  refine ⟨⟨_, hapi, Catalog.invokes_apiFile hos hlisted⟩, _, hdata,
    Catalog.holds_dataFile hos hlisted fun o' ho' hmethod => ?_⟩
  obtain ⟨ho', hkind', -, hpath'⟩ := Catalog.mem_listed_iff.mp ho'
  exact congrArg Catalog.operationData
    (eq_of_path_of_method h ht ho' hknown hkind' hkind hpath' hmethod)

theorem tagged_iff {op : Operation} {s : TypedOperation} (htags : s.tags = op.tags) {tag : String} :
    tag ∈ Catalog.tagsOf s ↔ op.Tagged tag := by
  rw [Catalog.tagsOf, htags, Operation.Tagged]
  cases op.tags with
  | nil => simp
  | cons first rest => simp

/-- **The catalog covers every path**: each method of each path is listed for each tag of its
operation, under the path itself if the operation is called by it, else under the first path that
leads to the operation. -/
theorem catalogs_of_output {out : Output} (h : d.Loaded) (hcatalog : config.catalog = true)
    (hout : d.output config = .ok out) :
    ∃ stemOf, d.Catalogs config out (d.ListsUnder config) stemOf := by
  obtain ⟨t, ht, hfiles⟩ := typed_of_output hout
  refine ⟨Catalog.stemOf t.operations, ?_⟩
  have hgroup : ∀ tag, d.UsesTag tag → ∃ g, (tag, g) ∈ Catalog.groups t.operations := by
    rintro tag ⟨url, p, item, o, hleads, hstands, ho, htag⟩
    obtain ⟨known, hknown, hkind, -, hdescribes, -, -⟩ := exists_listed h ht hleads hstands ho
    have htag := (tagged_iff hdescribes.gives.exists_parameters.1).mpr htag
    obtain ⟨g, hg, -⟩ := Catalog.exists_lookup_of_listed
      (Catalog.mem_listed_iff.mpr ⟨hknown, hkind, htag, rfl⟩)
    exact ⟨g, hg⟩
  constructor
  · exact Catalog.exists_numbered t.operations
  · intro tag tag' huses huses' heq
    obtain ⟨g, hg⟩ := hgroup tag huses
    obtain ⟨g', hg'⟩ := hgroup tag' huses'
    exact Catalog.stemOf_injective hg hg' heq
  · intro url own hown
    have hentry : d.spec.Entry .path url (.item own) := hown
    obtain ⟨p, item, hleads, hstands⟩ := exists_leads h ht hentry
    refine ⟨p, item, hleads, hstands, fun o ho => ?_⟩
    obtain ⟨known, hknown, hkind, hname, hdescribes, hmethod, hunder⟩ :=
      exists_listed h ht hleads hstands ho
    obtain ⟨htags, es, hes, hheaders, hcookies⟩ := hdescribes.gives.exists_parameters
    rw [effectiveParameters_site, hmethod] at hes
    refine ⟨es, hes, fun tag htag => ⟨known.path, hunder, ?_⟩⟩
    rw [← hname, ← hmethod, ← hheaders, ← hcookies]
    exact lists_of_registered h hcatalog ht hfiles hknown hkind ((tagged_iff htags).mpr htag)

end Document

/-! ## 4. Two paths that share a path item -/

/-- The options of a run that writes the catalog. -/
def catalogConfig : Config := { catalog := true }

/-- The path item that two paths share. -/
def sharedItem : PathItem := { get := some { operationId := some "list" } }

theorem leads_sharedDocument : sharedDocument.Leads .path "/a" ⟨["x-item"]⟩ :=
  Or.inl ⟨.item { reference := some "#/x-item" }, "#/x-item", sharedItem,
    List.mem_cons_of_mem _ (List.mem_singleton_self _), rfl, by cbv⟩

theorem standsAt_sharedDocument : sharedDocument.StandsAt ⟨["x-item"]⟩ sharedItem :=
  ⟨.object [("get", .object [("operationId", .string "list")])], by cbv, by cbv⟩

theorem output_sharedDocument : ∃ out, sharedDocument.output catalogConfig = .ok out := by
  obtain ⟨t, ht⟩ : ∃ t, sharedDocument.typed catalogConfig = .ok t := ⟨_, by cbv⟩
  refine ⟨⟨Output.sectionTexts catalogConfig t,
    Output.filesOf catalogConfig sharedDocument.spec t⟩, ?_⟩
  rw [Document.output, ht]
  rfl

/-- Two paths that share a path item are covered: its method is listed under the first. -/
theorem catalogs_sharedDocument : sharedDocument.Loaded ∧ catalogConfig.catalog = true ∧
    ∃ out, sharedDocument.output catalogConfig = .ok out ∧ ∃ stemOf, sharedDocument.Catalogs
      catalogConfig out (sharedDocument.ListsUnder catalogConfig) stemOf := by
  obtain ⟨out, hout⟩ := output_sharedDocument
  exact ⟨loaded_sharedDocument, rfl, out, hout,
    Document.catalogs_of_output loaded_sharedDocument rfl hout⟩

/-- The operation that the two paths share, as it is registered. -/
def sharedOperation : TypedOperation where
  name := "list"
  location := ⟨["x-item", "get"]⟩
  kind := .path
  method := .get
  path := "/b"
  tags := []
  pathParams := []
  headerParams := []
  cookieParams := []
  doc := none
  type := .closed [.of "parameters" .void false false, .of "content" .void false false,
    .of "responses" (.closed []) false false, .of "exceptions" (.closed []) false false]

theorem operations_sharedDocument :
    (sharedDocument.typed catalogConfig).toOption.map (·.operations) = some [sharedOperation] := by
  cbv

theorem stemmed_sharedOperation : Catalog.stemmed [sharedOperation]
    = [(("default", [("/b", [sharedOperation])]), "default")] := by
  cbv

/-- The lines of the file that declares the paths of the default tag. -/
def sharedLines : List String := [
  "import \x7b NewApis, Invokable \x7d from \"@oats/runtime\"",
  "import \x7b operations \x7d from \"../types\"",
  "import data from \"../data/default\"",
  "",
  "export type paths = \x7b",
  "  \"/b\": \x7b",
  "    get: Invokable<operations[\"list\"]>",
  "  \x7d",
  "\x7d",
  "",
  "export default NewApis<paths>(data)",
  ""]

theorem apiFile_sharedOperation :
    Catalog.apiFile "@oats/runtime" "default" none [("/b", [sharedOperation])]
      = Text.join "\n" sharedLines := by
  decide +kernel

/-- No line of the file is one of the other path. -/
theorem not_infix_sharedLines :
    ¬ (Catalog.pathLine "/a").toList <:+: (Text.join "\n" sharedLines).toList := by
  rw [Text.join, String.toList_intercalate]
  decide +kernel

/-- There is one file that declares paths. -/
theorem api_sharedDocument {out : Output} (h : sharedDocument.output catalogConfig = .ok out)
    {stem text : String} (htext : out.files.lookup (Catalog.apiName stem) = some text) :
    text = Text.join "\n" sharedLines := by
  obtain ⟨t, ht, hfiles⟩ := Document.typed_of_output h
  have hregistered : t.operations = [sharedOperation] := by
    have hall := operations_sharedDocument
    rw [ht] at hall
    exact Option.some.inj hall
  rw [hfiles, Document.lookup_filesOf rfl (Catalog.apiName_ne_typesFile stem), hregistered,
    Catalog.files_eq, stemmed_sharedOperation] at htext
  rcases List.mem_cons.mp (Catalog.mem_of_lookup htext) with hfile | hfile
  · exact (Prod.mk.inj hfile).2.trans apiFile_sharedOperation
  · have hname := (Prod.mk.inj (List.mem_singleton.mp hfile)).1
    exact absurd hname (Catalog.apiName_ne_dataName stem "default")

/-- **A path that shares its path item with an earlier one is left out**, though its methods are
methods of a path like any others. -/
theorem not_catalogs_sharedDocument : ¬ ∀ (d : Document) (config : Config) (out : Output),
    d.Loaded → config.catalog = true → d.output config = .ok out →
    ∃ stemOf, d.Catalogs config out (fun url _ _ path => path = url) stemOf := by
  intro hall
  obtain ⟨out, hout⟩ := output_sharedDocument
  obtain ⟨stemOf, hcatalogs⟩ := hall _ _ out loaded_sharedDocument rfl hout
  obtain ⟨p, item, hleads, hstands, hoperations⟩ :=
    hcatalogs.lists "/a" { reference := some "#/x-item" }
      (List.mem_cons_of_mem _ (List.mem_singleton_self _))
  cases loaded_sharedDocument.leads_unique hleads leads_sharedDocument
  cases hstands.unique standsAt_sharedDocument
  obtain ⟨es, -, htags⟩ := hoperations (.get, { operationId := some "list" })
    (List.mem_singleton_self _)
  obtain ⟨path, rfl, ⟨text, hlookup, hinvokes⟩, -⟩ := htags "default" (Or.inr ⟨rfl, rfl⟩)
  rw [api_sharedDocument hout hlookup] at hinvokes
  exact not_infix_sharedLines hinvokes.infix

end ApiTypes
