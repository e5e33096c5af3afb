/-
# The entries of the catalog

The catalog puts an operation under its path in the group of each of its tags, as often as its list
of tags names the tag.  The file that declares the paths of a tag has a line each time, the file
that holds what a client needs to know has one field all in all; both list the same methods under
the same paths.

* `Catalog.placements` are the operations as they stand in groups, and `Catalog.perm_placements`
  says that they are those that were put there.
* `Catalog.Declares` and `Catalog.Exports` read the methods of paths off the two files.
* `Catalog.Enters` says how often the operations are entered, and `Document.enters_of_typed` says
  how often that is.
* `not_enters_repeatedTag`: an operation that repeats a tag is entered twice.
-/
import ApiTypes.Proofs.Output.Coverage

namespace ApiTypes

/-! ## 1. Groups -/

namespace Catalog

variable {operations : Registry} {gs : List (String × Group)} {tag path : String} {g : Group}
  {o : TypedOperation}

/-- Operations by path, each with its path. -/
def Group.placements (g : Group) : List (String × TypedOperation) :=
  g.flatMap fun (path, os) => os.map (path, ·)

/-- **The operations of all groups**, each with its tag and its path there. -/
def placements (gs : List (String × Group)) : List (String × String × TypedOperation) :=
  gs.flatMap fun (tag, g) => (Group.placements g).map (tag, ·)

/-- What comes into an entry comes into the whole. -/
theorem perm_flatMap_updateAt {α β : Type} {key : String} {fresh : α} {change : α → α}
    {f : String × α → List β} {added : List β} (hfresh : f (key, change fresh) = added)
    (hchange : ∀ a, (f (key, change a)).Perm (f (key, a) ++ added)) (es : List (String × α)) :
    ((updateAt key fresh change es).flatMap f).Perm (es.flatMap f ++ added) := by
  induction es with
  | nil => simp [updateAt, hfresh]
  | cons e rest ih =>
    obtain ⟨k, a⟩ := e
    by_cases hk : k = key
    · subst hk
      rw [updateAt, if_pos rfl, List.flatMap_cons, List.flatMap_cons]
      refine ((hchange a).append_right _).trans ?_
      rw [List.append_assoc, List.append_assoc]
      exact List.perm_append_comm.append_left _
    · rw [updateAt, if_neg hk, List.flatMap_cons, List.flatMap_cons, List.append_assoc]
      exact ih.append_left _

/-- One operation more stands under its tag and its path. -/
theorem perm_placements_addTo (gs : List (String × Group)) (e : String × TypedOperation) :
    (placements (addTo gs e)).Perm (placements gs ++ [(e.1, e.2.path, e.2)]) := by
  have hgroup : ∀ g : Group, (Group.placements (updateAt e.2.path [] (· ++ [e.2]) g)).Perm
      (Group.placements g ++ [(e.2.path, e.2)]) :=
    perm_flatMap_updateAt rfl fun os => by simp
  refine perm_flatMap_updateAt (by simp [Group.placements, updateAt]) (fun g => ?_) gs
  exact ((hgroup g).map _).trans (by simp)

theorem perm_placements_foldl (es : List (String × TypedOperation))
    (gs : List (String × Group)) : (placements (es.foldl addTo gs)).Perm
      (placements gs ++ es.map fun e => (e.1, e.2.path, e.2)) := by
  induction es generalizing gs with
  | nil => simp
  | cons e rest ih =>
    refine (ih (addTo gs e)).trans ?_
    refine ((perm_placements_addTo gs e).append_right _).trans ?_
    rw [List.append_assoc, List.singleton_append, List.map_cons]

/-- **What stands in the groups is what was put there**: each operation of a path under its path,
once for each time that it names a tag. -/
theorem perm_placements (operations : Registry) : (placements (groups operations)).Perm
    ((entries operations).map fun e => (e.1, e.2.path, e.2)) :=
  perm_placements_foldl (entries operations) []

theorem mem_placements {x : String × String × TypedOperation} :
    x ∈ placements (groups operations) ↔
      x.2.2 ∈ operations ∧ x.2.2.kind = .path ∧ x.1 ∈ tagsOf x.2.2 ∧ x.2.1 = x.2.2.path := by
  rw [(perm_placements operations).mem_iff, List.mem_map]
  constructor
  · rintro ⟨e, he, rfl⟩
    obtain ⟨ho, hkind, htag⟩ := mem_entries.mp he
    exact ⟨ho, hkind, htag, rfl⟩
  · rintro ⟨ho, hkind, htag, hpath⟩
    exact ⟨(x.1, x.2.2), mem_entries.mpr ⟨ho, hkind, htag⟩, by rw [← hpath]⟩

/-- Whether a placement is that of the operation of a name under a tag and a path. -/
def isPlaced (tag path name : String) (x : String × String × TypedOperation) : Bool :=
  x.1 = tag && x.2.1 = path && x.2.2.name = name

theorem countP_map_tags (o o' : TypedOperation) :
    ((tagsOf o).map (·, o)).countP (fun e => isPlaced tag path o'.name (e.1, e.2.path, e.2))
      = if o.path = path ∧ o.name = o'.name then (tagsOf o).count tag else 0 := by
  rw [List.countP_map]
  split
  · rename_i h
    rw [List.count_eq_countP]
    exact List.countP_congr fun t _ => by simp [isPlaced, h]
  · rename_i h
    refine List.countP_eq_zero.mpr fun t _ ht => h ?_
    simp only [Function.comp_apply, isPlaced, Bool.and_eq_true, decide_eq_true_eq] at ht
    exact ⟨ht.1.2, ht.2⟩

/-- **How often an operation stands under a tag and a path**: as often as it names the tag if it
is one of that path, and never else. -/
theorem countP_placements (hnames : (operations.map (·.name)).Nodup) (ho : o ∈ operations)
    (tag path : String) : (placements (groups operations)).countP (isPlaced tag path o.name)
      = if o.kind = .path ∧ o.path = path then (tagsOf o).count tag else 0 := by
  obtain ⟨before, after, rfl⟩ := List.append_of_mem ho
  -- Operations of other names do not count.
  have hother : ∀ os : List TypedOperation, (∀ o' ∈ os, o'.name ≠ o.name) →
      (entries os).countP (fun e => isPlaced tag path o.name (e.1, e.2.path, e.2)) = 0 := by
    refine fun os hos => List.countP_eq_zero.mpr fun e he hplaced => ?_
    simp only [isPlaced, Bool.and_eq_true, decide_eq_true_eq] at hplaced
    exact hos e.2 (mem_entries.mp he).1 hplaced.2
  rw [List.map_append, List.map_cons, List.nodup_append, List.nodup_cons] at hnames
  obtain ⟨-, ⟨hafter, -⟩, hbefore⟩ := hnames
  have hbefore := hother before fun o' ho' =>
    hbefore _ (List.mem_map_of_mem ho') _ List.mem_cons_self
  have hafter := hother after fun o' ho' heq => hafter (heq ▸ List.mem_map_of_mem ho')
  have hsplit : entries (before ++ o :: after) = entries before
      ++ ((if o.kind = .path then (tagsOf o).map (·, o) else []) ++ entries after) := by
    unfold entries
    rw [List.filter_append, List.filter_cons, List.flatMap_append]
    by_cases hkind : o.kind = .path <;> simp [hkind]
  rw [(perm_placements _).countP_eq, List.countP_map]
  change (entries (before ++ o :: after)).countP
    (fun e => isPlaced tag path o.name (e.1, e.2.path, e.2)) = _
  rw [hsplit, List.countP_append, List.countP_append, hbefore, hafter]
  by_cases hkind : o.kind = .path
  · rw [if_pos hkind, countP_map_tags]
    simp [hkind]
  · simp [hkind]

/-! ## 2. One group -/

/-- The operations of a group are those of its tag. -/
theorem mem_group_placements (hg : (tag, g) ∈ groups operations) {q : String × TypedOperation} :
    q ∈ Group.placements g ↔
      q.2 ∈ operations ∧ q.2.kind = .path ∧ tag ∈ tagsOf q.2 ∧ q.1 = q.2.path := by
  have hiff : q ∈ Group.placements g ↔ (tag, q) ∈ placements (groups operations) := by
    rw [placements, List.mem_flatMap]
    constructor
    · exact fun hq => ⟨_, hg, List.mem_map_of_mem hq⟩
    · rintro ⟨⟨tag', g'⟩, hg', hq⟩
      obtain ⟨q', hq', heq⟩ := List.mem_map.mp hq
      cases heq
      have hlookup := lookup_of_mem (nodup_groups operations) hg
      rw [lookup_of_mem (nodup_groups operations) hg'] at hlookup
      cases hlookup
      exact hq'
  rw [hiff, mem_placements]

/-- What stands in a group under its tag is all that stands there in any group. -/
theorem countP_group_placements (hg : (tag, g) ∈ groups operations)
    (p : String × TypedOperation → Bool) : (Group.placements g).countP p
      = (placements (groups operations)).countP fun x => x.1 = tag && p x.2 := by
  obtain ⟨before, after, hsplit⟩ := List.append_of_mem hg
  have hnodup := nodup_groups operations
  rw [hsplit, List.map_append, List.map_cons, List.nodup_append, List.nodup_cons] at hnodup
  obtain ⟨-, ⟨hafter, -⟩, hbefore⟩ := hnodup
  have hother : ∀ gs : List (String × Group), tag ∉ gs.map Prod.fst →
      (placements gs).countP (fun x => x.1 = tag && p x.2) = 0 := by
    refine fun gs hgs => List.countP_eq_zero.mpr fun x hx hp => hgs ?_
    obtain ⟨⟨tag', g'⟩, hg', hx⟩ := List.mem_flatMap.mp hx
    obtain ⟨q, -, rfl⟩ := List.mem_map.mp hx
    simp only [Bool.and_eq_true, decide_eq_true_eq] at hp
    exact List.mem_map.mpr ⟨_, hg', hp.1⟩
  have hbefore := hother before fun hmem => hbefore _ hmem _ List.mem_cons_self rfl
  rw [hsplit, placements, List.flatMap_append, List.flatMap_cons, List.countP_append,
    List.countP_append, ← placements, ← placements, hbefore, hother after hafter, List.countP_map]
  simp [Function.comp_def]

/-- No path has two entries in a group. -/
theorem nodup_paths : ∀ (es : List (String × TypedOperation)) (gs : List (String × Group)),
    (∀ t ∈ gs, (t.2.map Prod.fst).Nodup) →
    ∀ t ∈ es.foldl addTo gs, (t.2.map Prod.fst).Nodup
  | [], _, h => h
  | e :: es, gs, h => by
    refine nodup_paths es (addTo gs e) ?_
    clear * - h
    unfold addTo
    induction gs with
    | nil =>
      intro t ht
      rw [List.mem_singleton.mp ht]
      exact nodup_updateAt List.nodup_nil
    | cons u rest ih =>
      obtain ⟨k, g⟩ := u
      obtain ⟨hfirst, hrest⟩ := List.forall_mem_cons.mp h
      rw [updateAt]
      split
      · exact List.forall_mem_cons.mpr ⟨nodup_updateAt hfirst, hrest⟩
      · exact List.forall_mem_cons.mpr ⟨hfirst, ih hrest⟩

/-- A tag that has a group is one of an operation of a path. -/
theorem exists_tagged (hg : tag ∈ (groups operations).map Prod.fst) :
    ∃ o ∈ operations, o.kind = .path ∧ tag ∈ tagsOf o := by
  suffices ∀ (es : List (String × TypedOperation)) (gs : List (String × Group)),
      tag ∈ (es.foldl addTo gs).map Prod.fst → tag ∈ gs.map Prod.fst ∨ ∃ e ∈ es, e.1 = tag by
    obtain ⟨e, he, rfl⟩ := (this _ [] hg).resolve_left List.not_mem_nil
    exact ⟨e.2, mem_entries.mp he⟩
  intro es
  induction es with
  | nil => exact fun _ h => Or.inl h
  | cons e rest ih =>
    intro gs h
    rcases ih _ h with h | ⟨e', he', rfl⟩
    · rw [addTo, keys_updateAt] at h
      split at h
      · exact Or.inl h
      · rcases List.mem_append.mp h with h | h
        · exact Or.inl h
        · exact Or.inr ⟨e, List.mem_cons_self, (List.mem_singleton.mp h).symm⟩
    · exact Or.inr ⟨e', List.mem_cons_of_mem _ he', rfl⟩

/-! ## 3. The two files -/

/-- The methods of paths, each with the operation that it invokes. -/
abbrev Declarations := List (String × List (Method × String))

/-- The lines that declare what the methods of paths invoke. -/
def Declarations.lines (ds : Declarations) : List String :=
  ds.flatMap fun (path, methods) =>
    pathLine path :: methods.map (fun m => methodLine m.1 m.2) ++ ["  \x7d"]

/-- The paths and methods that are declared. -/
def Declarations.pairs (ds : Declarations) : List (String × String) :=
  ds.flatMap fun (path, methods) => methods.map fun m => (path, m.1.name)

/-- **A text declares some methods of paths**: they are all that stands in its type of paths. -/
def Declares (text : String) (ds : Declarations) : Prop :=
  ∃ head, text = Text.join "\n" (head ++ "export type paths = \x7b" :: ds.lines
    ++ ["\x7d", "", "export default NewApis<paths>(data)", ""])

/-- The paths and methods under which a value has fields. -/
def fieldPairs (v : Json) : List (String × String) :=
  ((v.field? "paths").getD .null).fields.flatMap fun (path, methods) =>
    methods.fields.map fun m => (path, m.1)

/-- **A text exports a value that has fields for some methods of paths**, and for no others. -/
def Exports (text : String) (pairs : List (String × String)) : Prop :=
  ∃ v, text = "export default " ++ Json.indented v ++ "\n" ∧ fieldPairs v = pairs

/-- What a group declares. -/
def Group.declarations (g : Group) : Declarations :=
  g.map fun (path, os) => (path, os.map fun o => (o.method, o.name))

theorem Group.pairs_declarations (g : Group) :
    g.declarations.pairs = (Group.placements g).map fun q => (q.1, q.2.method.name) := by
  simp [Declarations.pairs, Group.declarations, Group.placements, List.flatMap_map,
    List.map_flatMap, Function.comp_def]

theorem declares_apiFile (runtimeModule stem : String) (description : Option String) (g : Group) :
    Declares (apiFile runtimeModule stem description g) g.declarations := by
  refine ⟨(description.map (TypeExpr.docBlock · 0)).toList
      ++ ["import \x7b NewApis, Invokable \x7d from " ++ Text.quote runtimeModule,
        "import \x7b operations \x7d from \"../types\"",
        "import data from " ++ Text.quote ("../data/" ++ stem), ""], ?_⟩
  have hlines : g.declarations.lines = g.flatMap fun (path, os) => pathLines path os := by
    rw [Declarations.lines, Group.declarations, List.flatMap_map]
    refine List.flatMap_congr fun e _ => ?_
    simp only [pathLines, pathLine, methodLine, List.map_map, Function.comp_def]
    rfl
  rw [apiFile, hlines]
  simp only [List.append_assoc, List.cons_append, List.nil_append]

/-- The fields of methods have the names of the methods, each once. -/
theorem keys_pathData (os : List TypedOperation) (fs : List (String × Json))
    (hfs : (fs.map Prod.fst).Nodup) :
    ((os.foldl (fun fields o => Json.setField o.method.name (operationData o) fields) fs).map
        Prod.fst).Nodup ∧
      ∀ name, name ∈ (os.foldl
          (fun fields o => Json.setField o.method.name (operationData o) fields) fs).map Prod.fst ↔
        name ∈ fs.map Prod.fst ∨ ∃ o ∈ os, o.method.name = name := by
  induction os generalizing fs with
  | nil => exact ⟨hfs, by simp⟩
  | cons o rest ih =>
    have hkeys := Json.keys_setField o.method.name (operationData o) fs
    by_cases hmem : o.method.name ∈ fs.map Prod.fst
    · rw [if_pos hmem] at hkeys
      obtain ⟨hnodup, hiff⟩ := ih _ (hkeys ▸ hfs)
      refine ⟨hnodup, fun name => (hiff name).trans ?_⟩
      rw [hkeys, List.exists_mem_cons_iff]
      constructor
      · exact Or.imp_right Or.inr
      · rintro (h | rfl | h)
        · exact Or.inl h
        · exact Or.inl hmem
        · exact Or.inr h
    · rw [if_neg hmem] at hkeys
      obtain ⟨hnodup, hiff⟩ := ih _ (hkeys ▸ hfs.append (List.nodup_singleton _)
        (List.disjoint_singleton.mpr hmem))
      refine ⟨hnodup, fun name => (hiff name).trans ?_⟩
      rw [hkeys, List.exists_mem_cons_iff, List.mem_append, List.mem_singleton, or_assoc,
        eq_comm (a := name)]

theorem fieldPairs_paths (server : String) (g : Group) :
    fieldPairs (.object [("server", .string server),
        ("paths", .object (g.map fun (path, os) => (path, pathData os)))])
      = g.flatMap fun e => (pathData e.2).fields.map fun m => (e.1, m.1) := by
  change (g.map fun e => (e.1, pathData e.2)).flatMap _ = _
  rw [List.flatMap_map]

/-- The methods of the paths of a group, each once. -/
theorem exports_dataFile (server : String) {g : Group} (hg : (g.map Prod.fst).Nodup) :
    ∃ pairs, Exports (dataFile server g) pairs ∧ pairs.Nodup ∧
      ∀ q, q ∈ pairs ↔ q ∈ g.declarations.pairs := by
  refine ⟨_, ⟨_, rfl, fieldPairs_paths server g⟩, ?_, fun q => ?_⟩
  · refine List.nodup_flatMap.mpr ⟨fun e _ => ?_, ?_⟩
    · have hkeys := (keys_pathData e.2 [] List.nodup_nil).1
      have hinj := hkeys.map (f := fun name => (e.1, name)) fun a b h => (Prod.mk.inj h).2
      rwa [List.map_map] at hinj
    · refine (List.pairwise_map.mp hg).imp fun {a b} hne => ?_
      intro q hq hq'
      obtain ⟨_, -, rfl⟩ := List.mem_map.mp hq
      obtain ⟨_, -, heq⟩ := List.mem_map.mp hq'
      exact hne (Prod.mk.inj heq).1.symm
  · rw [Declarations.pairs, Group.declarations, List.flatMap_map, List.mem_flatMap,
      List.mem_flatMap]
    refine exists_congr fun e => and_congr_right fun _ => ?_
    have hkeys := (keys_pathData e.2 [] List.nodup_nil).2
    constructor
    · intro hq
      obtain ⟨m, hm, rfl⟩ := List.mem_map.mp hq
      obtain ⟨o, ho, hname⟩ :=
        ((hkeys m.1).mp (List.mem_map_of_mem hm)).resolve_left List.not_mem_nil
      exact List.mem_map.mpr ⟨(o.method, o.name), List.mem_map_of_mem ho, by rw [← hname]⟩
    · intro hq
      obtain ⟨m, hm, rfl⟩ := List.mem_map.mp hq
      obtain ⟨o, ho, rfl⟩ := List.mem_map.mp hm
      obtain ⟨m, hm, hname⟩ := List.mem_map.mp ((hkeys o.method.name).mpr (Or.inr ⟨o, ho, rfl⟩))
      exact List.mem_map.mpr ⟨m, hm, by rw [hname]⟩

/-! ## 4. Entries -/

/-- The files of a tag list the operations of the tag, each in the first file so many times and in
the second one once. -/
def ListsPairs (operations : Registry) (times : TypedOperation → String → Nat)
    (tag api data : String) : Prop :=
  ∃ ds pairs, Declares api ds ∧ Exports data pairs ∧ pairs.Nodup ∧
    (∀ q, q ∈ pairs ↔ q ∈ ds.pairs) ∧
    (∀ q ∈ ds.pairs, ∃ o ∈ operations, o.kind = .path ∧ tag ∈ tagsOf o ∧
      q = (o.path, o.method.name)) ∧
    ∀ o ∈ operations, o.kind = .path → ds.pairs.count (o.path, o.method.name) = times o tag

/-- **The catalog enters operations of paths so many times for a tag**, at their paths and methods,
and nothing else; the two files of each tag agree on the methods of paths. -/
structure Enters (config : Config) (s : Spec) (operations : Registry)
    (times : TypedOperation → String → Nat) : Prop where
  placed : ∀ o ∈ operations, ∀ tag path,
    (placements (groups operations)).countP (isPlaced tag path o.name)
      = if o.kind = .path ∧ o.path = path then times o tag else 0
  known : ∀ x ∈ placements (groups operations), x.2.2 ∈ operations
  /-- Each file is one of the two of a tag. -/
  named : ∀ file ∈ files config s operations, ∃ o ∈ operations, o.kind = .path ∧
    ∃ tag ∈ tagsOf o, file.1 = apiName (stemOf operations tag) ∨
      file.1 = dataName (stemOf operations tag)
  listed : ∀ o ∈ operations, o.kind = .path → ∀ tag ∈ tagsOf o, ∃ api data,
    (files config s operations).lookup (apiName (stemOf operations tag)) = some api ∧
    (files config s operations).lookup (dataName (stemOf operations tag)) = some data ∧
    ListsPairs operations times tag api data

/-- Once for each tag that is declared. -/
def once (o : TypedOperation) (tag : String) : Nat := if tag ∈ tagsOf o then 1 else 0

/-- As often as the tag is declared. -/
def repeated (o : TypedOperation) (tag : String) : Nat := (tagsOf o).count tag

/-- An operation that repeats no tag declares each of its tags once. -/
theorem repeated_eq_once_iff : (∀ tag, repeated o tag = once o tag) ↔ o.tags.Nodup := by
  have htags : (tagsOf o).Nodup ↔ o.tags.Nodup := by
    unfold tagsOf
    split
    · rename_i hempty
      rw [List.isEmpty_iff.mp hempty]
      simp
    · rfl
  rw [← htags, List.nodup_iff_count_le_one]
  refine forall_congr' fun tag => ?_
  unfold repeated once
  split
  · rename_i htag
    have hpos := List.count_pos_iff.mpr htag
    omega
  · rename_i htag
    rw [List.count_eq_zero.mpr htag]
    simp

/-- How often operations are entered is told by each of them. -/
theorem Enters.congr {config : Config} {s : Spec} {times times' : TypedOperation → String → Nat}
    (h : Enters config s operations times)
    (heq : ∀ o ∈ operations, o.kind = .path → ∀ tag, times o tag = times' o tag) :
    Enters config s operations times' := by
  refine ⟨fun o ho tag path => ?_, h.known, h.named, fun o ho hkind tag htag => ?_⟩
  · rw [h.placed o ho]
    split
    · rename_i hplace
      exact heq o ho hplace.1 tag
    · rfl
  · obtain ⟨api, data, hapi, hdata, ds, pairs, hds, hpairs, hnodup, hiff, honly, hcount⟩ :=
      h.listed o ho hkind tag htag
    refine ⟨api, data, hapi, hdata, ds, pairs, hds, hpairs, hnodup, hiff, honly, ?_⟩
    intro o' ho' hkind'
    rw [hcount o' ho' hkind', heq o' ho' hkind']

end Catalog

/-! ## 5. Documents -/

namespace Document

open Catalog

variable {d : Document} {config : Config} {t : TypedDocument}

/-- The two files of a tag. -/
theorem listsPairs_of_typed (h : d.Loaded) (ht : d.typed config = .ok t) {tag : String} {g : Group}
    (hg : (tag, g) ∈ groups t.operations) (stem server : String) (description : Option String) :
    ListsPairs t.operations repeated tag (apiFile config.runtimeModule stem description g)
      (dataFile server g) := by
  have hpaths : (g.map Prod.fst).Nodup :=
    nodup_paths (entries t.operations) [] nofun _ hg
  obtain ⟨pairs, hexports, hnodup, hiff⟩ := exports_dataFile server hpaths
  refine ⟨g.declarations, pairs, declares_apiFile _ _ _ g, hexports, hnodup, hiff, ?_, ?_⟩
  · intro q hq
    rw [Group.pairs_declarations] at hq
    obtain ⟨x, hx, rfl⟩ := List.mem_map.mp hq
    obtain ⟨ho, hkind, htag, hpath⟩ := (mem_group_placements hg).mp hx
    exact ⟨x.2, ho, hkind, htag, by rw [hpath]⟩
  · intro o ho hkind
    obtain ⟨paths, webhooks, hmade⟩ := of_typed ht
    have hcount := countP_placements (Registry.nodup_registered hmade.operations) ho tag o.path
    rw [if_pos ⟨hkind, rfl⟩] at hcount
    rw [repeated, ← hcount, Group.pairs_declarations, List.count_eq_countP, List.countP_map,
      countP_group_placements hg]
    refine List.countP_congr fun x hx => ?_
    obtain ⟨hx, hkind', -, hpath⟩ := mem_placements.mp hx
    -- Of that path and that method there is no other operation.
    simp only [isPlaced, Function.comp_apply, Bool.and_eq_true, decide_eq_true_eq, beq_iff_eq,
      Prod.mk.injEq, and_assoc]
    refine and_congr_right fun _ => and_congr_right fun hplace => ?_
    constructor
    · intro hmethod
      rw [eq_of_path_of_method h ht hx ho hkind' hkind (hpath.symm.trans hplace) hmethod]
    · intro hname
      rw [List.inj_on_of_nodup_map (Registry.nodup_registered hmade.operations) hx ho hname]

/-- **The catalog enters each operation of a path as often as it declares a tag**, so once for each
of its tags if and only if no operation repeats a tag. -/
theorem enters_of_typed (h : d.Loaded) (ht : d.typed config = .ok t) :
    Enters config d.spec t.operations repeated ∧
      (Enters config d.spec t.operations once ↔
        ∀ o ∈ t.operations, o.kind = .path → o.tags.Nodup) := by
  obtain ⟨paths, webhooks, hmade⟩ := of_typed ht
  have hnames := Registry.nodup_registered hmade.operations
  have henters : Enters config d.spec t.operations repeated := by
    refine ⟨fun o ho => countP_placements hnames ho, fun x hx => (mem_placements.mp hx).1, ?_, ?_⟩
    · intro file hfile
      rw [files_eq] at hfile
      obtain ⟨e, he, hfile⟩ := List.mem_flatMap.mp hfile
      have hgroup : e.1 ∈ groups t.operations := by
        rw [← groups_stemmed]
        exact List.mem_map_of_mem he
      obtain ⟨o, ho, hkind, htag⟩ := exists_tagged (List.mem_map_of_mem hgroup)
      have hstem : stemOf t.operations e.1.1 = e.2 := by
        have hsame := List.inj_on_of_nodup_map nodup_tags (mem_stemmed hgroup) he rfl
        exact congrArg Prod.snd hsame
      refine ⟨o, ho, hkind, e.1.1, htag, ?_⟩
      rw [hstem]
      simp only [List.mem_cons, List.not_mem_nil, or_false] at hfile
      exact hfile.imp (congrArg Prod.fst) (congrArg Prod.fst)
    · intro o ho hkind tag htag
      obtain ⟨g, hg, -⟩ := exists_lookup_of_listed (mem_listed_iff.mpr ⟨ho, hkind, htag, rfl⟩)
      obtain ⟨hapi, hdata⟩ := lookup_files config d.spec hg
      exact ⟨_, _, hapi, hdata, listsPairs_of_typed h ht hg _ _ _⟩
  refine ⟨henters, fun honce o ho hkind => repeated_eq_once_iff.mp fun tag => ?_, fun hnodup => ?_⟩
  · have hplaced := henters.placed o ho tag o.path
    rwa [honce.placed o ho, if_pos ⟨hkind, rfl⟩, if_pos ⟨hkind, rfl⟩, eq_comm] at hplaced
  · exact henters.congr fun o ho hkind tag =>
      repeated_eq_once_iff.mpr (hnodup o ho hkind) tag

end Document

/-! ## 6. A tag that is repeated -/

/-- A value that spells a document with an operation that declares one tag twice. -/
def repeatedTagRaw : Json := .object [("openapi", .string "3.1.0"),
  ("paths", .object [("/pets", .object [("get", .object [("operationId", .string "list"),
    ("tags", .array [.string "pets", .string "pets"])])])])]

/-- The document that the value spells. -/
def repeatedTagDocument : Document where
  raw := repeatedTagRaw
  spec := {
    openapi := "3.1.0"
    paths := some [("/pets", { get := some {
      operationId := some "list"
      tags := ["pets", "pets"] } })] }

theorem loaded_repeatedTagDocument : repeatedTagDocument.Loaded :=
  ⟨repeatedTagRaw, Json.uniqueKeys_of_distinct (by cbv), by cbv⟩

/-- The operation of the document, as it is registered. -/
def repeatedTagOperation : TypedOperation where
  name := "list"
  location := ⟨["paths", "/pets", "get"]⟩
  kind := .path
  method := .get
  path := "/pets"
  tags := ["pets", "pets"]
  pathParams := []
  headerParams := []
  cookieParams := []
  doc := none
  type := .closed [.of "parameters" .void false false, .of "content" .void false false,
    .of "responses" (.closed []) false false, .of "exceptions" (.closed []) false false]

/-- The types of the document. -/
def repeatedTagTypes : TypedDocument where
  paths := .closed [.of "/pets" (.closed [.of "get" (.operation "list") false false]) false false]
  webhooks := .closed []
  components := .closed [
    .of "schemas" .never false false, .of "responses" .never false false,
    .of "parameters" .never false false, .of "requestBodies" .never false false,
    .of "headers" .never false false, .of "pathItems" .never false false]
  operations := [repeatedTagOperation]
  referenced := []

theorem typed_repeatedTagDocument : repeatedTagDocument.typed {} = .ok repeatedTagTypes := by
  cbv

/-- The operation is entered twice under its tag. -/
theorem enters_repeatedTagDocument : repeatedTagDocument.Loaded ∧
    repeatedTagDocument.typed {} = .ok repeatedTagTypes ∧
    Catalog.Enters {} repeatedTagDocument.spec [repeatedTagOperation] Catalog.repeated :=
  ⟨loaded_repeatedTagDocument, typed_repeatedTagDocument,
    (Document.enters_of_typed loaded_repeatedTagDocument typed_repeatedTagDocument).1⟩

/-- **An operation that repeats a tag is entered more than once under it**, and the file of the tag
declares its method more than once. -/
theorem not_enters_repeatedTag : ¬ ∀ (d : Document) (config : Config) (t : TypedDocument),
    d.Loaded → d.typed config = .ok t →
    Catalog.Enters config d.spec t.operations Catalog.once := by
  intro hall
  have henters := hall _ _ _ loaded_repeatedTagDocument typed_repeatedTagDocument
  have honce := henters.placed repeatedTagOperation (List.mem_singleton_self _) "pets" "/pets"
  have hnames : ([repeatedTagOperation].map (·.name)).Nodup := List.nodup_singleton _
  have htwice := Catalog.countP_placements hnames (List.mem_singleton_self _) "pets" "/pets"
  rw [show repeatedTagTypes.operations = [repeatedTagOperation] from rfl, htwice] at honce
  revert honce
  decide

end ApiTypes
