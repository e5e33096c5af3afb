/-
# The names of the files

Besides the module of types there are two files for each tag, and none of them replaces another when
they are written one after the other.  The characters of a tag that cannot stand in the name of a
file are replaced, so tags can share a file name; then they are numbered, and a numbered form can
again be the file name of another tag.  A number that is free is always found.

* `Catalog.tagsIn` are the tags of the operations of paths.
* `Naming.IsFileStem` says what the name of a file is made of, and
  `Naming.isFileStem_numbered` that numbered file names are.
* `Catalog.written_of_nodup`: files of different names are all there when they are written.
* `Document.files_of_output`: the files of a document.
-/
import ApiTypes.Proofs.Output.Entries

namespace ApiTypes

/-! ## 1. File names -/

namespace Naming

/-- What the name of a file is made of: letters, digits, hyphens, underscores and dots, and not of
dots alone. -/
structure IsFileStem (stem : String) : Prop where
  ne_empty : stem ≠ ""
  chars : ∀ c ∈ stem.toList, c.isAlphanum = true ∨ c ∈ ['-', '_', '.']
  notDots : ∃ c ∈ stem.toList, c ≠ '.'

variable {stem : String}

theorem IsFileStem.of (hchars : ∀ c ∈ stem.toList, c.isAlphanum = true ∨ c ∈ ['-', '_', '.'])
    (hdots : ∃ c ∈ stem.toList, c ≠ '.') : IsFileStem stem := by
  refine ⟨?_, hchars, hdots⟩
  rintro rfl
  obtain ⟨c, hc, -⟩ := hdots
  simp at hc

theorem isFileChar_iff {c : Char} :
    isFileChar c = true ↔ c.isAlphanum = true ∨ c ∈ ['-', '_', '.'] := by
  simp [isFileChar, or_assoc]

/-- **The file name of a text**, whatever the text is. -/
theorem isFileStem_fileStem (name : String) : IsFileStem (fileStem name) := by
  have htext : (fileStem name).toList = fileStemChars name.toList := String.toList_ofList
  apply IsFileStem.of
  · intro c hc
    rw [htext, fileStemChars] at hc
    split at hc
    · simp only [List.mem_singleton] at hc
      simp [hc]
    · obtain ⟨d, -, rfl⟩ := List.mem_map.mp hc
      rw [← isFileChar_iff]
      split
      · assumption
      · rfl
  · rw [htext, fileStemChars]
    split
    · exact ⟨'_', by simp⟩
    · rename_i hall
      simpa using hall

/-- A file name with a number behind it. -/
theorem IsFileStem.numbered (h : IsFileStem stem) (n : Nat) : IsFileStem (numbered stem n) := by
  unfold Naming.numbered
  split
  · exact h
  · have htext : (stem ++ "_" ++ toString n).toList
        = stem.toList ++ '_' :: Nat.toDigits 10 n := by
      rw [String.toList_append, String.toList_append, ← Nat.toList_repr, List.append_assoc]
      rfl
    apply IsFileStem.of
    · intro c hc
      rw [htext, List.mem_append, List.mem_cons] at hc
      rcases hc with hc | rfl | hc
      · exact h.chars c hc
      · simp
      · left
        have hdigit := Nat.isDigit_of_mem_toDigits (by decide) (by decide) hc
        simp [Char.isAlphanum, hdigit]
    · exact ⟨'_', by rw [htext]; simp, by decide⟩

end Naming

namespace Catalog

/-! ## 2. Files that are written -/

/-- The files that are there when some are written one after the other: one that has the name of
an earlier one replaces it. -/
def written (files : List (String × String)) : List (String × String) :=
  files.foldl (fun there file => updateAt file.1 file.2 (fun _ => file.2) there) []

section Written

variable {α : Type} {key : String} {fresh : α} {change : α → α} {es : List (String × α)}

theorem updateAt_of_notMem (h : key ∉ es.map Prod.fst) :
    updateAt key fresh change es = es ++ [(key, change fresh)] := by
  induction es with
  | nil => rfl
  | cons e rest ih =>
    rw [List.map_cons, List.mem_cons, not_or] at h
    rw [updateAt, if_neg (Ne.symm h.1), ih h.2, List.cons_append]

/-- **Files of different names are all there.** -/
theorem written_of_nodup {files : List (String × String)} (h : (files.map Prod.fst).Nodup) :
    written files = files := by
  suffices hfrom : ∀ there : List (String × String), ((there ++ files).map Prod.fst).Nodup →
      files.foldl (fun there file => updateAt file.1 file.2 (fun _ => file.2) there) there
        = there ++ files from hfrom [] h
  induction files with
  | nil => simp
  | cons file rest ih =>
    intro there hthere
    have hnew : file.1 ∉ there.map Prod.fst := by
      rw [List.map_append, List.map_cons, List.nodup_append] at hthere
      exact fun hmem => hthere.2.2 _ hmem _ List.mem_cons_self rfl
    have hrest : ((there ++ [file] ++ rest).map Prod.fst).Nodup := by
      rwa [List.append_assoc, List.singleton_append]
    rw [List.foldl_cons, updateAt_of_notMem hnew, ih (List.nodup_cons.mp h).2 _ hrest,
      List.append_assoc, List.singleton_append]

end Written

/-! ## 3. Tags and stems -/

/-- The tags of the operations of paths. -/
def tagsIn (operations : Registry) : Finset String :=
  ((operations.filter (·.kind = .path)).flatMap tagsOf).toFinset

variable {operations : Registry} {tag : String}

theorem mem_tagsIn : tag ∈ tagsIn operations ↔
    ∃ o ∈ operations, o.kind = .path ∧ tag ∈ tagsOf o := by
  simp [tagsIn, and_assoc]

/-- Each tag has a group, and each group is that of a tag. -/
theorem mem_tags_iff : tag ∈ (groups operations).map Prod.fst ↔ tag ∈ tagsIn operations := by
  rw [mem_tagsIn]
  constructor
  · exact exists_tagged
  · rintro ⟨o, ho, hkind, htag⟩
    obtain ⟨g, hg, -⟩ := exists_lookup_of_listed (mem_listed_iff.mpr ⟨ho, hkind, htag, rfl⟩)
    exact List.mem_map_of_mem hg

/-- There are as many groups as there are tags. -/
theorem length_groups (operations : Registry) :
    (groups operations).length = (tagsIn operations).card := by
  have hsame : ((groups operations).map Prod.fst).toFinset = tagsIn operations := by
    ext tag
    rw [List.mem_toFinset, mem_tags_iff]
  rw [← hsame, List.toFinset_card_of_nodup (nodup_groups operations), List.length_map]

/-- **The files of a document under the names of its tags.**  Each tag has two files of one stem,
which is the first form of its file name that no tag before it has. -/
structure NamesApart (config : Config) (s : Spec) (operations : Registry) (stems : List String)
    (files : List (String × String)) : Prop where
  names : files.map Prod.fst
    = Output.typesFile :: stems.flatMap fun stem => [apiName stem, dataName stem]
  length : stems.length = (tagsIn operations).card
  nodup : stems.Nodup
  isFileStem : ∀ stem ∈ stems, Naming.IsFileStem stem
  ofTag : ∀ tag ∈ tagsIn operations, ∃ i stem g, (groups operations)[i]? = some (tag, g) ∧
    stems[i]? = some stem ∧
    Naming.IsFirstFree (stems.take i) (Naming.fileStem tag) stem ∧
    (apiName stem, apiFile config.runtimeModule stem (tagDescription s tag) g) ∈ files ∧
    (dataName stem, dataFile (serverName s) g) ∈ files

/-- The stems of all groups, in their order. -/
def stems (operations : Registry) : List String :=
  Naming.distinctNames ((groups operations).map fun (tag, _) => Naming.fileStem tag)

theorem length_stems (operations : Registry) :
    (stems operations).length = (groups operations).length := by
  rw [stems, ← (Naming.numbers_distinctNames _).length_eq, List.length_map]

variable {config : Config} {s : Spec} {g : Group}

/-- The stem of a group is the first form of the file name of its tag that is free. -/
theorem exists_stem {i : Nat} (h : (groups operations)[i]? = some (tag, g)) :
    ∃ stem, (stems operations)[i]? = some stem ∧
      Naming.IsFirstFree ((stems operations).take i) (Naming.fileStem tag) stem :=
  Naming.isFirstFree_distinctNames (by rw [List.getElem?_map, h, Option.map_some])

theorem isFileStem_of_mem_stems {stem : String} (h : stem ∈ stems operations) :
    Naming.IsFileStem stem := by
  obtain ⟨i, hi⟩ := List.getElem?_of_mem h
  have hlt : i < (groups operations).length := by
    rw [← length_stems]
    exact (List.getElem?_eq_some_iff.mp hi).1
  obtain ⟨stem', hstem', hfree⟩ := exists_stem (List.getElem?_eq_getElem hlt)
  obtain rfl : stem = stem' := Option.some.inj (hi.symm.trans hstem')
  obtain ⟨n, -, rfl, -⟩ := hfree.first
  exact (Naming.isFileStem_fileStem _).numbered n

/-- The names of the files of the catalog. -/
theorem names_files (config : Config) (s : Spec) (operations : Registry) :
    (files config s operations).map Prod.fst
      = (stems operations).flatMap fun stem => [apiName stem, dataName stem] := by
  have hstems : (stemmed operations).map Prod.snd = stems operations :=
    List.map_snd_zip (length_stems operations).le
  rw [files_eq, List.map_flatMap, ← hstems, List.flatMap_map]
  rfl

/-- **The files of the module and of the catalog.** -/
theorem namesApart_filesOf (hcatalog : config.catalog = true) (t : TypedDocument) :
    NamesApart config s t.operations (stems t.operations) (Output.filesOf config s t) := by
  have hfiles : Output.filesOf config s t
      = (Output.typesFile, Output.typesModule config t) :: files config s t.operations := by
    rw [Output.filesOf, if_pos hcatalog]
  refine ⟨?_, ?_, Naming.nodup_distinctNames _, fun stem => isFileStem_of_mem_stems, ?_⟩
  · rw [hfiles, List.map_cons, names_files]
  · rw [length_stems, length_groups]
  · intro tag htag
    obtain ⟨⟨tag', g⟩, hg, rfl⟩ := List.mem_map.mp (mem_tags_iff.mpr htag)
    obtain ⟨i, hi⟩ := List.getElem?_of_mem hg
    obtain ⟨stem, hstem, hfree⟩ := exists_stem hi
    have hmem : ((tag', g), stem) ∈ stemmed t.operations := by
      refine List.mem_of_getElem? (i := i) ?_
      rw [stemmed, List.getElem?_zip_eq_some]
      exact ⟨hi, hstem⟩
    refine ⟨i, stem, g, hi, hstem, hfree, ?_, ?_⟩
    · rw [hfiles, files_eq]
      exact List.mem_cons_of_mem _ (List.mem_flatMap.mpr ⟨_, hmem, List.mem_cons_self⟩)
    · rw [hfiles, files_eq]
      refine List.mem_cons_of_mem _ (List.mem_flatMap.mpr ⟨_, hmem, ?_⟩)
      exact List.mem_cons_of_mem _ (List.mem_singleton_self _)

/-- No two files have one name, and the module of types has a name of its own. -/
theorem nodup_filesOf (config : Config) (s : Spec) (t : TypedDocument) :
    ((Output.filesOf config s t).map Prod.fst).Nodup := by
  rw [Output.filesOf, List.map_cons]
  split
  · refine List.nodup_cons.mpr ⟨?_, nodup_files⟩
    rw [names_files, List.mem_flatMap]
    rintro ⟨stem, -, hmem⟩
    rw [List.mem_cons, List.mem_singleton] at hmem
    rcases hmem with h | h
    · exact apiName_ne_typesFile stem h.symm
    · exact dataName_ne_typesFile stem h.symm
  · simp

end Catalog

namespace Document

variable {d : Document} {config : Config}

/-- **No file of a document replaces another.**  There is the module of types, and there are two
files for each tag of the operations of paths; their stems are names of files, and they differ,
since the search for a stem ends, whatever is taken, with a form that is free. -/
theorem files_of_output {out : Output} (hout : d.output config = .ok out)
    (hcatalog : config.catalog = true) : ∃ t, d.typed config = .ok t ∧
      out.files.length = 2 * (Catalog.tagsIn t.operations).card + 1 ∧
      Catalog.NamesApart config d.spec t.operations (Catalog.stems t.operations) out.files ∧
      Catalog.written out.files = out.files ∧
      ∀ taken tag, Naming.IsFirstFree taken (Naming.fileStem tag)
        (Naming.freeName taken (Naming.fileStem tag)) := by
  obtain ⟨t, ht, hfiles⟩ := typed_of_output hout
  have hapart := Catalog.namesApart_filesOf (s := d.spec) hcatalog t
  refine ⟨t, ht, ?_, hfiles ▸ hapart, ?_, ?_⟩
  · have hlength := congrArg List.length hapart.names
    rw [List.length_map, List.length_cons, List.length_flatMap] at hlength
    simp only [List.length_cons, List.length_nil, List.map_const', List.sum_replicate,
      hapart.length, smul_eq_mul] at hlength
    rw [hfiles, hlength]
    omega
  · rw [hfiles]
    exact Catalog.written_of_nodup (Catalog.nodup_filesOf config d.spec t)
  · exact fun taken tag => Naming.isFirstFree_freeName taken _

end Document

/-! ## 4. Tags that share a file name -/

/-- A value that spells a document in which three tags share a file name, one of them only with its
number; an operation has no tags. -/
def tagsRaw : Json := .object [("openapi", .string "3.1.0"),
  ("paths", .object [("/pets", .object [
    ("get", .object [("tags", .array [.string "pet store", .string "pet_store_2",
      .string "pet/store"])]),
    ("post", .object [])])])]

/-- The document that the value spells. -/
def tagsDocument : Document where
  raw := tagsRaw
  spec := {
    openapi := "3.1.0"
    paths := some [("/pets", {
      get := some { tags := ["pet store", "pet_store_2", "pet/store"] }
      post := some {} })] }

theorem stems_tagsDocument : ∃ t, tagsDocument.typed catalogConfig = .ok t ∧
    Catalog.stems t.operations = ["pet_store", "pet_store_2", "pet_store_3", "default"] :=
  ⟨_, by cbv, by decide +kernel⟩

/-- The files of four tags. -/
theorem files_tagsDocument : catalogConfig.catalog = true ∧
    ∃ out, tagsDocument.output catalogConfig = .ok out ∧ Catalog.written out.files = out.files ∧
      out.files.map Prod.fst = ["types.ts", "api/pet_store.ts", "data/pet_store.js",
        "api/pet_store_2.ts", "data/pet_store_2.js", "api/pet_store_3.ts", "data/pet_store_3.js",
        "api/default.ts", "data/default.js"] := by
  obtain ⟨t, ht, hstems⟩ := stems_tagsDocument
  have hout : tagsDocument.output catalogConfig = .ok ⟨Output.sectionTexts catalogConfig t,
      Output.filesOf catalogConfig tagsDocument.spec t⟩ := by
    rw [Document.output, ht]
    rfl
  obtain ⟨t', ht', -, hapart, hwritten, -⟩ := Document.files_of_output hout rfl
  obtain rfl : t = t' := Except.ok.inj (ht.symm.trans ht')
  refine ⟨rfl, _, hout, hwritten, ?_⟩
  rw [hapart.names, hstems]
  decide +kernel

end ApiTypes
