/-
# The files of the catalog

Each tag has two files of one stem: the file name of the tag, numbered where two tags would share
it.  So a file is found under its name, and it is read here as a client reads it: the first as
lines of text, the second as the value that it exports.

* `Catalog.stemOf` is the stem of a tag; `Catalog.stemOf_injective` says that tags do not share it.
* `Catalog.Invokes` and `Catalog.Holds` say what the two files say about a path and a method.
* `Catalog.lookup_files` finds the files of a tag, `Catalog.invokes_apiFile` and
  `Catalog.holds_dataFile` say what is in them.
-/
import ApiTypes.Output.Basic
import ApiTypes.Proofs.Naming
import ApiTypes.Proofs.Output.Groups

namespace ApiTypes.Catalog

/-! ## 1. Stems -/

/-- The groups of the tags, each with the stem of its files. -/
def stemmed (operations : Registry) : List ((String × Group) × String) :=
  (groups operations).zip
    (Naming.distinctNames ((groups operations).map fun (tag, _) => Naming.fileStem tag))

/-- The stem of the files of a tag. -/
def stemOf (operations : Registry) (tag : String) : String :=
  (((stemmed operations).find? (·.1.1 = tag)).map Prod.snd).getD (Naming.fileStem tag)

variable {operations : Registry} {config : Config} {s : Spec} {tag tag' : String} {g : Group}
  {e : (String × Group) × String}

theorem numbers_stems (operations : Registry) :
    List.Forall₂ (fun t stem => ∃ n, stem = Naming.numbered (Naming.fileStem t.1) n)
      (groups operations)
      (Naming.distinctNames ((groups operations).map fun (tag, _) => Naming.fileStem tag)) :=
  List.forall₂_map_left_iff.mp (Naming.numbers_distinctNames _)

theorem groups_stemmed : (stemmed operations).map Prod.fst = groups operations :=
  List.map_fst_zip (numbers_stems operations).length_eq.le

theorem nodup_stems : ((stemmed operations).map Prod.snd).Nodup := by
  rw [stemmed, List.map_snd_zip (numbers_stems operations).length_eq.ge]
  exact Naming.nodup_distinctNames _

theorem nodup_tags : ((stemmed operations).map fun e => e.1.1).Nodup := by
  have h := nodup_groups operations
  rw [← groups_stemmed, List.map_map] at h
  exact h

/-- The stem of a tag is its file name, perhaps with a number. -/
theorem exists_numbered (operations : Registry) (tag : String) :
    ∃ n, stemOf operations tag = Naming.numbered (Naming.fileStem tag) n := by
  unfold stemOf
  cases h : (stemmed operations).find? (·.1.1 = tag) with
  | none => exact ⟨0, rfl⟩
  | some e =>
    have htag : e.1.1 = tag := by simpa using List.find?_some h
    rw [← htag]
    exact (List.forall₂_iff_zip.mp (numbers_stems operations)).2 (List.mem_of_find?_eq_some h)

/-- A tag that has a group has it with its stem. -/
theorem mem_stemmed (h : (tag, g) ∈ groups operations) :
    ((tag, g), stemOf operations tag) ∈ stemmed operations := by
  rw [← groups_stemmed] at h
  obtain ⟨e, he, heq⟩ := List.mem_map.mp h
  obtain ⟨e', he'⟩ : ∃ e', (stemmed operations).find? (·.1.1 = tag) = some e' :=
    Option.isSome_iff_exists.mp (List.find?_isSome.mpr ⟨e, he, by simp [heq]⟩)
  have htag : e'.1.1 = tag := by simpa using List.find?_some he'
  have hsame : e' = e := by
    refine List.inj_on_of_nodup_map nodup_tags (List.mem_of_find?_eq_some he') he ?_
    rw [htag, heq]
  rw [stemOf, he', hsame, ← heq]
  exact he

/-- **Tags do not share their files.** -/
theorem stemOf_injective {g' : Group} (h : (tag, g) ∈ groups operations)
    (h' : (tag', g') ∈ groups operations) (heq : stemOf operations tag = stemOf operations tag') :
    tag = tag' := by
  have hsame := List.inj_on_of_nodup_map nodup_stems (mem_stemmed h) (mem_stemmed h') heq
  rw [Prod.mk.injEq, Prod.mk.injEq] at hsame
  exact hsame.1.1

/-! ## 2. Names of files -/

/-- The name of the file that declares the paths of a tag. -/
def apiName (stem : String) : String := "api/" ++ stem ++ ".ts"

/-- The name of the file that holds what a client needs to know about the paths of a tag. -/
def dataName (stem : String) : String := "data/" ++ stem ++ ".js"

theorem apiName_inj {stem stem' : String} : apiName stem = apiName stem' ↔ stem = stem' := by
  rw [apiName, apiName, String.append_left_inj, String.append_right_inj]

theorem dataName_inj {stem stem' : String} : dataName stem = dataName stem' ↔ stem = stem' := by
  rw [dataName, dataName, String.append_left_inj, String.append_right_inj]

theorem apiName_ne_dataName (stem stem' : String) : apiName stem ≠ dataName stem' := by
  intro h
  have h := congrArg String.toList h
  simp [apiName, dataName] at h

theorem apiName_ne_typesFile (stem : String) : apiName stem ≠ Output.typesFile := by
  intro h
  have h := congrArg String.toList h
  simp [apiName, Output.typesFile] at h

theorem dataName_ne_typesFile (stem : String) : dataName stem ≠ Output.typesFile := by
  intro h
  have h := congrArg String.toList h
  simp [dataName, Output.typesFile] at h

theorem files_eq : files config s operations = (stemmed operations).flatMap fun e =>
    [(apiName e.2, apiFile config.runtimeModule e.2 (tagDescription s e.1.1) e.1.2),
      (dataName e.2, dataFile (serverName s) e.1.2)] :=
  rfl

/-- No two files have one name. -/
theorem nodup_files : ((files config s operations).map Prod.fst).Nodup := by
  rw [files_eq, List.map_flatMap, List.nodup_flatMap]
  constructor
  · intro e _
    simp [apiName_ne_dataName]
  · refine (List.pairwise_map.mp nodup_stems).imp fun {a b} hne => ?_
    simp [Function.onFun, apiName_inj, dataName_inj, Ne.symm hne, apiName_ne_dataName,
      Ne.symm (apiName_ne_dataName _ _)]

/-- **The files of a tag are found under their names.** -/
theorem lookup_files (config : Config) (s : Spec) (h : (tag, g) ∈ groups operations) :
    (files config s operations).lookup (apiName (stemOf operations tag)) =
        some (apiFile config.runtimeModule (stemOf operations tag) (tagDescription s tag) g) ∧
      (files config s operations).lookup (dataName (stemOf operations tag)) =
        some (dataFile (serverName s) g) := by
  constructor
  · refine lookup_of_mem nodup_files ?_
    rw [files_eq]
    exact List.mem_flatMap.mpr ⟨_, mem_stemmed h, List.mem_cons_self⟩
  · refine lookup_of_mem nodup_files ?_
    rw [files_eq]
    exact List.mem_flatMap.mpr
      ⟨_, mem_stemmed h, List.mem_cons_of_mem _ (List.mem_singleton_self _)⟩

/-! ## 3. What the files say -/

/-- The line that opens the entry of a path. -/
def pathLine (path : String) : String := "  " ++ Text.quote path ++ ": \x7b"

/-- The line of a method that invokes an operation. -/
def methodLine (method : Method) (name : String) : String :=
  "    " ++ method.name ++ ": Invokable<operations[" ++ Text.quote name ++ "]>"

/-- A text declares that a path and a method invoke an operation: the type of the paths is opened,
and in it the entry of the path, which has a line for each of its methods until it is closed. -/
def Invokes (text path : String) (method : Method) (name : String) : Prop :=
  ∃ (before : List String) (methods : List (Method × String)) (after : List String),
    text = Text.join "\n" (before ++ pathLine path
      :: (methods.map fun m => methodLine m.1 m.2) ++ "  \x7d" :: after) ∧
    "export type paths = \x7b" ∈ before ∧ (method, name) ∈ methods

/-- A text exports a value that has, for a path and a method, the names of the headers and cookies
that are sent; there is no field for no names. -/
def Holds (text path : String) (method : Method) (headers cookies : List String) : Prop :=
  ∃ v, text = "export default " ++ Json.indented v ++ "\n" ∧
    Pointer.find? v ⟨["paths", path, method.name]⟩
      = some (.object (namesField "headers" headers ++ namesField "cookies" cookies))

variable {path : String} {o : TypedOperation} {os : List TypedOperation}

/-- A text that declares something about a path has the line that opens the entry of the path. -/
theorem Invokes.infix {text name : String} {method : Method} (h : Invokes text path method name) :
    (pathLine path).toList <:+: text.toList := by
  obtain ⟨before, methods, after, rfl, -, -⟩ := h
  refine Text.infix_join (List.mem_append_left _ (List.mem_append_right _ ?_))
  exact List.mem_cons_self

/-- **The first file of a tag has a line for every operation of a path.** -/
theorem invokes_apiFile {runtimeModule stem : String} {description : Option String}
    (hg : g.lookup path = some os) (ho : o ∈ os) :
    Invokes (apiFile runtimeModule stem description g) path o.method o.name := by
  obtain ⟨first, last, rfl, -⟩ := List.lookup_eq_some_iff.mp hg
  refine ⟨(description.map (TypeExpr.docBlock · 0)).toList
      ++ ["import \x7b NewApis, Invokable \x7d from " ++ Text.quote runtimeModule,
        "import \x7b operations \x7d from \"../types\"",
        "import data from " ++ Text.quote ("../data/" ++ stem), "", "export type paths = \x7b"]
      ++ first.flatMap fun e => pathLines e.1 e.2,
    os.map fun o => (o.method, o.name),
    last.flatMap (fun e => pathLines e.1 e.2)
      ++ ["\x7d", "", "export default NewApis<paths>(data)", ""], ?_, ?_, ?_⟩
  · unfold apiFile
    rw [List.flatMap_append, List.flatMap_cons]
    simp only [pathLines, List.map_map, List.append_assoc, List.cons_append, List.nil_append]
    rfl
  · simp
  · exact List.mem_map.mpr ⟨o, ho, rfl⟩

/-- **The second file of a tag has what a client needs to know about the operations of a path**, if
those of one method agree on it. -/
theorem holds_dataFile {server : String} (hg : g.lookup path = some os) (ho : o ∈ os)
    (hos : ∀ o' ∈ os, o'.method.name = o.method.name → operationData o' = operationData o) :
    Holds (dataFile server g) path o.method o.headerParams o.cookieParams :=
  ⟨_, rfl, lookup_pathData hg ho hos⟩

end ApiTypes.Catalog
