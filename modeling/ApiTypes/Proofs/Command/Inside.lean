/-
# Where a command writes

A path that does not start at the root, and never goes up, leads from a place in the working
directory to another one.  The names of the files of an output are such paths, and so are the names
of the directories of a batch, but for the one that is `..`.  So what a command writes lies in the
working directory if its output directory does and no source of the batch leaves `..` for its name.

* `FilePath.LeadsDown`: the paths that never go up; `Location.isInside_entry`: where they lead.
* `FileTree.GrowsInside`: every file that a tree has and an earlier one has not lies inside.
* `FileTree.growsInside_write?` is the step, `CommandLine.growsInside_run` what follows for a
  command.
-/
import ApiTypes.Proofs.Command.Directories
import ApiTypes.Proofs.Output.Stems

namespace ApiTypes

/-! ## 1. Paths that lead down -/

namespace FilePath

/-- A path that does not start at the root, and of which no stretch goes up. -/
def LeadsDown (path : String) : Prop :=
  path.toList.head? ≠ some '/' ∧ ['.', '.'] ∉ Text.pieces '/' path.toList

variable {directory name : String}

/-- A name leads down unless it is the name of the parent. -/
theorem leadsDown_of_noSlash (h : '/' ∉ name.toList) (hparent : name ≠ "..") :
    LeadsDown name := by
  refine ⟨fun hhead => h (List.mem_of_head? hhead), ?_⟩
  rw [Text.pieces_of_notMem h, List.mem_singleton]
  exact fun heq => hparent (toList_eq_iff.mp heq.symm)

/-- The stretches of an entry are those of its directory, but for an empty one at the end, and then
its own. -/
theorem pieces_entry (name : String) (h : directory ≠ "") :
    (entry directory name).toList.head? = directory.toList.head? ∧
      ∃ front, (Text.pieces '/' directory.toList = front ∨
          Text.pieces '/' directory.toList = front ++ [[]]) ∧
        Text.pieces '/' (entry directory name).toList = front ++ Text.pieces '/' name.toList := by
  have hsome : directory.toList ≠ [] := fun heq => h (toList_eq_iff.mp heq)
  by_cases hends : directory.toList.getLast? = some '/'
  · -- The slash between the two is that of the directory.
    obtain ⟨cs, hcs⟩ := List.getLast?_eq_some_iff.mp hends
    have htext : (entry directory name).toList = cs ++ '/' :: name.toList := by
      simp [entry, hcs]
    refine ⟨?_, Text.pieces '/' cs, .inr ?_, ?_⟩
    · rw [htext, hcs]
      cases cs <;> rfl
    · rw [hcs, Text.pieces_append_separator]
      rfl
    · rw [htext, Text.pieces_append_separator]
  · have htext : (entry directory name).toList = directory.toList ++ '/' :: name.toList := by
      simp [entry, h, hends]
    refine ⟨?_, _, .inl rfl, ?_⟩
    · rw [htext, List.head?_append_of_ne_nil _ hsome]
    · rw [htext, Text.pieces_append_separator]

/-- A way down after a way down leads down. -/
theorem LeadsDown.entry (hdirectory : LeadsDown directory) (hname : LeadsDown name) :
    LeadsDown (entry directory name) := by
  by_cases hempty : directory = ""
  · simpa [hempty, FilePath.entry] using hname
  · obtain ⟨hhead, front, hfront, hpieces⟩ := pieces_entry name hempty
    refine ⟨hhead ▸ hdirectory.1, ?_⟩
    rw [hpieces, List.mem_append, not_or]
    refine ⟨fun hup => hdirectory.2 ?_, hname.2⟩
    rcases hfront with h | h
    · exact h ▸ hup
    · exact h ▸ List.mem_append_left _ hup

end FilePath

open FilePath

namespace Location

/-- The place at the end of a path, whatever is there. -/
def ofPath (path : String) : Location :=
  (Text.pieces '/' path.toList).foldl step (FileTree.start path)

/-- **An entry is found from the place of its directory on**, unless its name starts at the root. -/
theorem ofPath_entry {directory name : String} (h : name.toList.head? ≠ some '/') :
    ofPath (entry directory name) =
      (Text.pieces '/' name.toList).foldl step (ofPath directory) := by
  by_cases hempty : directory = ""
  · have hentry : entry "" name = name := by simp [entry]
    have hplace : ofPath "" = [] := rfl
    rw [hempty, hentry, hplace, ofPath, FileTree.start, if_neg h]
  · obtain ⟨hhead, front, hfront, hpieces⟩ := pieces_entry name hempty
    have hplace : ofPath directory = front.foldl step (FileTree.start directory) := by
      rcases hfront with h | h
      · rw [ofPath, h]
      · rw [ofPath, h, List.foldl_append]
        rfl
    rw [hplace, ofPath, hpieces, List.foldl_append, FileTree.start, hhead, FileTree.start]

/-- A stretch that does not go up leads from a place inside to one inside. -/
theorem isInside_step {l : Location} {stretch : List Char} (h : l.isInside = true)
    (hup : stretch ≠ ['.', '.']) : (l.step stretch).isInside = true := by
  have hparent : component? stretch ≠ some .parent := by
    unfold component?
    grind
  unfold step
  split
  · simpa [isInside, name?] using h
  · contradiction
  · exact h

theorem isInside_steps {stretches : List (List Char)} {l : Location} (h : l.isInside = true)
    (hup : ['.', '.'] ∉ stretches) : (stretches.foldl step l).isInside = true := by
  induction stretches generalizing l with
  | nil => exact h
  | cons stretch rest ih =>
    rw [List.mem_cons, not_or] at hup
    exact ih (isInside_step h (Ne.symm hup.1)) hup.2

/-- **A name that leads down leads from a place inside to a place inside.** -/
theorem isInside_entry {directory name : String} (hdirectory : (ofPath directory).isInside = true)
    (hname : LeadsDown name) : (ofPath (entry directory name)).isInside = true := by
  rw [ofPath_entry hname.1]
  exact isInside_steps hdirectory hname.2

example : (ofPath "docs/../out/api/pets.ts").isInside = true ∧
    (ofPath "out/../../pets.ts").isInside = false := by
  decide +kernel

end Location

/-! ## 2. Trees that grow -/

namespace FileTree

variable {t t' t'' : FileTree}

/-- **Whatever a tree has that an earlier one has not lies inside.** -/
def GrowsInside (t t' : FileTree) : Prop :=
  ∀ f ∈ t'.files, f ∈ t.files ∨ f.1.isInside = true

theorem GrowsInside.refl (t : FileTree) : GrowsInside t t := fun _ hf => .inl hf

theorem GrowsInside.trans (h : GrowsInside t t') (h' : GrowsInside t' t'') : GrowsInside t t'' :=
  fun f hf => (h' f hf).elim (h f) .inr

/-- Making directories leaves the files alone, and comes to the end of the path. -/
theorem of_make? {l l' : Location} {stretches : List (List Char)}
    (h : t.make? l stretches = some (t', l')) :
    t'.files = t.files ∧ l' = stretches.foldl Location.step l := by
  induction stretches generalizing t l with
  | nil =>
    rw [make?, Option.ite_none_left_eq_some] at h
    obtain ⟨-, h⟩ := h
    cases h
    exact ⟨rfl, rfl⟩
  | cons stretch rest ih =>
    rw [make?, Option.ite_none_left_eq_some] at h
    obtain ⟨hfiles, hplace⟩ := ih h.2
    exact ⟨hfiles, hplace⟩

/-- **A file is written to the place at the end of its path**, and no other one is touched. -/
theorem files_of_write? {directory name contents : String}
    (h : t.write? directory name contents = some t') :
    t'.files = (Location.ofPath (entry directory name), contents)
      :: t.files.filter fun f => f.1 ≠ Location.ofPath (entry directory name) := by
  rw [write?, Option.bind_eq_bind, Option.bind_eq_some_iff] at h
  obtain ⟨⟨made, l⟩, hmake, hput⟩ := h
  obtain ⟨hfiles, rfl⟩ := of_make? hmake
  obtain ⟨last, hlast⟩ := Option.isSome_iff_exists.mp (List.getLast?_isSome.mpr
    (Text.pieces_ne_nil '/' (entry directory name).toList))
  have hplace : Location.ofPath (entry directory name) = Location.step
      ((Text.pieces '/' (entry directory name).toList).dropLast.foldl Location.step
        (start (entry directory name)))
      ((Text.pieces '/' (entry directory name).toList).getLast?.getD []) := by
    rw [hlast, Option.getD_some, Location.ofPath]
    conv_lhs => rw [← List.dropLast_append_getLast? last hlast]
    rw [List.foldl_concat]
  simp only [← hplace, Option.ite_none_left_eq_some, Option.some.injEq] at hput
  obtain ⟨-, rfl⟩ := hput
  rw [put, hfiles]

/-- **A file whose name leads down from a directory inside is written inside.** -/
theorem growsInside_write? {directory name contents : String}
    (hdirectory : (Location.ofPath directory).isInside = true) (hname : LeadsDown name)
    (h : t.write? directory name contents = some t') : GrowsInside t t' := by
  intro f hf
  rw [files_of_write? h, List.mem_cons] at hf
  rcases hf with rfl | hf
  · exact .inr (Location.isInside_entry hdirectory hname)
  · exact .inl (List.mem_filter.mp hf).1

theorem growsInside_writeAll {directory : String}
    (hdirectory : (Location.ofPath directory).isInside = true) :
    ∀ (files : List (String × String)) (t : FileTree), (∀ file ∈ files, LeadsDown file.1) →
      GrowsInside t (t.writeAll directory files).2
  | [], t, _ => .refl t
  | (name, contents) :: rest, t, hfiles => by
    rw [List.forall_mem_cons] at hfiles
    rw [writeAll]
    split
    · next written hwritten =>
      exact (growsInside_write? hdirectory hfiles.1 hwritten).trans
        (growsInside_writeAll hdirectory rest written hfiles.2)
    · exact .refl t

end FileTree

/-! ## 3. Commands -/

/-- The name of a file that is not made of dots alone leads down. -/
theorem Naming.IsFileStem.leadsDown {stem extension : String} (h : Naming.IsFileStem stem)
    (hextension : '/' ∉ extension.toList) : LeadsDown (stem ++ extension) := by
  apply leadsDown_of_noSlash
  · rw [String.toList_append, List.mem_append, not_or]
    refine ⟨fun hslash => ?_, hextension⟩
    exact absurd (h.chars _ hslash) (by decide)
  · intro heq
    obtain ⟨c, hc, hdot⟩ := h.notDots
    have hmem : c ∈ (stem ++ extension).toList := by
      rw [String.toList_append]
      exact List.mem_append_left _ hc
    rw [heq] at hmem
    exact hdot (by simpa using hmem)

/-- The name of a file in a directory with a plain name leads down. -/
theorem Naming.IsFileStem.leadsDown_entry {stem extension directory : String}
    (h : Naming.IsFileStem stem) (hextension : '/' ∉ extension.toList)
    (hdirectory : IsPlain directory) : LeadsDown (entry directory (stem ++ extension)) :=
  (leadsDown_of_noSlash hdirectory.noSlash hdirectory.ne_parent).entry (h.leadsDown hextension)

theorem Catalog.apiName_eq (stem : String) : apiName stem = entry "api" (stem ++ ".ts") := by
  rw [apiName, entry, if_neg (by decide), String.append_assoc]
  rfl

theorem Catalog.dataName_eq (stem : String) : dataName stem = entry "data" (stem ++ ".js") := by
  rw [dataName, entry, if_neg (by decide), String.append_assoc]
  rfl

/-- **The names of the files of an output lead down.** -/
theorem Output.leadsDown_filesOf {config : Config} {s : Spec} {d : TypedDocument} :
    ∀ file ∈ filesOf config s d, LeadsDown file.1 := by
  have htypes : LeadsDown typesFile := leadsDown_of_noSlash (by decide) (by decide)
  rw [filesOf, List.forall_mem_cons]
  refine ⟨htypes, ?_⟩
  split
  · rw [← List.forall_mem_map (f := Prod.fst) (P := LeadsDown), Catalog.names_files]
    intro name hname
    obtain ⟨stem, hstem, hname⟩ := List.mem_flatMap.mp hname
    have hfile := Catalog.isFileStem_of_mem_stems hstem
    rw [List.mem_cons, List.mem_singleton, Catalog.apiName_eq, Catalog.dataName_eq] at hname
    rcases hname with rfl | rfl
    · exact hfile.leadsDown_entry (by decide) (by decide)
    · exact hfile.leadsDown_entry (by decide) (by decide)
  · exact List.forall_mem_nil _

namespace CommandLine

open FileTree (GrowsInside)

variable {c : CommandLine} {t : FileTree} {given directory : String}

/-- The outcome for a document, and a directory inside from which the names of its files lead
down. -/
def Stored (task : (Source × Except CommandFault Output) × String) : Prop :=
  (Location.ofPath task.2).isInside = true ∧
    ∀ output, task.1.2 = .ok output → ∀ file ∈ output.files, LeadsDown file.1

theorem growsInside_store : ∀ (tasks : List ((Source × Except CommandFault Output) × String))
    (t : FileTree), (∀ task ∈ tasks, Stored task) → GrowsInside t (store t tasks).2
  | [], t, _ => .refl t
  | ((source, .error e), directory) :: rest, t, h => by
    rw [List.forall_mem_cons] at h
    exact growsInside_store rest t h.2
  | ((source, .ok output), directory) :: rest, t, h => by
    rw [List.forall_mem_cons] at h
    obtain ⟨⟨hdirectory, hfiles⟩, hrest⟩ := h
    exact (FileTree.growsInside_writeAll hdirectory output.files t (hfiles output rfl)).trans
      (growsInside_store rest _ hrest)

/-- The names of the files that are made of a text lead down. -/
theorem leadsDown_files {config : Config} {text : String} {output : Output}
    (h : Output.ofText config text = .ok output) {file : String × String}
    (hfile : file ∈ output.files) : LeadsDown file.1 := by
  obtain ⟨d, -, hd⟩ := ok_of_bind h
  obtain ⟨typed, -, hfiles⟩ := Document.typed_of_output hd
  rw [hfiles] at hfile
  exact Output.leadsDown_filesOf file hfile

/-- The outcomes of a command are those of its sources, and the names of their files lead down. -/
theorem of_outcomes {outcomes : List (Source × Except CommandFault Output)}
    (h : c.outcomes t given = .ok outcomes) :
    Source.ofInput t c.input = .ok (outcomes.map Prod.fst) ∧
      ∀ task ∈ outcomes, ∀ output, task.2 = .ok output → ∀ file ∈ output.files,
        LeadsDown file.1 := by
  obtain ⟨sources, hsources, h⟩ := ok_of_bind h
  split at h
  · cases h
  obtain ⟨-, -, h⟩ := ok_of_bind h
  obtain ⟨config, -, h⟩ := ok_of_bind h
  obtain ⟨-, -, h⟩ := ok_of_bind h
  cases h
  refine ⟨by simpa [Function.comp_def] using hsources, List.forall_mem_map.mpr ?_⟩
  intro source _ output houtput file hfile
  obtain ⟨text, -, htext⟩ := ok_of_bind houtput
  cases hof : Output.ofText config text with
  | error e =>
    rw [hof] at htext
    cases htext
  | ok made =>
    rw [hof] at htext
    cases htext
    exact leadsDown_files hof hfile

/-- **The directories of a batch lie inside** if the output directory does, and if no source leaves
`..` for its name. -/
theorem isInside_directories {sources : List Source}
    (hdirectory : (Location.ofPath directory).isInside = true)
    (hsources : 1 < sources.length → ∀ i, ¬ Source.FirstLeaves sources i "..") :
    ∀ path ∈ directories directory sources, (Location.ofPath path).isInside = true := by
  unfold directories
  split
  · next hseveral =>
    refine List.forall_mem_map.mpr fun name hname => Location.isInside_entry hdirectory ?_
    obtain ⟨i, hi⟩ := List.getElem?_of_mem hname
    refine leadsDown_of_noSlash (Source.noSlash_directories hname).2 fun hup => ?_
    exact hsources hseveral i ((Source.directory_eq_iff hi (by decide)).mp hup)
  · exact List.forall_mem_map.mpr fun _ _ => hdirectory

/-- **A command writes inside.**  Every file that is there afterwards was there before or lies in
the working directory, if the output directory lies there, and if no source of several leaves `..`
for its name. -/
theorem growsInside_run
    (hdirectory : ∀ directory, c.output = some directory →
      (Location.ofPath directory).isInside = true)
    (hsources : ∀ sources, Source.ofInput t c.input = .ok sources → 1 < sources.length →
      ∀ i, ¬ Source.FirstLeaves sources i "..") :
    GrowsInside t (c.run given t).files := by
  unfold run
  cases houtcomes : c.outcomes t given with
  | error e => exact .refl t
  | ok outcomes =>
    cases houtput : c.output with
    | none => cases outcomes <;> exact .refl t
    | some directory =>
      obtain ⟨hinput, hfiles⟩ := of_outcomes houtcomes
      have hdirectories := isInside_directories (hdirectory directory houtput)
        (hsources _ hinput)
      refine growsInside_store _ t fun task htask => ⟨?_, ?_⟩
      · exact hdirectories _ (List.of_mem_zip htask).2
      · exact hfiles _ (List.of_mem_zip htask).1

end CommandLine

end ApiTypes
