/-
# The directories of a batch

When several documents are written, each has a directory of its own in the output directory.  Its
name is the stem of the source, numbered where an earlier source has that name; so the names differ,
and none has a slash.  But the stem is cut out of the name of a file at its last dot, and where only
one or two dots stand before that dot they are all that is left: the first source with such a name
is written to the output directory itself, or to the one above it.

* `Source.LeavesDots` and `Source.stem_eq_iff`: when a stem is `.` or `..`.
* `Source.directories_apart`: what the directories are, and which of them are not in the output
  directory.
* `Source.exists_directory_outside`: a document that is written outside of the output directory.
-/
import ApiTypes.Command.Run
import ApiTypes.Proofs.FilePath
import ApiTypes.Proofs.Naming

namespace ApiTypes

open FilePath

/-! ## 1. Numbered forms -/

namespace Naming

variable {base : String}

/-- A number has no slash in it. -/
theorem slash_notMem_toString (n : Nat) : '/' ∉ (toString n).toList := by
  intro h
  have hdigits : (toString n).toList = Nat.toDigits 10 n := Nat.toList_repr
  rw [hdigits] at h
  exact absurd (Nat.isDigit_of_mem_toDigits (by decide) (by decide) h) (by decide)

/-- **A name with a number behind it is plain**, also where the name by itself is not. -/
theorem isPlain_numbered_iff {n : Nat} (h : '/' ∉ base.toList) :
    IsPlain (numbered base n) ↔ 2 ≤ n ∨ IsPlain base := by
  by_cases hn : n ≤ 1
  · have hlt : ¬ 2 ≤ n := by omega
    simp [numbered, hn, hlt]
  · have htext : (numbered base n).toList = base.toList ++ '_' :: (toString n).toList := by
      simp [numbered, hn]
    have hmark : '_' ∈ (numbered base n).toList := by simp [htext]
    have hplain : IsPlain (numbered base n) := by
      refine ⟨?_, ?_, ?_, ?_⟩
      · rintro heq
        simp [heq] at hmark
      · rw [htext, List.mem_append, List.mem_cons]
        exact not_or.mpr ⟨h, not_or.mpr ⟨by decide, slash_notMem_toString n⟩⟩
      · intro heq
        simp [heq] at hmark
      · intro heq
        simp [heq] at hmark
    simp [hplain]
    omega

end Naming

namespace Source

variable {s : Source} {sources : List Source} {dots : String}

/-! ## 2. Stems -/

/-- The name of the file that a source is. -/
def fileName? : Source → Option String
  | standardInput => none
  | file path => name? path
  | url address => name? (String.ofList (urlName address.toList))

theorem ownStem?_eq (s : Source) : s.ownStem? = s.fileName?.map fun name => (cutName name).1 := by
  cases s <;> rfl

theorem plain_of_fileName? {name : String} (h : s.fileName? = some name) : IsPlain name := by
  cases s with
  | standardInput => cases h
  | file path => exact plain_of_name? h
  | url address => exact plain_of_name? h

/-- The name of a source has nothing but some dots before its extension. -/
def LeavesDots (s : Source) (dots : String) : Prop :=
  ∃ extension, '.' ∉ extension.toList ∧ s.fileName? = some (dots ++ "." ++ extension)

/-- A stem is what is left of the name of the source, or it is `api`. -/
theorem stem_cases (s : Source) :
    s.stem = "api" ∨ ∃ name, s.fileName? = some name ∧ s.stem = (cutName name).1 := by
  rw [stem, ownStem?_eq]
  cases s.fileName? with
  | none => exact .inl rfl
  | some name =>
    rw [Option.map_some, Option.filter_some]
    split
    · exact .inr ⟨name, rfl, rfl⟩
    · exact .inl rfl

/-- A stem is not empty, and it has no slash. -/
theorem stem_noSlash (s : Source) : s.stem ≠ "" ∧ '/' ∉ s.stem.toList := by
  rcases stem_cases s with h | ⟨name, hname, h⟩
  · rw [h]
    decide
  · rw [h]
    exact cutName_of_plain (plain_of_fileName? hname)

/-- The names that lead nowhere, or up. -/
theorem not_isPlain_of_dots (h : dots ∈ [".", ".."]) : dots ≠ "" ∧ ¬ IsPlain dots := by
  simp only [List.mem_cons, List.not_mem_nil, or_false] at h
  rcases h with rfl | rfl <;> decide

/-- **A stem is `.` or `..` if nothing else stands before the extension**, and in no other case. -/
theorem stem_eq_iff (hdots : dots ∈ [".", ".."]) : s.stem = dots ↔ s.LeavesDots dots := by
  obtain ⟨hsome, hplain⟩ := not_isPlain_of_dots hdots
  constructor
  · rintro rfl
    rcases stem_cases s with h | ⟨name, hname, h⟩
    · rw [h] at hdots
      exact absurd hdots (by decide)
    · rw [h] at hsome hplain
      obtain ⟨extension, hextension, heq⟩ :=
        (cutName_eq_iff (plain_of_fileName? hname) hplain hsome).mp rfl
      exact ⟨extension, hextension, by rw [hname, h, ← heq]⟩
  · rintro ⟨extension, hextension, hname⟩
    have hcut := (cutName_eq_iff (plain_of_fileName? hname) hplain hsome).mpr
      ⟨extension, hextension, rfl⟩
    have hcolon : ':' ∉ dots.toList := by
      simp only [List.mem_cons, List.not_mem_nil, or_false] at hdots
      rcases hdots with rfl | rfl <;> decide
    rw [stem, ownStem?_eq, hname, Option.map_some, hcut, Option.filter_some,
      if_pos (by simp [hsome, hcolon])]
    rfl

/-! ## 3. Directories -/

/-- A source is the first of its batch whose name leaves some dots. -/
def FirstLeaves (sources : List Source) (i : Nat) (dots : String) : Prop :=
  (∃ s, sources[i]? = some s ∧ s.LeavesDots dots) ∧
    ∀ j < i, ∀ s, sources[j]? = some s → ¬ s.LeavesDots dots

/-- The first form of a stem that is free is plain, or it is the stem. -/
theorem eq_stem_of_not_isPlain {taken : List String} {name : String}
    (h : Naming.IsFirstFree taken s.stem name) (hname : ¬ IsPlain name) : name = s.stem := by
  obtain ⟨n, hn, rfl, -⟩ := h.first
  have hslash : '/' ∉ s.stem.toList := (stem_noSlash s).2
  have hone : ¬ 2 ≤ n := fun htwo =>
    hname ((Naming.isPlain_numbered_iff hslash).mpr (.inl htwo))
  rw [Naming.numbered, if_pos (by omega)]

/-- The name of the directory of a source is the first form of its stem that no earlier source
has. -/
theorem exists_directory {i : Nat} (h : sources[i]? = some s) :
    ∃ name, (directories sources)[i]? = some name ∧
      Naming.IsFirstFree ((directories sources).take i) s.stem name :=
  Naming.isFirstFree_distinctNames (by rw [List.getElem?_map, h, Option.map_some])

theorem length_directories (sources : List Source) :
    (directories sources).length = sources.length := by
  rw [directories, ← (Naming.numbers_distinctNames _).length_eq, List.length_map]

theorem exists_source {i : Nat} {name : String} (h : (directories sources)[i]? = some name) :
    ∃ s, sources[i]? = some s := by
  have hi : i < (directories sources).length := (List.getElem?_eq_some_iff.mp h).1
  rw [length_directories] at hi
  exact ⟨sources[i], List.getElem?_eq_getElem hi⟩

/-- No name is empty, and none has a slash. -/
theorem noSlash_directories {name : String} (h : name ∈ directories sources) :
    name ≠ "" ∧ '/' ∉ name.toList := by
  obtain ⟨i, hi⟩ := List.getElem?_of_mem h
  obtain ⟨s, hs⟩ := exists_source hi
  obtain ⟨name', hname', hfree⟩ := exists_directory hs
  obtain rfl : name = name' := Option.some.inj (hi.symm.trans hname')
  by_cases hplain : IsPlain name
  · exact ⟨hplain.ne_empty, hplain.noSlash⟩
  · rw [eq_stem_of_not_isPlain hfree hplain]
    exact stem_noSlash s

/-- What stands before a place. -/
theorem mem_take_iff {names : List String} {i : Nat} {name : String} :
    name ∈ names.take i ↔ ∃ j < i, names[j]? = some name := by
  rw [List.mem_iff_getElem?]
  constructor
  · rintro ⟨j, hj⟩
    rw [List.getElem?_take, Option.ite_none_right_eq_some] at hj
    exact ⟨j, hj⟩
  · rintro ⟨j, hj, hname⟩
    exact ⟨j, by rw [List.getElem?_take, if_pos hj, hname]⟩

/-- **A directory is called `.` or `..` if its source is the first that leaves these dots.** -/
theorem directory_eq_iff {i : Nat} {name : String} (h : (directories sources)[i]? = some name)
    (hdots : dots ∈ [".", ".."]) : name = dots ↔ FirstLeaves sources i dots := by
  have hplain := (not_isPlain_of_dots hdots).2
  obtain ⟨s, hs⟩ := exists_source h
  obtain ⟨name', hname', hfree⟩ := exists_directory hs
  obtain rfl : name = name' := Option.some.inj (h.symm.trans hname')
  constructor
  · rintro rfl
    have hstem := eq_stem_of_not_isPlain hfree hplain
    refine ⟨⟨s, hs, (stem_eq_iff hdots).mp hstem.symm⟩, fun j hj s' hs' hleaves => ?_⟩
    -- An earlier source that leaves these dots has them, or finds them taken.
    obtain ⟨other, hother, hfree'⟩ := exists_directory hs'
    rw [(stem_eq_iff hdots).mpr hleaves] at hfree'
    have hearlier : ∃ k < i, (directories sources)[k]? = some name := by
      by_cases htaken : name ∈ (directories sources).take j
      · obtain ⟨k, hk, hname⟩ := mem_take_iff.mp htaken
        exact ⟨k, hk.trans hj, hname⟩
      · rw [hfree'.eq_base_iff.mpr htaken] at hother
        exact ⟨j, hj, hother⟩
    exact hfree.free (mem_take_iff.mpr hearlier)
  · rintro ⟨⟨s', hs', hleaves⟩, hbefore⟩
    obtain rfl : s = s' := Option.some.inj (hs.symm.trans hs')
    have hstem := (stem_eq_iff hdots).mpr hleaves
    rw [← hstem, hfree.eq_base_iff, hstem]
    intro htaken
    -- An earlier source that has these dots leaves them.
    obtain ⟨j, hj, hname⟩ := mem_take_iff.mp htaken
    obtain ⟨s', hs'⟩ := exists_source hname
    obtain ⟨name', hname', hfree'⟩ := exists_directory hs'
    obtain rfl : dots = name' := Option.some.inj (hname.symm.trans hname')
    exact hbefore j hj s' hs' ((stem_eq_iff hdots).mp (eq_stem_of_not_isPlain hfree' hplain).symm)

/-- A name is plain unless it leads nowhere, or up. -/
theorem isPlain_directory_iff {name : String} (h : name ∈ directories sources) :
    IsPlain name ↔ name ∉ [".", ".."] := by
  obtain ⟨hsome, hslash⟩ := noSlash_directories h
  constructor
  · intro hplain hdots
    exact (not_isPlain_of_dots hdots).2 hplain
  · intro hdots
    rw [List.mem_cons, List.mem_singleton, not_or] at hdots
    exact ⟨hsome, hslash, hdots.1, hdots.2⟩

/-- **The directories of a batch.**  There is one for each source, named by the first form of its
stem that is free; the names differ, none is empty and none has a slash.  Several documents go to
different paths, and each of these is a step down from the output directory unless its source is the
first whose name leaves nothing but one or two dots before the extension: that one has these dots
for its name. -/
theorem directories_apart (sources : List Source) :
    (directories sources).length = sources.length ∧ (directories sources).Nodup ∧
      (∀ name ∈ directories sources, name ≠ "" ∧ '/' ∉ name.toList) ∧
      (∀ i s, sources[i]? = some s → ∃ name, (directories sources)[i]? = some name ∧
        Naming.IsFirstFree ((directories sources).take i) s.stem name ∧
        (∀ dots ∈ [".", ".."], name = dots ↔ FirstLeaves sources i dots) ∧
        ∀ output, components (entry output name) = components output ++ [.named name] ↔
          ¬ FirstLeaves sources i "." ∧ ¬ FirstLeaves sources i "..") ∧
      (1 < sources.length → ∀ output,
        CommandLine.directories output sources = (directories sources).map (entry output) ∧
        (CommandLine.directories output sources).Pairwise fun a b => same a b = false) := by
  refine ⟨length_directories sources, Naming.nodup_distinctNames _,
    fun name h => noSlash_directories h, fun i s hs => ?_, fun hseveral output => ?_⟩
  · obtain ⟨name, hname, hfree⟩ := exists_directory hs
    have hmem := List.mem_of_getElem? hname
    refine ⟨name, hname, hfree, fun dots hdots => directory_eq_iff hname hdots, fun output => ?_⟩
    rw [components_entry_eq_iff (noSlash_directories hmem).2, isPlain_directory_iff hmem,
      List.mem_cons, List.mem_singleton, not_or, directory_eq_iff hname (by decide),
      directory_eq_iff hname (by decide)]
  · have hmany : CommandLine.directories output sources
        = (directories sources).map (entry output) := by
      rw [CommandLine.directories, if_pos hseveral]
    refine ⟨hmany, ?_⟩
    rw [hmany, List.pairwise_map]
    refine List.Pairwise.imp_of_mem (fun {a b} ha hb hne => ?_) (Naming.nodup_distinctNames _)
    obtain ⟨hsome, hslash⟩ := noSlash_directories ha
    obtain ⟨hsome', hslash'⟩ := noSlash_directories hb
    rw [same, decide_eq_false_iff_not]
    intro hsame
    exact hne (eq_of_components_entry hslash hsome hslash' hsome' hsame)

/-! ## 4. A document outside of the output directory -/

/-- Two files of which the first has nothing but dots before its extension. -/
def dottedSources : List Source := [.file "specs/...yaml", .file "specs/b.yaml"]

theorem directories_dottedSources : directories dottedSources = ["..", "b"] := by decide +kernel

/-- The first file is the first that leaves its dots; the second one has a directory of its own. -/
theorem directories_apart_dottedSources : 1 < dottedSources.length ∧
    dottedSources[0]? = some (.file "specs/...yaml") ∧ FirstLeaves dottedSources 0 ".." ∧
    dottedSources[1]? = some (.file "specs/b.yaml") ∧
    (¬ FirstLeaves dottedSources 1 "." ∧ ¬ FirstLeaves dottedSources 1 "..") ∧
    components (entry "out" "b") = components "out" ++ [.named "b"] := by
  obtain ⟨-, -, -, hplaces, -⟩ := directories_apart dottedSources
  obtain ⟨first, hfirst, -, hdots, -⟩ := hplaces 0 _ rfl
  obtain ⟨second, hsecond, -, -, hchild⟩ := hplaces 1 _ rfl
  rw [directories_dottedSources] at hfirst hsecond
  cases hfirst
  cases hsecond
  have hdown : components (entry "out" "b") = components "out" ++ [.named "b"] := by decide +kernel
  exact ⟨by decide, rfl, (hdots ".." (by decide)).mp rfl, rfl, (hchild "out").mp hdown, hdown⟩

/-- **A document is written to the directory above the output directory.** -/
theorem exists_directory_outside : ¬ ∀ sources : List Source,
    (∀ name ∈ directories sources, IsPlain name) ∧
      (1 < sources.length → ∀ output, ∀ path ∈ CommandLine.directories output sources,
        ∃ name, components path = components output ++ [.named name]) := by
  intro hall
  have hplain := (hall dottedSources).1 ".." (by rw [directories_dottedSources]; decide)
  exact absurd hplain (by decide)

end Source

end ApiTypes
