/-
# Components of paths

A name that can stand for itself between slashes is one step down from wherever it stands: the path
of an entry has the components of the directory, and then the name.  The names `.` and `..` are no
such names, and neither is a text with a slash.

* `FilePath.IsPlain`: a name that is a component by itself.
* `FilePath.components_entry`: the components of an entry of a directory.
* `FilePath.components_entry_eq_iff`: an entry is a step down from the directory if and only if its
  name is plain.
* `FilePath.plain_of_name?`: the last component of a path, if it has a name, is plain.
* `FilePath.cutName_eq_iff`: what is left of a name without its extension.
-/
import ApiTypes.FilePath
import ApiTypes.Proofs.Text.Pieces
import Mathlib.Data.List.Basic

namespace ApiTypes

namespace FilePath

/-! ## 1. Plain names -/

/-- A name that is a component by itself. -/
structure IsPlain (name : String) : Prop where
  ne_empty : name ≠ ""
  noSlash : '/' ∉ name.toList
  ne_current : name ≠ "."
  ne_parent : name ≠ ".."

instance (name : String) : Decidable (IsPlain name) :=
  decidable_of_iff (name ≠ "" ∧ '/' ∉ name.toList ∧ name ≠ "." ∧ name ≠ "..")
    ⟨fun ⟨h₁, h₂, h₃, h₄⟩ => ⟨h₁, h₂, h₃, h₄⟩, fun ⟨h₁, h₂, h₃, h₄⟩ => ⟨h₁, h₂, h₃, h₄⟩⟩

variable {directory name path : String}

theorem toList_eq_iff {cs : List Char} : name.toList = cs ↔ name = String.ofList cs := by
  rw [← String.toList_inj, String.toList_ofList]

/-- What a stretch between slashes makes. -/
theorem component?_eq (name : String) : component? name.toList =
    if name = "" ∨ name = "." then none
    else if name = ".." then some .parent
    else some (.named name) := by
  have hempty : name.toList = [] ↔ name = "" := toList_eq_iff
  have hcurrent : name.toList = ['.'] ↔ name = "." := toList_eq_iff
  have hparent : name.toList = ['.', '.'] ↔ name = ".." := toList_eq_iff
  simp [component?, hempty, hcurrent, hparent]

theorem IsPlain.component? (h : IsPlain name) : component? name.toList = some (.named name) := by
  simp [component?_eq, h.ne_empty, h.ne_current, h.ne_parent]

/-- A name is plain if it makes a component of that name, and it is in one piece. -/
theorem isPlain_iff (h : '/' ∉ name.toList) :
    IsPlain name ↔ FilePath.component? name.toList = some (.named name) := by
  constructor
  · exact IsPlain.component?
  · intro hname
    rw [component?_eq] at hname
    split at hname
    · cases hname
    · rename_i hne
      split at hname
      · cases hname
      · rename_i hparent
        exact ⟨fun h => hne (.inl h), h, fun h => hne (.inr h), hparent⟩

/-- **A component that has a name is plain.** -/
theorem plain_of_mem_components (h : .named name ∈ components path) : IsPlain name := by
  have hpiece : ∃ cs ∈ Text.pieces '/' path.toList, component? cs = some (.named name) := by
    rw [components, List.mem_append] at h
    rcases h with h | h
    · split at h
      · simp at h
      · split at h <;> simp at h
    · exact List.mem_filterMap.mp h
  obtain ⟨cs, hcs, hname⟩ := hpiece
  have hslash := Text.separator_notMem_of_mem_pieces hcs
  obtain rfl : name = String.ofList cs := by
    unfold component? at hname
    split at hname
    · cases hname
    · split at hname
      · cases hname
      · cases hname
        rfl
  refine (isPlain_iff ?_).mpr ?_
  · rwa [String.toList_ofList]
  · rwa [String.toList_ofList]

/-- **The name at the end of a path is plain.** -/
theorem plain_of_name? (h : name? path = some name) : IsPlain name := by
  unfold name? at h
  split at h
  · rename_i last hlast
    cases h
    exact plain_of_mem_components (List.mem_of_getLast? hlast)
  · cases h

/-! ## 2. Entries of directories -/

/-- The components before the first name: a slash at the front, or a dot. -/
def front (cs : List Char) : List Component :=
  if cs.head? = some '/' then [.root]
  else if (Text.pieces '/' cs).head? = some ['.'] then [.current]
  else []

theorem components_eq (path : String) : components path =
    front path.toList ++ (Text.pieces '/' path.toList).filterMap component? :=
  rfl

/-- A path begins as what stands before a slash in it. -/
theorem front_append_slash (cs ds : List Char) :
    front (cs ++ '/' :: ds) = if cs = [] then [.root] else front cs := by
  cases cs with
  | nil => rfl
  | cons c cs =>
    have hpiece : (Text.pieces '/' (c :: cs ++ '/' :: ds)).head?
        = (Text.pieces '/' (c :: cs)).head? := by
      rw [Text.pieces_append_separator,
        List.head?_append_of_ne_nil _ (Text.pieces_ne_nil '/' (c :: cs))]
    rw [front, front, hpiece]
    rfl

/-- A name by itself. -/
theorem components_of_noSlash (h : '/' ∉ name.toList) : components name =
    if name = "." then [.current] else (component? name.toList).toList := by
  have hhead : name.toList.head? ≠ some '/' := fun heq => h (List.mem_of_head? heq)
  have hcurrent : name.toList = ['.'] ↔ name = "." := toList_eq_iff
  rw [components_eq, front, Text.pieces_of_notMem h, if_neg hhead]
  by_cases hname : name = "."
  · subst hname
    rfl
  · simp [hcurrent, hname, List.filterMap_cons]
    cases component? name.toList <;> rfl

/-- **The path of an entry has the components of the directory, and then its own.** -/
theorem components_entry (hdirectory : directory ≠ "") (h : '/' ∉ name.toList) :
    components (entry directory name)
      = components directory ++ (component? name.toList).toList := by
  have hname : (Text.pieces '/' name.toList).filterMap component?
      = (component? name.toList).toList := by
    rw [Text.pieces_of_notMem h]
    cases hc : component? name.toList <;> simp [hc]
  rw [components_eq, components_eq, entry]
  by_cases hslash : directory.toList.getLast? = some '/'
  · -- The directory ends with the slash that stands before the name.
    obtain ⟨cs, hcs⟩ := List.getLast?_eq_some_iff.mp hslash
    have hnil : (Text.pieces '/' []).filterMap component? = [] := rfl
    rw [if_pos (by simp [hslash]), String.toList_append, hcs, List.append_assoc,
      List.singleton_append, front_append_slash, front_append_slash,
      Text.pieces_append_separator, Text.pieces_append_separator, List.filterMap_append,
      List.filterMap_append, hname, hnil, List.append_nil, List.append_assoc]
  · have hsome : directory.toList ≠ [] := fun heq => hdirectory (toList_eq_iff.mp heq)
    have htext : (directory ++ "/" ++ name).toList = directory.toList ++ '/' :: name.toList := by
      simp
    rw [if_neg (by simp [hdirectory, hslash]), htext, front_append_slash, if_neg hsome,
      Text.pieces_append_separator, List.filterMap_append, hname, List.append_assoc]

/-- **An entry is a step down from its directory if and only if its name is plain.** -/
theorem components_entry_eq_iff (h : '/' ∉ name.toList) :
    components (entry directory name) = components directory ++ [.named name] ↔
      IsPlain name := by
  rw [isPlain_iff h]
  by_cases hdirectory : directory = ""
  · subst hdirectory
    have hentry : entry "" name = name := by simp [entry]
    have hempty : components "" = [] := rfl
    rw [hentry, hempty, components_of_noSlash h, component?_eq]
    by_cases hname : name = "."
    · simp [hname]
    · simp [hname]
  · rw [components_entry hdirectory h, List.append_right_inj]
    cases component? name.toList <;> simp

/-- Entries of different names are different paths. -/
theorem eq_of_components_entry {other : String} (h : '/' ∉ name.toList) (hsome : name ≠ "")
    (h' : '/' ∉ other.toList) (hsome' : other ≠ "")
    (heq : components (entry directory name) = components (entry directory other)) :
    name = other := by
  by_cases hdirectory : directory = ""
  · subst hdirectory
    have hentry : ∀ s, entry "" s = s := fun s => by simp [entry]
    rw [hentry, hentry, components_of_noSlash h, components_of_noSlash h', component?_eq,
      component?_eq] at heq
    grind
  · rw [components_entry hdirectory h, components_entry hdirectory h', List.append_right_inj,
      component?_eq, component?_eq] at heq
    grind

/-! ## 3. Extensions -/

/-- The last dot is the one with no dot behind it. -/
theorem cutName_eq {before after : List Char} (h : name.toList = before ++ '.' :: after)
    (hafter : '.' ∉ after) : cutName name =
      if before = [] ∨ name = ".." then (name, none)
      else (String.ofList before, some (String.ofList after)) := by
  have hall : ∀ c ∈ after.reverse, decide (c ≠ '.') = true := by
    intro c hc
    rw [decide_eq_true_eq]
    rintro rfl
    exact hafter (List.mem_reverse.mp hc)
  have hbehind : ((before ++ '.' :: after).reverse.takeWhile (· ≠ '.')).reverse = after := by
    rw [List.reverse_append, List.reverse_cons, List.append_assoc,
      List.takeWhile_append_of_pos hall, List.singleton_append,
      List.takeWhile_cons_of_neg (by simp),
      List.append_nil, List.reverse_reverse]
  have hbefore : (before ++ '.' :: after).take
      ((before ++ '.' :: after).length - after.length - 1) = before := by
    rw [List.length_append, List.length_cons]
    exact List.take_left' (by omega)
  simp only [cutName, h, hbehind, hbefore]
  simp

/-- **A name is cut before its last dot**, or it is left as it is. -/
theorem cutName_cases (name : String) : (cutName name).1 = name ∨
    (cutName name).1 ≠ "" ∧
      ∃ extension, '.' ∉ extension.toList ∧ name = (cutName name).1 ++ "." ++ extension := by
  by_cases hdot : '.' ∈ name.toList
  · obtain ⟨after, before, heq, hafter⟩ :=
      List.eq_append_cons_of_mem (List.mem_reverse.mpr hdot)
    have htext : name.toList = before.reverse ++ '.' :: after.reverse := by
      simpa using congrArg List.reverse heq
    have hextension : '.' ∉ after.reverse := fun h => hafter (List.mem_reverse.mp h)
    rw [cutName_eq htext hextension]
    split
    · exact .inl rfl
    · rename_i hcut
      refine .inr ⟨fun hempty => hcut (.inl ?_), String.ofList after.reverse, ?_, ?_⟩
      · simpa using hempty
      · rwa [String.toList_ofList]
      · rw [← String.toList_inj, htext]
        simp
  · exact .inl (by simp [cutName, hdot])

/-- **What is left of a plain name is not plain** if it stands before the last dot of the name, and
in no other case. -/
theorem cutName_eq_iff {dots : String} (h : IsPlain name) (hdots : ¬ IsPlain dots)
    (hsome : dots ≠ "") : (cutName name).1 = dots ↔
      ∃ extension, '.' ∉ extension.toList ∧ name = dots ++ "." ++ extension := by
  constructor
  · rintro rfl
    refine ((cutName_cases name).resolve_left fun heq => hdots ?_).2
    rwa [heq]
  · rintro ⟨extension, hextension, rfl⟩
    have htext : (dots ++ "." ++ extension).toList = dots.toList ++ '.' :: extension.toList := by
      simp
    have hfirst : dots.toList ≠ [] := fun heq => hsome (toList_eq_iff.mp heq)
    rw [cutName_eq htext hextension, if_neg (by simp [hfirst, h.ne_parent]), String.ofList_toList]

/-- What is left of a name is a part of it, and it is not empty. -/
theorem cutName_of_plain (h : IsPlain name) :
    (cutName name).1 ≠ "" ∧ '/' ∉ (cutName name).1.toList := by
  rcases cutName_cases name with heq | ⟨hsome, extension, _, heq⟩
  · rw [heq]
    exact ⟨h.ne_empty, h.noSlash⟩
  · refine ⟨hsome, fun hslash => h.noSlash ?_⟩
    rw [heq]
    simp [hslash]

end FilePath

end ApiTypes
