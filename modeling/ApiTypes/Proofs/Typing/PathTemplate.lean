/-
# Path templates and their paths

The placeholders of a path are the names between braces in it, from left to right.  The key of a
path is a pattern if it has placeholders: each gives place to the type that is declared for its
name, and all else of the path is text.

* `PathTemplate.placeholders`: the names, and `PathTemplate.mem_placeholders_iff` which these are.
* `PathTemplate.parameters_parts`: dividing a path finds its placeholders.
* `PathTemplate.isPattern_templateParts`: what stands in a pattern.
* `PathTemplate.Spells`: the paths of patterns; `PathTemplate.key_faithful`: the keys of all paths.
-/
import ApiTypes.Proofs.TypeExpr.Patterns

namespace ApiTypes.PathTemplate

open TypeExpr (IsPattern)

/-! ## 1. Placeholders -/

/-- A name that can stand between braces. -/
def IsName (name : List Char) : Prop := name ≠ [] ∧ ∀ c ∈ name, c ≠ '\x7b' ∧ c ≠ '\x7d'

/-- Whether a character is no brace. -/
def isNameChar (c : Char) : Bool := c ≠ '\x7b' && c ≠ '\x7d'

/-- The name of the placeholder at the front of a text. -/
def placeholder? : List Char → Option (List Char)
  | '\x7b' :: cs =>
    if cs.takeWhile isNameChar ≠ [] ∧ (cs.dropWhile isNameChar).head? = some '\x7d' then
      some (cs.takeWhile isNameChar)
    else none
  | _ => none

/-- The names of the placeholders of a text, from left to right. -/
def placeholders : List Char → List (List Char)
  | [] => []
  | c :: cs => (placeholder? (c :: cs)).toList ++ placeholders cs

variable {c : Char} {cs name : List Char}

theorem takeWhile_isNameChar (cs : List Char) (hname : ∀ c ∈ name, c ≠ '\x7b' ∧ c ≠ '\x7d')
    (hnext : ∀ c ∈ cs.head?, c = '\x7b' ∨ c = '\x7d') :
    (name ++ cs).takeWhile isNameChar = name ∧ (name ++ cs).dropWhile isNameChar = cs := by
  refine Token.span_append (fun c hc => ?_) fun c hc => ?_
  · simpa [isNameChar] using hname c hc
  · rcases hnext c hc with rfl | rfl <;> decide

theorem placeholder?_eq_some_iff :
    placeholder? cs = some name ↔
      IsName name ∧ ∃ after, cs = '\x7b' :: (name ++ '\x7d' :: after) := by
  constructor
  · intro h
    unfold placeholder? at h
    split at h
    · rename_i cs
      split at h
      · rename_i hclosed
        obtain rfl := Option.some.inj h
        refine ⟨⟨hclosed.1, fun c hc => ?_⟩, ?_⟩
        · simpa [isNameChar] using List.mem_takeWhile_imp hc
        · obtain ⟨after, hafter⟩ := List.head?_eq_some_iff.mp hclosed.2
          exact ⟨after, by rw [← hafter, List.takeWhile_append_dropWhile]⟩
      · cases h
    · cases h
  · rintro ⟨⟨hsome, hname⟩, after, rfl⟩
    obtain ⟨htake, hdrop⟩ := takeWhile_isNameChar ('\x7d' :: after) hname (by simp)
    rw [placeholder?, htake, hdrop, if_pos ⟨hsome, rfl⟩]

/-- **The placeholders of a text** are the names that stand between braces anywhere in it. -/
theorem mem_placeholders_iff : name ∈ placeholders cs ↔
    IsName name ∧ ∃ before after, cs = before ++ '\x7b' :: (name ++ '\x7d' :: after) := by
  induction cs with
  | nil => simp [placeholders]
  | cons c cs ih =>
    rw [placeholders, List.mem_append, Option.mem_toList, placeholder?_eq_some_iff,
      ih, ← and_or_left, and_congr_right_iff]
    intro _
    constructor
    · rintro (⟨after, hcs⟩ | ⟨before, after, rfl⟩)
      · exact ⟨[], after, hcs⟩
      · exact ⟨c :: before, after, rfl⟩
    · rintro ⟨before, after, hcs⟩
      cases before with
      | nil => exact .inl ⟨after, hcs⟩
      | cons b before =>
        obtain ⟨rfl, rfl⟩ := List.cons.inj hcs
        exact .inr ⟨before, after, rfl⟩

/-- No placeholder begins with another character than a brace. -/
theorem placeholders_cons_of_ne (hc : c ≠ '\x7b') : placeholders (c :: cs) = placeholders cs := by
  have hnone : placeholder? (c :: cs) = none := by
    unfold placeholder?
    split
    · rename_i h
      exact absurd (List.cons.inj h).1 hc
    · rfl
  rw [placeholders, hnone]
  rfl

theorem placeholders_append (hname : ∀ c ∈ name, c ≠ '\x7b' ∧ c ≠ '\x7d') :
    placeholders (name ++ cs) = placeholders cs := by
  induction name with
  | nil => rfl
  | cons c name ih =>
    obtain ⟨hc, hname⟩ := List.forall_mem_cons.mp hname
    rw [List.cons_append, placeholders_cons_of_ne hc.1, ih hname]

/-- **A placeholder comes before those that follow it.** -/
theorem placeholders_closed (h : IsName name) :
    placeholders ('\x7b' :: (name ++ '\x7d' :: cs)) = name :: placeholders cs := by
  have hfirst : placeholder? ('\x7b' :: (name ++ '\x7d' :: cs)) = some name :=
    placeholder?_eq_some_iff.mpr ⟨h, cs, rfl⟩
  rw [placeholders, hfirst, placeholders_append h.2, placeholders_cons_of_ne (by decide)]
  rfl

/-- **A brace that is not closed begins no placeholder.** -/
theorem placeholders_open (hname : ∀ c ∈ name, c ≠ '\x7b' ∧ c ≠ '\x7d')
    (hnext : ∀ c ∈ cs.head?, c = '\x7b') :
    placeholders ('\x7b' :: (name ++ cs)) = placeholders cs := by
  have hnone : placeholder? ('\x7b' :: (name ++ cs)) = none := by
    obtain ⟨htake, hdrop⟩ := takeWhile_isNameChar cs hname fun c hc => .inl (hnext c hc)
    rw [placeholder?, hdrop, if_neg]
    rintro ⟨-, hhead⟩
    exact absurd (hnext _ hhead) (by decide)
  rw [placeholders, hnone, Option.toList_none, List.nil_append, placeholders_append hname]

/-- Braces around nothing are no placeholder. -/
theorem placeholders_empty : placeholders ('\x7b' :: '\x7d' :: cs) = placeholders cs := by
  have hnone : placeholder? ('\x7b' :: '\x7d' :: cs) = none := by
    rw [placeholder?, if_neg]
    rintro ⟨hsome, -⟩
    exact hsome rfl
  rw [placeholders, hnone, placeholders_cons_of_ne (by decide)]
  rfl

/-! ## 2. Dividing a path -/

/-- The name of a parameter. -/
def Part.parameter? : Part → Option (List Char)
  | .text _ => none
  | .parameter name => some name

/-- The names of the parameters among some stretches, in order. -/
def parameters (stretches : List Part) : List (List Char) := stretches.filterMap Part.parameter?

theorem parameters_textPart (text : List Char) : parameters (textPart text) = [] := by
  unfold textPart
  split
  · rfl
  · rfl

theorem parameters_append (stretches stretches' : List Part) :
    parameters (stretches ++ stretches') = parameters stretches ++ parameters stretches' :=
  List.filterMap_append

/-- **The parameters of the rest of a path are its placeholders**, with the one that may be open. -/
theorem parameters_partsFrom (text : List Char) (pending : Option (List Char)) (cs : List Char)
    (hpending : ∀ name, pending = some name → ∀ c ∈ name, c ≠ '\x7b' ∧ c ≠ '\x7d') :
    parameters (partsFrom text pending cs)
      = placeholders (pending.elim [] ('\x7b' :: ·) ++ cs) := by
  fun_induction partsFrom text pending cs with
  | case1 text => exact parameters_textPart text
  | case2 text name =>
    rw [parameters_textPart, Option.elim_some, List.cons_append,
      placeholders_open (hpending name rfl) (by simp)]
    rfl
  | case3 text cs ih => exact ih (by simp)
  | case4 text c cs hc ih =>
    rw [ih (by simp), Option.elim_none, List.nil_append, List.nil_append,
      placeholders_cons_of_ne hc]
  | case5 text name cs ih =>
    rw [ih (by simp), Option.elim_some, Option.elim_some, List.cons_append, List.cons_append,
      List.nil_append, placeholders_open (hpending name rfl) (by simp)]
  | case6 text cs _ ih =>
    rw [ih (by simp)]
    exact placeholders_empty.symm
  | case7 text name cs hname _ ih =>
    rw [parameters_append, parameters_textPart, List.nil_append, Option.elim_some,
      List.cons_append, placeholders_closed ⟨hname, hpending name rfl⟩]
    exact congrArg (name :: ·) (ih (by simp))
  | case8 text name c cs hopen hclose ih =>
    rw [ih, Option.elim_some, Option.elim_some, List.cons_append, List.append_assoc]
    · rfl
    · intro name' hname'
      obtain rfl := Option.some.inj hname'
      exact List.forall_mem_append.mpr ⟨hpending name rfl, by simp [hopen, hclose]⟩

/-- **Dividing a path finds its placeholders.** -/
theorem parameters_parts (path : List Char) : parameters (parts path) = placeholders path :=
  parameters_partsFrom [] none path (by simp)

/-- A stretch is followed by a parameter if it is text. -/
def Alternate (stretch next : Part) : Prop :=
  ∀ text, stretch = .text text → ∃ name, next = .parameter name

/-- **The stretches of a path alternate**: no text is empty, and none is followed by text. -/
theorem alternate_partsFrom (text : List Char) (pending : Option (List Char)) (cs : List Char) :
    .text [] ∉ partsFrom text pending cs ∧ (partsFrom text pending cs).IsChain Alternate := by
  have hlast : ∀ text, .text [] ∉ textPart text ∧ (textPart text).IsChain Alternate := by
    intro text
    unfold textPart
    split
    · simp
    · rename_i hsome
      simpa [eq_comm] using hsome
  fun_induction partsFrom text pending cs with
  | case1 text => exact hlast text
  | case2 text name => exact hlast (text ++ '\x7b' :: name)
  | case3 text cs ih => exact ih
  | case4 text c cs hc ih => exact ih
  | case5 text name cs ih => exact ih
  | case6 text cs _ ih => exact ih
  | case7 text name cs hname _ ih =>
    obtain ⟨hempty, hchain⟩ := ih
    have hrest : (.parameter name :: partsFrom [] none cs).IsChain Alternate := by
      refine List.isChain_cons.mpr ⟨fun next _ text h => ?_, hchain⟩
      cases h
    unfold textPart
    split
    · exact ⟨by simpa using hempty, hrest⟩
    · rename_i hsome
      refine ⟨by simpa [eq_comm, hsome] using hempty, List.isChain_cons_cons.mpr ⟨?_, hrest⟩⟩
      exact fun _ _ => ⟨name, rfl⟩
  | case8 text name c cs hopen hclose ih => exact ih

/-! ## 3. Patterns of paths -/

/-- **What stands in the pattern of a path**: texts and types in turn. -/
theorem isPattern_templateParts (params : List (String × TypeExpr)) (path : List Char) :
    IsPattern ((parts path).map (templatePart params)) := by
  obtain ⟨hempty, hchain⟩ := alternate_partsFrom [] none path
  constructor
  · rintro text htext rfl
    obtain ⟨stretch, hmem, hstretch⟩ := List.mem_map.mp htext
    cases stretch with
    | text cs =>
      obtain rfl : cs = [] := by simpa [templatePart] using hstretch
      exact hempty hmem
    | parameter name => cases hstretch
  · refine List.isChain_map_of_isChain (templatePart params) ?_ hchain
    intro stretch next h text htext
    cases stretch with
    | text cs =>
      obtain ⟨name, rfl⟩ := h cs rfl
      exact ⟨_, rfl⟩
    | parameter name => cases htext
  · intro type htype
    obtain ⟨stretch, -, hstretch⟩ := List.mem_map.mp htype
    cases stretch with
    | text cs => cases hstretch
    | parameter name =>
      cases hstretch
      exact interpolated_parameterType _

/-- **The paths of a pattern.**  Its texts stand in the path as they are; and for each of its types
a placeholder stands there, the next of those that are named.  The type is the one that is declared
for this name. -/
inductive Spells (params : List (String × TypeExpr)) :
    List (TemplatePart TypeExpr) → List (List Char) → List Char → Prop
  | nil : Spells params [] [] []
  | text {text : String} {parts : List (TemplatePart TypeExpr)} {names : List (List Char)}
      {cs : List Char} (rest : Spells params parts names cs) :
      Spells params (.text text :: parts) names (text.toList ++ cs)
  | param {name : List Char} {parts : List (TemplatePart TypeExpr)} {names : List (List Char)}
      {cs : List Char} (rest : Spells params parts names cs) :
      Spells params (.param (parameterType (declaredType? params (String.ofList name))) :: parts)
        (name :: names) ('\x7b' :: (name ++ '\x7d' :: cs))

theorem spells_map_templatePart (params : List (String × TypeExpr)) (stretches : List Part) :
    Spells params (stretches.map (templatePart params)) (parameters stretches)
      (stretches.flatMap Part.chars) := by
  induction stretches with
  | nil => exact .nil
  | cons stretch stretches ih =>
    cases stretch with
    | text cs =>
      have hspells := @Spells.text params (String.ofList cs) _ _ _ ih
      rwa [String.toList_ofList] at hspells
    | parameter name =>
      have hchars : (Part.parameter name :: stretches).flatMap Part.chars
          = '\x7b' :: (name ++ '\x7d' :: stretches.flatMap Part.chars) := by
        simp [Part.chars]
      rw [hchars]
      exact .param ih

theorem any_isParameter_iff (stretches : List Part) :
    stretches.any Part.isParameter = true ↔ parameters stretches ≠ [] := by
  induction stretches with
  | nil => simp [parameters]
  | cons stretch stretches ih =>
    cases stretch with
    | text cs => simpa [parameters, Part.isParameter, Part.parameter?] using ih
    | parameter name => simp [parameters, Part.isParameter, Part.parameter?]

/-- The key of a path without placeholders is the path. -/
theorem key_eq_name (params : List (String × TypeExpr)) {path : String}
    (h : placeholders path.toList = []) : key path params = .name path := by
  rw [← parameters_parts] at h
  have hnone : ¬ (parts path.toList).any Part.isParameter = true := fun hany =>
    (any_isParameter_iff _).mp hany h
  rw [key, if_neg hnone]

/-- **The key of a path with placeholders is a pattern.** -/
theorem key_eq_template (params : List (String × TypeExpr)) {path : String}
    (h : placeholders path.toList ≠ []) :
    key path params = .template ((parts path.toList).map (templatePart params)) := by
  rw [← parameters_parts] at h
  rw [key, if_pos ((any_isParameter_iff _).mpr h)]

theorem placeholders_eq_nil_iff : placeholders cs = [] ↔ ¬ ∃ name before after, IsName name ∧
    cs = before ++ '\x7b' :: (name ++ '\x7d' :: after) := by
  rw [List.eq_nil_iff_forall_not_mem, ← not_exists]
  refine not_congr (exists_congr fun name => ?_)
  rw [mem_placeholders_iff]
  simp only [exists_and_left]

/-- **The key of a path says what the path says.**  It is a name if the path has no placeholder.
Else it is a pattern of the path, in which texts and types take turns, with the placeholders of the
path in the places of the types; and what is written for it is read as these texts and types. -/
theorem key_faithful (path : String) (params : List (String × TypeExpr)) :
    (key path params = .name path ↔ ¬ ∃ name before after, IsName name ∧
      path.toList = before ++ '\x7b' :: (name ++ '\x7d' :: after)) ∧
    (key path params = .name path ∨ ∃ parts, key path params = .template parts ∧
      Spells params parts (placeholders path.toList) path.toList ∧ IsPattern parts ∧
      ∀ level optional, ∃ written,
        (TypeExpr.renderKey level optional (key path params)).toList
          = "[path: ".toList ++ written ++ [']'] ∧
        ∀ rest, Pattern.read? (written ++ rest)
          = some (parts.map (TypeExpr.writtenStretch level), rest)) := by
  rw [← placeholders_eq_nil_iff]
  by_cases h : placeholders path.toList = []
  · have hname := key_eq_name params h
    exact ⟨⟨fun _ => h, fun _ => hname⟩, .inl hname⟩
  · have hkey := key_eq_template params h
    have hpattern := isPattern_templateParts params path.toList
    constructor
    · constructor
      · intro hname
        rw [hkey] at hname
        cases hname
      · exact fun hnone => absurd hnone h
    · refine .inr ⟨_, hkey, ?_, hpattern, ?_⟩
      · have hspells := spells_map_templatePart params (parts path.toList)
        rwa [parameters_parts, concat_parts] at hspells
      · intro level optional
        rw [hkey]
        exact TypeExpr.read_renderKey hpattern level optional

/-- **A placeholder gives place to the type of its name**, which is read back out of the pattern. -/
theorem key_faithful_pets : ∃ parts written,
    key "/pets/\x7bid\x7d" [("id", .primitive .number)] = .template parts ∧
      Spells [("id", .primitive .number)] parts ["id".toList] "/pets/\x7bid\x7d".toList ∧
      (TypeExpr.renderKey 0 false (.template parts)).toList = "[path: ".toList ++ written ++ [']'] ∧
      Pattern.read? written = some ([.text "/pets/".toList, .type "number".toList], []) := by
  obtain ⟨-, hname | ⟨parts, hkey, hspells, -, hwritten⟩⟩ :=
    key_faithful "/pets/\x7bid\x7d" [("id", .primitive .number)]
  · cases hname
  · obtain ⟨written, hrender, hread⟩ := hwritten 0 false
    rw [hkey] at hrender
    have hplaceholders : placeholders "/pets/\x7bid\x7d".toList = ["id".toList] := by decide +kernel
    rw [hplaceholders] at hspells
    refine ⟨parts, written, hkey, hspells, hrender, ?_⟩
    have hwhole := hread []
    rw [List.append_nil] at hwhole
    rw [hwhole]
    cases hkey
    rfl

end ApiTypes.PathTemplate
