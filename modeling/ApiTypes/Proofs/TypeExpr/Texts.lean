/-
# What expressions are written as

The text of an expression is put together from the texts of its parts: with marks between them, in
brackets, or in lines behind the heads of members.  What is written is well nested, and the marks
that stand outside of its brackets are those of its own kind.

* `TypeExpr.Printed`: the expressions that the text is read for; `TypeExpr.form` is their kind.
* `TypeExpr.toList_renderAt_union` and its like: the texts as characters.
* `TypeExpr.Printed.nested`: what is written is well nested.
-/
import ApiTypes.Proofs.TypeExpr.Spelled
import ApiTypes.Proofs.TypeExpr.Titles

namespace ApiTypes

open Text (Nested isPlain)

namespace TypeExpr

/-! ## 1. Expressions and their kinds -/

/-- **The expressions that the text is read for**: those of values, with members under names and
without comments, and with references to nodes that have names of their own.  A record that has no
further members says nothing about them. -/
inductive Printed : TypeExpr → Prop
  | titled {e : TypeExpr} {word : String} {keys : List String} (h : Titled e word keys) : Printed e
  | string (value : String) : Printed (literal (.string value))
  | number (value : JsonNumber) : Printed (literal (.number value))
  | list {element : TypeExpr} {bounds : ListBounds} {readonly : Bool}
      (helement : Printed element) (hbounds : bounds.Fits) :
      Printed (list element bounds readonly)
  | record {r : Record TypeExpr} (hsome : r.isEmpty = false)
      (hnamed : ∀ m ∈ r.members, ∃ name, m.key = .name name ∧ m.doc = none)
      (hmembers : ∀ m ∈ r.members, Printed m.type)
      (hcatchAll : ∀ e, r.catchAll = some e → Printed e)
      (hclosed : r.catchAll = none → r.catchAllReadonly = false) :
      Printed (record r)
  | union {members : List TypeExpr} (htwo : 2 ≤ members.length)
      (hmembers : ∀ m ∈ members, Printed m) (hflat : ∀ ms, union ms ∉ members) :
      Printed (union members)
  | intersection {members : List TypeExpr} (htwo : 2 ≤ members.length)
      (hmembers : ∀ m ∈ members, Printed m) (hflat : ∀ ms, intersection ms ∉ members) :
      Printed (intersection members)

/-- The kinds of expressions that the text is read for. -/
inductive Form where
  | name
  | text
  | number
  | record
  | tuple
  | array
  | marked
  | intersection
  | union
  deriving DecidableEq

/-- The kind of an expression. -/
def form : TypeExpr → Form
  | literal (.string _) => .text
  | literal (.number _) => .number
  | list _ _ true => .marked
  | list _ .unbounded false => .array
  | list _ _ false => .tuple
  | record r => if r.isEmpty then .name else .record
  | intersection _ => .intersection
  | union _ => .union
  | _ => .name

/-- The marks that do not stand outside of brackets in an expression of a kind. -/
def Form.absent : Form → List Char
  | .union => [',', ';', ':']
  | .intersection => ['|', ',', ';', ':']
  | _ => ['&', '|', ',', ';', ':']

/-- Whether the brackets of a list need parentheses before them. -/
def Form.loose : Form → Bool
  | .marked => true
  | .intersection => true
  | .union => true
  | _ => false

theorem needsParens_eq_loose (e : TypeExpr) : needsParens e = e.form.loose := by
  cases e with
  | literal l => cases l <;> rfl
  | list _ bounds readonly => cases readonly <;> cases bounds <;> rfl
  | record r =>
    rw [form]
    split <;> rfl
  | _ => rfl

theorem Form.mem_absent (f : Form) {c : Char} (hc : c ∈ [',', ';', ':']) : c ∈ f.absent := by
  cases f <;> simp_all [absent]

theorem Form.absent_of_ne {f : Form} (hunion : f ≠ .union) (hinter : f ≠ .intersection) :
    f.absent = ['&', '|', ',', ';', ':'] := by
  cases f <;> first | rfl | contradiction

theorem Form.mem_absent_of_ne {f : Form} (hunion : f ≠ .union) : '|' ∈ f.absent := by
  cases f <;> first | exact absurd rfl hunion | simp [absent]

theorem form_eq_union {e : TypeExpr} : e.form = .union ↔ ∃ ms, e = union ms := by
  fun_cases form e <;> simp_all

theorem form_eq_intersection {e : TypeExpr} :
    e.form = .intersection ↔ ∃ ms, e = intersection ms := by
  fun_cases form e <;> simp_all

theorem form_eq_marked {e : TypeExpr} (h : e.form = .marked) :
    ∃ element bounds, e = list element bounds true := by
  revert h
  fun_cases form e <;> simp_all

theorem Titled.form_eq {e : TypeExpr} {word : String} {keys : List String}
    (h : Titled e word keys) : e.form = .name := by
  cases h <;> rfl

/-! ## 2. Texts -/

section Texts

variable {level : Nat}

theorem renderAt_string {value : String} :
    renderAt level (literal (.string value)) = Text.quote value := by
  rw [renderAt.eq_def]
  rfl

theorem renderAt_number {value : JsonNumber} :
    renderAt level (literal (.number value)) = value.written := by
  rw [renderAt.eq_def]
  rfl

/-- The mark of what cannot be changed. -/
def readonlyText (readonly : Bool) : List Char :=
  (if readonly then "readonly " else "").toList

/-- A list without bounds whose element has the given text. -/
def arrayText (element : List Char) (parens : Bool) : List Char :=
  (if parens then '(' :: (element ++ [')']) else element) ++ ['[', ']']

/-- A list whose items are written out. -/
def tupleText (items : List (List Char)) : List Char :=
  '[' :: (List.intercalate [',', ' '] items ++ [']'])

/-- The items of a list, if they are written out. -/
def itemTexts (element : List Char) (parens : Bool) : ListBounds → List (List Char)
  | .unbounded => []
  | .exact n => List.replicate n element
  | .atLeast n =>
    List.replicate n element ++ ['.' :: '.' :: '.' :: arrayText element parens]

/-- A list that may be changed. -/
def listText (element : List Char) (parens : Bool) : ListBounds → List Char
  | .unbounded => arrayText element parens
  | bounds => tupleText (itemTexts element parens bounds)

theorem toList_renderList {text : String} {parens readonly : Bool} {bounds : ListBounds}
    (h : bounds.Fits) : (renderList text parens bounds readonly).toList
      = readonlyText readonly ++ listText text.toList parens bounds := by
  have harray : (if parens then "(" ++ text ++ ")[]" else text ++ "[]").toList
      = arrayText text.toList parens := by
    cases parens <;> simp [arrayText]
  cases bounds with
  | unbounded =>
    rw [renderList, String.toList_append]
    exact congrArg _ harray
  | exact n =>
    simp only [renderList, if_neg (Nat.not_lt.mpr h.2)]
    simp [readonlyText, listText, tupleText, itemTexts, Text.join, String.toList_intercalate]
  | atLeast n =>
    simp only [renderList, if_neg (Nat.not_lt.mpr h.2)]
    simp [readonlyText, listText, tupleText, itemTexts, Text.join, String.toList_intercalate,
      harray]

theorem toList_renderAt_union (members : List TypeExpr) :
    (renderAt level (union members)).toList
      = List.intercalate [' ', '|', ' '] (members.map fun m => (renderAt level m).toList) := by
  rw [renderAt.eq_def]
  simp only [renderAll_eq_map, Text.join, String.toList_intercalate, List.map_map]
  rfl

/-- The text of a member of an intersection. -/
def constituentText (level : Nat) : TypeExpr → List Char
  | union members => '(' :: ((renderAt level (union members)).toList ++ [')'])
  | e => (renderAt level e).toList

theorem map_toList_renderConstituents (members : List TypeExpr) :
    (renderConstituents level members).map String.toList
      = members.map (constituentText level) := by
  induction members with
  | nil => rw [renderConstituents, List.map_nil, List.map_nil]
  | cons e es ih =>
    rw [renderConstituents.eq_def]
    simp only [List.map_cons, ih, List.cons.injEq, and_true]
    cases e <;> simp [constituentText]

theorem toList_renderAt_intersection (members : List TypeExpr) :
    (renderAt level (intersection members)).toList
      = List.intercalate [' ', '&', ' '] (members.map (constituentText level)) := by
  rw [renderAt.eq_def]
  simp only [Text.join, String.toList_intercalate, map_toList_renderConstituents]
  rfl

/-! ## 3. Records -/

/-- What stands before the type of a member. -/
def memberHead (name : String) (optional readonly : Bool) : List Char :=
  readonlyText readonly
    ++ ((Naming.propertyKey name).toList ++ (if optional then "?" else "").toList)

/-- What stands before the type of all other members. -/
def othersHead (readonly : Bool) : List Char :=
  readonlyText readonly ++ "[key: string]".toList

/-- The lines of a record: what stands before a type, and the type. -/
def rows (r : Record TypeExpr) : List (List Char × TypeExpr) :=
  r.members.map (fun m => (memberHead (m.name?.getD "") m.optional m.readonly, m.type))
    ++ r.catchAll.toList.map fun e => (othersHead r.catchAllReadonly, e)

/-- A line of a record, without what ends it. -/
def rowText (level : Nat) (row : List Char × TypeExpr) : List Char :=
  (margin (level + 1)).toList ++ (row.1 ++ ':' :: ' ' :: (renderAt (level + 1) row.2).toList)

theorem toList_renderMembers : ∀ {members : List (Member TypeExpr)},
    (∀ m ∈ members, ∃ name, m.key = .name name ∧ m.doc = none) →
    (renderMembers level members).toList
      = (members.map fun m => (memberHead (m.name?.getD "") m.optional m.readonly, m.type)).flatMap
          fun row => rowText level row ++ ';' :: ['\n']
  | [], _ => by
    rw [renderMembers]
    rfl
  | ⟨key, type, optional, readonly, doc⟩ :: members, h => by
    obtain ⟨name, rfl, rfl⟩ := h _ List.mem_cons_self
    rw [renderMembers, String.toList_append,
      toList_renderMembers fun m hm => h m (List.mem_cons_of_mem _ hm), List.map_cons,
      List.flatMap_cons]
    congr 1
    simp [renderMember, renderKey, rowText, memberHead, readonlyText, Member.name?]

theorem toList_renderCatchAll (readonly : Bool) (catchAll : Option TypeExpr) :
    (renderCatchAll level readonly catchAll).toList
      = (catchAll.toList.map fun e => (othersHead readonly, e)).flatMap
          fun row => rowText level row ++ ';' :: ['\n'] := by
  cases catchAll with
  | none =>
    rw [renderCatchAll]
    rfl
  | some e => simp [renderCatchAll, rowText, othersHead, readonlyText]

theorem toList_renderAt_record {r : Record TypeExpr} (hsome : r.isEmpty = false)
    (hnamed : ∀ m ∈ r.members, ∃ name, m.key = .name name ∧ m.doc = none) :
    (renderAt level (record r)).toList
      = '\x7b' :: ('\n' :: ((rows r).flatMap (fun row => rowText level row ++ ';' :: ['\n'])
          ++ (margin level).toList) ++ ['\x7d']) := by
  obtain ⟨members, catchAll, readonly⟩ := r
  have hne : (members.isEmpty && catchAll.isNone) = Bool.false := hsome
  have hmembers := @toList_renderMembers level _ hnamed
  rw [renderAt.eq_def]
  simp only [renderRecord, hne, rows, List.flatMap_append, ← toList_renderCatchAll, ← hmembers]
  simp

/-! ## 4. Nesting -/

/-- A text without brackets and quotation marks, as is seen by looking. -/
theorem nested_of_all {marks cs : List Char}
    (h : (cs.all fun c => isPlain c && c ∉ marks) = Bool.true) : Nested marks cs :=
  Text.nested_chars fun c hc => by simpa using List.all_eq_true.mp h c hc

/-- What a number is written with. -/
theorem isNumberChar_of_mem {n : JsonNumber} {c : Char} (h : c ∈ n.written.toList) :
    c.isDigit = Bool.true ∨ c ∈ ['.', 'e', '+', '-'] :=
  Token.IsSigned.isNumberChar (Token.exists_isDecimal_written n) h

/-- Escaping a text brings in nothing but backslashes. -/
theorem mem_of_mem_escapeTemplate {cs : List Char} {c : Char} (h : c ∈ escapeTemplate cs) :
    c ∈ cs ∨ c = '\\' := by
  fun_induction escapeTemplate cs with
  | case1 cs ih =>
    simp only [List.mem_cons] at h ⊢
    tauto
  | case2 d cs _ hescape ih =>
    simp only [List.mem_cons] at h ⊢
    tauto
  | case3 d cs _ _ ih =>
    simp only [List.mem_cons] at h ⊢
    tauto
  | case4 => exact .inl h

theorem nested_number (n : JsonNumber) :
    Nested ['&', '|', ',', ';', ':'] n.written.toList := by
  refine Text.nested_chars fun c hc => ?_
  rcases isNumberChar_of_mem hc with hdigit | hmem
  · have hne : ∀ d, d.isDigit = Bool.false → c ≠ d := by
      rintro d hd rfl
      rw [hdigit] at hd
      cases hd
    simp [isPlain, Text.isOpening, Text.isClosing, hne]
  · simp only [List.mem_cons, List.not_mem_nil, or_false] at hmem
    rcases hmem with rfl | rfl | rfl | rfl <;> exact ⟨rfl, by decide⟩

theorem nested_readonlyText (readonly : Bool) :
    Nested ['&', '|', ',', ';', ':'] (readonlyText readonly) := by
  cases readonly <;> exact nested_of_all (by decide)

theorem nested_margin {marks : List Char} (h : ' ' ∉ marks) (level : Nat) :
    Nested marks (margin level).toList := by
  rw [margin, String.toList_ofList]
  refine Text.nested_chars fun c hc => ?_
  rw [List.eq_of_mem_replicate hc]
  exact ⟨rfl, h⟩

theorem nested_arrayText {marks element : List Char} {parens : Bool} (h : Nested [] element)
    (hplain : parens = Bool.false → Nested marks element) :
    Nested marks (arrayText element parens) := by
  have hbrackets : Nested marks ['[', ']'] := 
    Text.nested_group '[' ']' rfl rfl (.nil : Nested [] [])
  cases parens with
  | true => exact (Text.nested_group '(' ')' rfl rfl h).append hbrackets
  | false => exact (hplain rfl).append hbrackets

theorem nested_tupleText {marks : List Char} {items : List (List Char)}
    (h : ∀ xs ∈ items, Nested [] xs) : Nested marks (tupleText items) :=
  Text.nested_group '[' ']' rfl rfl
    (Text.nested_intercalate (nested_of_all (by decide)) h)

/-- The items of a list are nested as its element is. -/
theorem nested_itemTexts {marks element : List Char} {parens : Bool} {bounds : ListBounds}
    (hmarks : '.' ∉ marks) (h : Nested marks element) :
    ∀ xs ∈ itemTexts element parens bounds, Nested marks xs := by
  have helement : ∀ n, ∀ xs ∈ List.replicate n element, Nested marks xs := fun n xs hxs => by
    rwa [List.eq_of_mem_replicate hxs]
  cases bounds with
  | unbounded => exact fun _ hxs => absurd hxs List.not_mem_nil
  | exact n => exact helement n
  | atLeast n =>
    refine List.forall_mem_append.mpr ⟨helement n, List.forall_mem_singleton.mpr ?_⟩
    exact .char rfl hmarks (.char rfl hmarks (.char rfl hmarks
      (nested_arrayText h.unmarked fun _ => h)))

theorem nested_listText {marks element : List Char} {parens : Bool} {bounds : ListBounds}
    (h : Nested [] element) (hplain : parens = Bool.false → Nested marks element) :
    Nested marks (listText element parens bounds) := by
  cases bounds with
  | unbounded => exact nested_arrayText h hplain
  | exact n => exact nested_tupleText (nested_itemTexts List.not_mem_nil h)
  | atLeast n => exact nested_tupleText (nested_itemTexts List.not_mem_nil h)

/-- The name of a member is a word or a quoted text. -/
theorem propertyKey_cases (name : String) :
    (Naming.propertyKey name = name ∧ Token.isWord name.toList = Bool.true) ∨
      Naming.propertyKey name = Text.quote name := by
  have hword : Naming.isIdentifier name = Token.isWord name.toList := by
    rw [Naming.isIdentifier]
    cases name.toList <;> rfl
  unfold Naming.propertyKey
  split
  · rename_i h
    exact .inl ⟨rfl, hword ▸ h⟩
  · exact .inr rfl

theorem isWordChar_of_mem {cs : List Char} (h : Token.isWord cs = Bool.true) {c : Char}
    (hc : c ∈ cs) : Token.isWordChar c = Bool.true := by
  cases cs with
  | nil => cases hc
  | cons d cs =>
    rw [Token.isWord, Bool.and_eq_true, List.all_eq_true] at h
    rcases List.mem_cons.mp hc with rfl | hc
    · rw [Token.isWordChar, h.1, Bool.true_or]
    · exact h.2 c hc

theorem nested_propertyKey (name : String) :
    Nested [';', ':'] (Naming.propertyKey name).toList := by
  rcases propertyKey_cases name with ⟨hkey, hword⟩ | hkey
  · rw [hkey]
    refine Text.nested_chars fun c hc => ?_
    have hne : ∀ d, Token.isWordChar d = Bool.false → c ≠ d := by
      rintro d hd rfl
      rw [isWordChar_of_mem hword hc] at hd
      cases hd
    simp [isPlain, Text.isOpening, Text.isClosing, hne, Token.isWordChar, Token.isWordStart]
  · rw [hkey]
    exact Text.nested_quote name

theorem nested_memberHead (name : String) (optional readonly : Bool) :
    Nested [';', ':'] (memberHead name optional readonly) := by
  have hmark : Nested [';', ':'] (readonlyText readonly) :=
    (nested_readonlyText readonly).mono (by simp)
  refine hmark.append ((nested_propertyKey name).append ?_)
  cases optional <;> exact nested_of_all (by decide)

theorem nested_othersHead (readonly : Bool) : Nested [';', ':'] (othersHead readonly) := by
  have hmark : Nested [';', ':'] (readonlyText readonly) :=
    (nested_readonlyText readonly).mono (by simp)
  have hkey : Nested [] "key: string".toList := nested_of_all (by decide)
  exact hmark.append (Text.nested_group '[' ']' rfl rfl hkey)

theorem nested_head {r : Record TypeExpr} {row : List Char × TypeExpr} (h : row ∈ rows r) :
    Nested [';', ':'] row.1 := by
  rcases List.mem_append.mp h with h | h
  · obtain ⟨m, _, rfl⟩ := List.mem_map.mp h
    exact nested_memberHead _ _ _
  · obtain ⟨e, _, rfl⟩ := List.mem_map.mp h
    exact nested_othersHead _

/-- The types of a record are those of its members and of the others. -/
theorem forall_mem_rows {P : TypeExpr → Prop} {r : Record TypeExpr} :
    (∀ row ∈ rows r, P row.2) ↔ (∀ m ∈ r.members, P m.type) ∧ ∀ e, r.catchAll = some e → P e := by
  simp only [rows, List.forall_mem_append, List.forall_mem_map, Option.mem_toList]

theorem nested_rowText {row : List Char × TypeExpr} (hhead : Nested [';', ':'] row.1)
    (htype : Nested [';'] (renderAt (level + 1) row.2).toList) :
    Nested [';'] (rowText level row) := by
  refine (nested_margin (by decide) _).append ((hhead.mono (by simp)).append ?_)
  exact .char rfl (by decide) (.char rfl (by decide) htype)

/-- A member of an intersection is nested, unions in parentheses. -/
theorem nested_constituentText {marks : List Char} {e : TypeExpr}
    (h : Nested [] (renderAt level e).toList)
    (hplain : (∀ ms, e ≠ union ms) → Nested marks (renderAt level e).toList) :
    Nested marks (constituentText level e) := by
  cases e with
  | union members => exact Text.nested_group '(' ')' rfl rfl h
  | _ => exact hplain nofun

/-- **What is written for an expression is well nested**, with the marks of its own kind only. -/
theorem Printed.nested {e : TypeExpr} (h : Printed e) :
    ∀ {level : Nat}, Nested e.form.absent (renderAt level e).toList := by
  have hfew : ∀ {f : Form} {marks cs}, Nested f.absent cs →
      (∀ c ∈ marks, c ∈ [',', ';', ':']) → Nested marks cs :=
    fun {f} _ _ h hmarks => h.mono fun c hc => f.mem_absent (hmarks c hc)
  induction h with
  | titled h =>
    intro level
    rw [h.toList_renderAt, h.form_eq]
    exact h.nested
  | string value =>
    intro level
    rw [renderAt_string]
    exact Text.nested_quote value
  | number value =>
    intro level
    rw [renderAt_number]
    exact nested_number value
  | @list element bounds readonly helement hbounds ih =>
    intro level
    have hform : (TypeExpr.list element bounds readonly).form.absent
        = ['&', '|', ',', ';', ':'] := by
      cases readonly <;> cases bounds <;> rfl
    rw [renderAt.eq_def, hform]
    simp only [toList_renderList hbounds]
    refine (nested_readonlyText readonly).append (nested_listText ih.unmarked fun hparens => ?_)
    rw [needsParens_eq_loose] at hparens
    rw [← Form.absent_of_ne (f := element.form) (fun h => by rw [h] at hparens; cases hparens)
      (fun h => by rw [h] at hparens; cases hparens)]
    exact ih
  | @record r hsome hnamed hmembers hcatchAll hclosed ihmembers ihcatchAll =>
    intro level
    have htypes : ∀ row ∈ rows r, Nested [';'] (renderAt (level + 1) row.2).toList :=
      forall_mem_rows.mpr ⟨fun m hm => hfew (ihmembers m hm) (by simp),
        fun e he => hfew (ihcatchAll e he) (by simp)⟩
    have hend : Nested [] [';', '\n'] := nested_of_all (by decide)
    rw [toList_renderAt_record hsome hnamed]
    refine Text.nested_group '\x7b' '\x7d' rfl rfl ?_
    refine .char rfl List.not_mem_nil (.append ?_ ?_)
    · exact Text.nested_flatMap fun row hrow =>
        (nested_rowText (nested_head hrow) (htypes row hrow)).unmarked.append hend
    · exact nested_margin List.not_mem_nil level
  | @union members htwo hmembers hflat ih =>
    intro level
    have hform : (TypeExpr.union members).form.absent = [',', ';', ':'] := rfl
    rw [toList_renderAt_union, hform]
    -- The bars between the members are the marks that a union may have.
    refine Text.nested_intercalate (nested_of_all (by decide)) ?_
    rw [List.forall_mem_map]
    exact fun m hm => hfew (ih m hm) (by simp)
  | @intersection members htwo hmembers hflat ih =>
    intro level
    have hform : (TypeExpr.intersection members).form.absent = ['|', ',', ';', ':'] := rfl
    rw [toList_renderAt_intersection, hform]
    refine Text.nested_intercalate (nested_of_all (by decide)) ?_
    rw [List.forall_mem_map]
    refine fun m hm => nested_constituentText (ih m hm).unmarked fun hunion => ?_
    refine (ih m hm).mono fun c hc => ?_
    rcases List.mem_cons.mp hc with rfl | hc
    · refine Form.mem_absent_of_ne fun hform => ?_
      obtain ⟨ms, rfl⟩ := form_eq_union.mp hform
      exact hunion ms rfl
    · exact m.form.mem_absent hc

end Texts

end TypeExpr

end ApiTypes
