/-
# One expression for a text

No two expressions are written alike.  The text shows the kind; the marks of the kind take the text
apart into the texts of the parts, and these are told apart by induction.

* `TypeExpr.listText_inj`, `TypeExpr.rows_inj`: what the text of a list and the lines of a record
  are made of.
* `TypeExpr.Printed.eq_of_render`: expressions that are written alike are the same.
-/
import ApiTypes.Proofs.Decimal.Written
import ApiTypes.Proofs.TypeExpr.Forms

namespace ApiTypes.TypeExpr

open Text (Nested)

variable {level : Nat}

/-! ## 1. Lists -/

section Lists

variable {a a' : TypeExpr} {bounds bounds' : ListBounds}

theorem arrayText_inj (ha : Printed a) (ha' : Printed a')
    (h : arrayText (renderAt level a).toList (needsParens a)
      = arrayText (renderAt level a').toList (needsParens a')) :
    renderAt level a = renderAt level a' := by
  have hplain : ∀ {e : TypeExpr}, Printed e → needsParens e = false → ∀ xs,
      (renderAt level e).toList ≠ xs ++ [')'] := by
    intro e he hparens
    rw [needsParens_eq_loose] at hparens
    exact he.ne_concat_paren (fun hform => by rw [hform] at hparens; cases hparens)
      fun hform => by rw [hform] at hparens; cases hparens
  have hbrackets := List.append_cancel_right h
  refine String.toList_injective ?_
  split at hbrackets <;> split at hbrackets
  · exact List.append_cancel_right (List.cons.inj hbrackets).2
  · rename_i hparens'
    exact absurd hbrackets.symm (hplain ha' (by simpa using hparens') ('(' :: _))
  · rename_i hparens _
    exact absurd hbrackets (hplain ha (by simpa using hparens) ('(' :: _))
  · exact hbrackets

/-- The items of a list, if they are written out, begin with its element. -/
theorem head?_itemTexts {element : List Char} {parens : Bool} (hfits : bounds.Fits)
    (hbounds : bounds ≠ .unbounded) : (itemTexts element parens bounds).head? = some element := by
  cases bounds with
  | unbounded => exact absurd rfl hbounds
  | exact n =>
    rw [itemTexts, List.head?_replicate, if_neg (Nat.ne_of_gt hfits.1)]
  | atLeast n =>
    rw [itemTexts, List.head?_append, List.head?_replicate, if_neg (Nat.ne_of_gt hfits.1)]
    rfl

theorem itemTexts_inj {element element' : List Char} {parens parens' : Bool} (hfits : bounds.Fits)
    (hfits' : bounds'.Fits) (hbounds : bounds ≠ .unbounded) (hbounds' : bounds' ≠ .unbounded)
    (h : itemTexts element parens bounds = itemTexts element' parens' bounds') :
    element = element' ∧ bounds = bounds' := by
  have hhead := congrArg List.head? h
  rw [head?_itemTexts hfits hbounds, head?_itemTexts hfits' hbounds', Option.some.injEq] at hhead
  subst hhead
  have hlength := congrArg List.length h
  -- The further items are longer than any other item.
  have hspread : ∀ {n : Nat} {p : Bool},
      ('.' :: '.' :: '.' :: arrayText element p) ∉ List.replicate n element := by
    intro n p hmem
    have hlonger := congrArg List.length (List.eq_of_mem_replicate hmem)
    cases p <;> simp [arrayText] at hlonger <;> omega
  cases bounds with
  | unbounded => exact absurd rfl hbounds
  | exact m =>
    cases bounds' with
    | unbounded => exact absurd rfl hbounds'
    | exact n =>
      simp only [itemTexts, List.length_replicate] at hlength
      exact ⟨rfl, by rw [hlength]⟩
    | atLeast n =>
      refine absurd ?_ (hspread (n := m) (p := parens'))
      rw [itemTexts, itemTexts] at h
      rw [h]
      exact List.mem_append_right _ (List.mem_singleton_self _)
  | atLeast m =>
    cases bounds' with
    | unbounded => exact absurd rfl hbounds'
    | exact n =>
      refine absurd ?_ (hspread (n := n) (p := parens))
      rw [itemTexts, itemTexts] at h
      rw [← h]
      exact List.mem_append_right _ (List.mem_singleton_self _)
    | atLeast n =>
      simp only [itemTexts, List.length_append, List.length_replicate, List.length_singleton,
        Nat.add_right_cancel_iff] at hlength
      exact ⟨rfl, by rw [hlength]⟩

theorem tupleText_inj {items items' : List (List Char)} (h : ∀ xs ∈ items, Nested [','] xs)
    (h' : ∀ xs ∈ items', Nested [','] xs) (hsome : items ≠ []) (hsome' : items' ≠ [])
    (heq : tupleText items = tupleText items') : items = items' :=
  Text.intercalate_inj rfl (.nil : Nested [','] []) h h' hsome hsome'
    (List.append_cancel_right (List.cons.inj heq).2)

/-- **The element and the bounds of a list are told from its text.** -/
theorem listText_inj (ha : Printed a) (ha' : Printed a') (hfits : bounds.Fits)
    (hfits' : bounds'.Fits)
    (h : listText (renderAt level a).toList (needsParens a) bounds
      = listText (renderAt level a').toList (needsParens a') bounds') :
    renderAt level a = renderAt level a' ∧ bounds = bounds' := by
  have hitems : ∀ {e : TypeExpr} {b : ListBounds}, Printed e →
      ∀ xs ∈ itemTexts (renderAt level e).toList (needsParens e) b, Nested [','] xs :=
    fun {e} {b} he => nested_itemTexts (by decide) (he.nested.mono fun c hc =>
      e.form.mem_absent (List.mem_of_mem_take (i := 1) hc))
  have hsome : ∀ {e : TypeExpr} {b : ListBounds}, b.Fits → b ≠ .unbounded →
      itemTexts (renderAt level e).toList (needsParens e) b ≠ [] :=
    fun hb hne => List.ne_nil_of_mem (itemTexts_ne_nil hb hne)
  have htuple : ∀ {e : TypeExpr} {b : ListBounds}, Printed e → b.Fits → b ≠ .unbounded →
      ∀ {xs}, tupleText (itemTexts (renderAt level e).toList (needsParens e) b)
        ≠ xs ++ ['[', ']'] :=
    fun he hb hne _ heq => not_suffix_tupleText
      (fun xs hxs => (hitems he xs hxs).mono fun _ hc => absurd hc List.not_mem_nil)
      ⟨_, itemTexts_ne_nil hb hne, he.text_ne_nil⟩ ⟨_, heq.symm⟩
  have hboth : bounds ≠ .unbounded → bounds' ≠ .unbounded →
      tupleText (itemTexts (renderAt level a).toList (needsParens a) bounds)
        = tupleText (itemTexts (renderAt level a').toList (needsParens a') bounds') →
      renderAt level a = renderAt level a' ∧ bounds = bounds' := fun hne hne' heq =>
    (itemTexts_inj hfits hfits' hne hne'
      (tupleText_inj (hitems ha) (hitems ha') (hsome hfits hne) (hsome hfits' hne') heq)).imp_left
        fun h => String.toList_injective h
  cases bounds with
  | unbounded =>
    cases bounds' with
    | unbounded => exact ⟨arrayText_inj ha ha' h, rfl⟩
    | exact | atLeast => exact absurd h.symm (htuple ha' hfits' nofun)
  | exact | atLeast =>
    cases bounds' with
    | unbounded => exact absurd h (htuple ha hfits nofun)
    | exact | atLeast => exact hboth nofun nofun h

end Lists

/-! ## 2. Records -/

section Records

variable {name name' : String} {optional optional' readonly readonly' : Bool}

/-- The mark in front is told from what has none. -/
theorem readonlyText_inj {xs ys : List Char} (hxs : ¬ "readonly ".toList <+: xs)
    (hys : ¬ "readonly ".toList <+: ys)
    (h : readonlyText readonly ++ xs = readonlyText readonly' ++ ys) :
    readonly = readonly' ∧ xs = ys := by
  cases readonly <;> cases readonly'
  · exact ⟨rfl, h⟩
  · exact absurd ⟨ys, h.symm⟩ hxs
  · exact absurd ⟨xs, h⟩ hys
  · exact ⟨rfl, List.append_cancel_left h⟩

/-- The mark of a member that may be missing. -/
def optionalText (optional : Bool) : List Char := (if optional then "?" else "").toList

theorem not_prefix_member :
    ¬ "readonly ".toList <+: (Naming.propertyKey name).toList ++ optionalText optional := by
  rintro ⟨ys, heq⟩
  rcases propertyKey_cases name with ⟨hkey, hword⟩ | hkey
  · -- no word and no mark has a blank in it
    have hmem : ' ' ∈ name.toList ++ optionalText optional := by
      rw [← hkey, ← heq]
      exact List.mem_append_left _ (by decide)
    rcases List.mem_append.mp hmem with hmem | hmem
    · cases isWordChar_of_mem hword hmem
    · cases optional <;> exact absurd hmem (by decide)
  · obtain ⟨cs, hcs⟩ := Text.exists_quote_eq name
    rw [hkey, hcs] at heq
    cases heq

/-- A name and the mark behind it are told from each other. -/
theorem propertyKey_inj
    (h : (Naming.propertyKey name).toList ++ optionalText optional
      = (Naming.propertyKey name').toList ++ optionalText optional') :
    name = name' ∧ optional = optional' := by
  have hmark : ∀ {b b' : Bool}, optionalText b = optionalText b' → b = b' := by decide
  have hquoted : ∀ {s t : String} {xs ys : List Char}, Token.isWord s.toList = true →
      s.toList ++ xs ≠ (Text.quote t).toList ++ ys := by
    intro s t xs ys hs heq
    obtain ⟨cs, hcs⟩ := Text.exists_quote_eq t
    rw [hcs] at heq
    cases hchars : s.toList with
    | nil =>
      rw [hchars] at hs
      cases hs
    | cons c cs =>
      rw [hchars] at heq
      obtain rfl : c = '"' := (List.cons.inj heq).1
      cases isWordChar_of_mem hs (hchars ▸ List.mem_cons_self)
  have hword : ∀ {s t : String}, Token.isWord t.toList = true →
      s.toList ++ optionalText true ≠ t.toList ++ optionalText false := by
    intro s t ht heq
    have hmem : '?' ∈ t.toList := by
      have heq' : s.toList ++ ['?'] = t.toList := by simpa [optionalText] using heq
      rw [← heq']
      exact List.mem_append_right _ (List.mem_singleton_self _)
    cases isWordChar_of_mem ht hmem
  rcases propertyKey_cases name with ⟨hkey, hname⟩ | hkey <;>
    rcases propertyKey_cases name' with ⟨hkey', hname'⟩ | hkey' <;> rw [hkey, hkey'] at h
  · cases optional <;> cases optional'
    · exact ⟨String.toList_injective (List.append_cancel_right h), rfl⟩
    · exact absurd h.symm (hword hname)
    · exact absurd h (hword hname')
    · exact ⟨String.toList_injective (List.append_cancel_right h), rfl⟩
  · exact absurd h (hquoted hname)
  · exact absurd h.symm (hquoted hname')
  · exact (Text.quote_append_inj h).imp_right hmark

theorem not_prefix_others : ¬ "readonly ".toList <+: "[key: string]".toList := by
  decide

theorem memberHead_inj (h : memberHead name optional readonly
    = memberHead name' optional' readonly') :
    name = name' ∧ optional = optional' ∧ readonly = readonly' := by
  obtain ⟨hreadonly, hkey⟩ := readonlyText_inj not_prefix_member not_prefix_member h
  exact ⟨(propertyKey_inj hkey).1, (propertyKey_inj hkey).2, hreadonly⟩

/-- No member has the head of the others. -/
theorem memberHead_ne_othersHead : memberHead name optional readonly ≠ othersHead readonly' := by
  intro h
  have hkey := (readonlyText_inj not_prefix_member not_prefix_others h).2
  rcases propertyKey_cases name with ⟨hsame, hword⟩ | hquote
  · rw [hsame] at hkey
    cases hchars : name.toList with
    | nil =>
      rw [hchars] at hword
      cases hword
    | cons c cs =>
      rw [hchars] at hkey
      obtain rfl : c = '[' := (List.cons.inj hkey).1
      cases isWordChar_of_mem hword (hchars ▸ List.mem_cons_self)
  · obtain ⟨cs, hcs⟩ := Text.exists_quote_eq name
    rw [hquote, hcs] at hkey
    cases hkey

/-- The type of the others is told from its line, if there is one. -/
theorem others_inj {catchAll catchAll' : Option TypeExpr}
    (hclosed : catchAll = none → readonly = false) (hclosed' : catchAll' = none → readonly' = false)
    (h : catchAll.toList.map (fun e => (othersHead readonly, e))
      = catchAll'.toList.map fun e => (othersHead readonly', e)) :
    catchAll = catchAll' ∧ readonly = readonly' := by
  cases catchAll with
  | none =>
    cases catchAll' with
    | none => exact ⟨rfl, (hclosed rfl).trans (hclosed' rfl).symm⟩
    | some e' => cases h
  | some e =>
    cases catchAll' with
    | none => cases h
    | some e' =>
      obtain ⟨hhead, htype⟩ := Prod.mk.inj (List.cons.inj h).1
      exact ⟨congrArg some htype, (readonlyText_inj not_prefix_others not_prefix_others hhead).1⟩

/-- **Members under names and without comments, and the type of the others, are told from the
lines of a record.** -/
theorem rows_inj {catchAll catchAll' : Option TypeExpr}
    (hclosed : catchAll = none → readonly = false)
    (hclosed' : catchAll' = none → readonly' = false) :
    ∀ {members members' : List (Member TypeExpr)},
      (∀ m ∈ members, ∃ name, m.key = .name name ∧ m.doc = none) →
      (∀ m ∈ members', ∃ name, m.key = .name name ∧ m.doc = none) →
      rows ⟨members, catchAll, readonly⟩ = rows ⟨members', catchAll', readonly'⟩ →
      (⟨members, catchAll, readonly⟩ : Record TypeExpr) = ⟨members', catchAll', readonly'⟩
  | [], [], _, _, h => by
    obtain ⟨rfl, rfl⟩ := others_inj hclosed hclosed' h
    rfl
  | [], m' :: _, _, _, h => by
    cases catchAll with
    | none => cases h
    | some e =>
      have hhead := (Prod.mk.inj (List.cons.inj h).1).1
      exact absurd hhead.symm memberHead_ne_othersHead
  | m :: _, [], _, _, h => by
    cases catchAll' with
    | none => cases h
    | some e =>
      have hhead := (Prod.mk.inj (List.cons.inj h).1).1
      exact absurd hhead memberHead_ne_othersHead
  | ⟨key, type, optional, ro, doc⟩ :: members, ⟨key', type', optional', ro', doc'⟩ :: members',
      hm, hm', h => by
    obtain ⟨name, rfl, rfl⟩ := hm _ List.mem_cons_self
    obtain ⟨name', rfl, rfl⟩ := hm' _ List.mem_cons_self
    obtain ⟨hrow, hrest⟩ := List.cons.inj h
    obtain ⟨hhead, rfl⟩ := Prod.mk.inj hrow
    obtain ⟨rfl, rfl, rfl⟩ := memberHead_inj hhead
    cases rows_inj hclosed hclosed' (fun m hmem => hm m (List.mem_cons_of_mem _ hmem))
      (fun m hmem => hm' m (List.mem_cons_of_mem _ hmem)) hrest
    rfl

/-- A line is told from its text. -/
theorem rowText_inj {row row' : List Char × TypeExpr} (hrow : Nested [';', ':'] row.1)
    (hrow' : Nested [';', ':'] row'.1) (h : rowText level row = rowText level row') :
    row.1 = row'.1 ∧ renderAt (level + 1) row.2 = renderAt (level + 1) row'.2 := by
  have hmark := List.append_cancel_left h
  have hcolon : ∀ c ∈ [':'], c ∈ [';', ':'] := by simp
  obtain ⟨hhead, htype⟩ := (hrow.mono hcolon).cut (hrow'.mono hcolon)
    (Text.stops_mark rfl List.mem_cons_self) (Text.stops_mark rfl List.mem_cons_self) hmark
  exact ⟨hhead, String.toList_injective (List.cons.inj (List.cons.inj htype).2).2⟩

end Records

/-! ## 3. Expressions -/

/-- Lists are the same if what is made of their items is the same, and tells the items. -/
theorem eq_of_map_eq {α β : Type} {f : α → β} : ∀ {as as' : List α},
    (∀ a ∈ as, ∀ a' ∈ as', f a = f a' → a = a') → as.map f = as'.map f → as = as'
  | [], [], _, _ => rfl
  | [], _ :: _, _, h => by cases h
  | _ :: _, [], _, h => by cases h
  | a :: as, a' :: as', hf, h => by
    obtain ⟨hfirst, hrest⟩ := List.cons.inj h
    rw [hf a List.mem_cons_self a' List.mem_cons_self hfirst,
      eq_of_map_eq (fun b hb b' hb' => hf b (List.mem_cons_of_mem _ hb) b'
        (List.mem_cons_of_mem _ hb')) hrest]

/-- Texts with a mark and blanks between them are told apart. -/
theorem spaced_inj {mark : Char} (hmark : Text.isPlain mark = true) (hblank : mark ≠ ' ')
    {texts texts' : List (List Char)} (htwo : 2 ≤ texts.length) (htwo' : 2 ≤ texts'.length)
    (h : ∀ xs ∈ texts, Nested [mark] xs) (h' : ∀ xs ∈ texts', Nested [mark] xs)
    (heq : List.intercalate [' ', mark, ' '] texts = List.intercalate [' ', mark, ' '] texts') :
    texts = texts' := by
  have hbefore : Nested [mark] [' '] := .char rfl (by simpa using hblank.symm) .nil
  refine Text.intercalate_inj hmark hbefore h h' ?_ ?_ heq
  · exact List.ne_nil_of_length_pos (Nat.lt_of_lt_of_le Nat.zero_lt_two htwo)
  · exact List.ne_nil_of_length_pos (Nat.lt_of_lt_of_le Nat.zero_lt_two htwo')

/-- Records of which the lines are written alike, if what is written for their types tells them. -/
theorem record_inj {r r' : Record TypeExpr}
    (hnamed : ∀ m ∈ r.members, ∃ name, m.key = .name name ∧ m.doc = none)
    (hnamed' : ∀ m ∈ r'.members, ∃ name, m.key = .name name ∧ m.doc = none)
    (hclosed : r.catchAll = none → r.catchAllReadonly = false)
    (hclosed' : r'.catchAll = none → r'.catchAllReadonly = false)
    (h : ∀ row ∈ rows r, Printed row.2) (h' : ∀ row ∈ rows r', Printed row.2)
    (hinj : ∀ row ∈ rows r, ∀ row' ∈ rows r',
      renderAt (level + 1) row.2 = renderAt (level + 1) row'.2 → row.2 = row'.2)
    (heq : (rows r).flatMap (fun row => rowText level row ++ ';' :: ['\n'])
        ++ (margin level).toList
      = (rows r').flatMap (fun row => rowText level row ++ ';' :: ['\n'])
        ++ (margin level).toList) : r = r' := by
  have hlines : ∀ {r : Record TypeExpr}, (∀ row ∈ rows r, Printed row.2) →
      ∀ xs ∈ (rows r).map (rowText level), Nested [';'] xs := by
    intro r hr
    rw [List.forall_mem_map]
    exact fun row hrow => nested_rowText (nested_head hrow) ((hr row hrow).nested.mono
      fun c hc => row.2.form.mem_absent (by rw [List.mem_singleton.mp hc]; simp))
  have htexts := Text.lines_inj rfl (nested_margin (by decide : ' ' ∉ [';']) level)
    (hlines h) (hlines h')
    (by rw [List.flatMap_map, List.flatMap_map]; exact heq)
  have hrows := eq_of_map_eq (fun row hrow row' hrow' htext => by
    obtain ⟨hhead, hrender⟩ := rowText_inj (nested_head hrow) (nested_head hrow') htext
    exact Prod.ext hhead (hinj row hrow row' hrow' hrender)) htexts
  obtain ⟨members, catchAll, readonly⟩ := r
  obtain ⟨members', catchAll', readonly'⟩ := r'
  exact rows_inj hclosed hclosed' hnamed hnamed' hrows

/-- The parentheses around a union tell it from all other members of an intersection. -/
theorem constituentText_inj {e e' : TypeExpr} (h : Printed e) (h' : Printed e')
    (hinter : e.form ≠ .intersection) (hinter' : e'.form ≠ .intersection)
    (heq : constituentText level e = constituentText level e') :
    renderAt level e = renderAt level e' := by
  have hplain : ∀ {e : TypeExpr}, (∀ ms, e ≠ union ms) →
      constituentText level e = (renderAt level e).toList := by
    intro e hunion
    cases e with
    | union ms => exact absurd rfl (hunion ms)
    | _ => rfl
  have hform : ∀ {e : TypeExpr}, (∀ ms, e ≠ union ms) → e.form ≠ .union := by
    intro e hunion hform
    obtain ⟨ms, hms⟩ := form_eq_union.mp hform
    exact hunion ms hms
  refine String.toList_injective ?_
  by_cases hunion : ∃ ms, e = union ms
  · obtain ⟨ms, rfl⟩ := hunion
    by_cases hunion' : ∃ ms, e' = union ms
    · obtain ⟨ms', rfl⟩ := hunion'
      exact List.append_cancel_right (List.cons.inj heq).2
    · rw [hplain (not_exists.mp hunion')] at heq
      exact absurd heq.symm (h'.ne_concat_paren (hform (not_exists.mp hunion')) hinter' ('(' :: _))
  · rw [hplain (not_exists.mp hunion)] at heq
    by_cases hunion' : ∃ ms, e' = union ms
    · obtain ⟨ms', rfl⟩ := hunion'
      exact absurd heq (h.ne_concat_paren (hform (not_exists.mp hunion)) hinter ('(' :: _))
    · rwa [hplain (not_exists.mp hunion')] at heq

/-- The expressions of a kind. -/
def OfForm (e : TypeExpr) : Form → Prop
  | .name => ∃ word keys, Titled e word keys
  | .text => ∃ value, e = literal (.string value)
  | .number => ∃ value, e = literal (.number value)
  | .record => ∃ r, r.isEmpty = false ∧ e = record r
  | .tuple => ∃ element bounds, e = list element bounds false
  | .array => ∃ element bounds, e = list element bounds false
  | .marked => ∃ element bounds, e = list element bounds true
  | .intersection => ∃ members, e = intersection members
  | .union => ∃ members, e = union members

theorem form_record {r : Record TypeExpr} (h : r.isEmpty = false) : (record r).form = .record := by
  rw [form, h]
  rfl

theorem Printed.ofForm {e : TypeExpr} (h : Printed e) : OfForm e e.form := by
  cases h with
  | titled h =>
    rw [h.form_eq]
    exact ⟨_, _, h⟩
  | string value => exact ⟨value, rfl⟩
  | number value => exact ⟨value, rfl⟩
  | @list element bounds readonly =>
    cases readonly <;> cases bounds <;> exact ⟨element, _, rfl⟩
  | @record r hsome =>
    rw [form_record hsome]
    exact ⟨r, hsome, rfl⟩
  | @union members => exact ⟨members, rfl⟩
  | @intersection members => exact ⟨members, rfl⟩

/-- What is written like an expression is of its kind. -/
theorem Printed.ofForm_of_render {e e' : TypeExpr} (h : Printed e) (h' : Printed e')
    (heq : renderAt level e = renderAt level e') : OfForm e' e.form :=
  h.form_eq h' heq ▸ h'.ofForm

theorem Printed.eq_list {element : TypeExpr} {bounds : ListBounds} {readonly : Bool}
    {e' : TypeExpr} (h : Printed (.list element bounds readonly)) (h' : Printed e')
    (heq : renderAt level (.list element bounds readonly) = renderAt level e') :
    ∃ element' bounds', e' = .list element' bounds' readonly := by
  have hform := h.ofForm_of_render h' heq
  cases readonly <;> cases bounds <;> exact hform

/-- **Expressions that are written alike are the same**, by induction on the one; the other is of
its kind. -/
theorem Printed.eq_of_render {e : TypeExpr} (h : Printed e) : ∀ {e' : TypeExpr} {level : Nat},
    Printed e' → renderAt level e = renderAt level e' → e = e' := by
  induction h with
  | @titled e word keys h =>
    intro e' level h' heq
    have hform := (Printed.titled h).ofForm_of_render h' heq
    rw [h.form_eq] at hform
    obtain ⟨word', keys', h'⟩ := hform
    refine h.eq_of_text h' ?_
    rw [← @Titled.toList_renderAt _ _ _ level h, heq, h'.toList_renderAt]
  | string value =>
    intro e' level h' heq
    obtain ⟨value', rfl⟩ := (Printed.string value).ofForm_of_render h' heq
    rw [renderAt_string, renderAt_string] at heq
    rw [Text.quote_injective heq]
  | number value =>
    intro e' level h' heq
    obtain ⟨value', rfl⟩ := (Printed.number value).ofForm_of_render h' heq
    rw [renderAt_number, renderAt_number] at heq
    rw [JsonNumber.written_injective heq]
  | @list element bounds readonly helement hbounds ih =>
    intro e' level h' heq
    obtain ⟨element', bounds', rfl⟩ := (Printed.list helement hbounds).eq_list h' heq
    cases h' with
    | titled h' => cases h'
    | list helement' hbounds' =>
      have htext := congrArg String.toList heq
      rw [renderAt.eq_def, renderAt.eq_def] at htext
      simp only [toList_renderList hbounds, toList_renderList hbounds'] at htext
      obtain ⟨hrender, rfl⟩ :=
        listText_inj helement helement' hbounds hbounds' (List.append_cancel_left htext)
      rw [ih helement' hrender]
  | @record r hsome hnamed hmembers hcatchAll hclosed ihmembers ihcatchAll =>
    intro e' level h' heq
    have hform := (Printed.record hsome hnamed hmembers hcatchAll hclosed).ofForm_of_render h' heq
    rw [form_record hsome] at hform
    obtain ⟨r', hsome', rfl⟩ := hform
    cases h' with
    | titled h' =>
      cases h'
      cases hsome'
    | record _ hnamed' hmembers' hcatchAll' hclosed' =>
      have htext := congrArg String.toList heq
      rw [toList_renderAt_record hsome hnamed, toList_renderAt_record hsome' hnamed'] at htext
      rw [record_inj hnamed hnamed' hclosed hclosed' (forall_mem_rows.mpr ⟨hmembers, hcatchAll⟩)
        (forall_mem_rows.mpr ⟨hmembers', hcatchAll'⟩) (fun row hrow row' hrow' hrender => ?_)
        (List.cons.inj (List.append_cancel_right (List.cons.inj htext).2)).2]
      have hih := forall_mem_rows (P := fun e => ∀ {e' : TypeExpr} {level : Nat}, Printed e' →
        renderAt level e = renderAt level e' → e = e') |>.mpr ⟨ihmembers, ihcatchAll⟩
      exact hih row hrow (forall_mem_rows.mpr ⟨hmembers', hcatchAll'⟩ row' hrow') hrender
  | @union members htwo hmembers hflat ih =>
    intro e' level h' heq
    obtain ⟨members', rfl⟩ :=
      (Printed.union htwo hmembers hflat).ofForm_of_render h' heq
    cases h' with
    | titled h' => cases h'
    | union htwo' hmembers' hflat' =>
      have htexts := congrArg String.toList heq
      rw [toList_renderAt_union, toList_renderAt_union] at htexts
      rw [eq_of_map_eq (fun m hm m' hm' hrender =>
        ih m hm (hmembers' m' hm') (String.toList_injective hrender))
        (spaced_inj rfl (by decide) (by rwa [List.length_map]) (by rwa [List.length_map])
          (nested_members hmembers hflat) (nested_members hmembers' hflat') htexts)]
  | @intersection members htwo hmembers hflat ih =>
    intro e' level h' heq
    obtain ⟨members', rfl⟩ :=
      (Printed.intersection htwo hmembers hflat).ofForm_of_render h' heq
    cases h' with
    | titled h' => cases h'
    | intersection htwo' hmembers' hflat' =>
      have htexts := congrArg String.toList heq
      have hform : ∀ {ms : List TypeExpr}, (∀ es, .intersection es ∉ ms) → ∀ m ∈ ms,
          m.form ≠ .intersection := by
        intro ms hms m hm hform
        obtain ⟨es, rfl⟩ := form_eq_intersection.mp hform
        exact hms es hm
      rw [toList_renderAt_intersection, toList_renderAt_intersection] at htexts
      rw [eq_of_map_eq (fun m hm m' hm' hrender => ih m hm (hmembers' m' hm')
        (constituentText_inj (hmembers m hm) (hmembers' m' hm') (hform hflat m hm)
          (hform hflat' m' hm') hrender))
        (spaced_inj rfl (by decide) (by rwa [List.length_map]) (by rwa [List.length_map])
          (nested_constituents hmembers hflat) (nested_constituents hmembers' hflat') htexts)]

end ApiTypes.TypeExpr
