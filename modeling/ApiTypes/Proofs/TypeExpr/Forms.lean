/-
# Kinds of expressions in the text

The text says of which kind an expression is.  A union has a bar outside of brackets, an
intersection an ampersand, a list that cannot be changed the mark of such a list in front and any
other list without bounds empty brackets behind it; what remains shows by its first character.

* `TypeExpr.formOf` reads the kind from the text.
* `TypeExpr.Printed.formOf_text` and `TypeExpr.Printed.form_eq`: it is the kind of the expression.
-/
import ApiTypes.Proofs.TypeExpr.Texts

namespace ApiTypes.TypeExpr

open Text (Nested isPlain)

variable {level : Nat}

/-! ## 1. The kind of a text -/

/-- A text with a mark outside of brackets. -/
def Cut (mark : Char) (xs : List Char) : Prop :=
  ∃ ys rest, xs = ys ++ mark :: rest ∧ Nested [mark] ys

theorem not_cut {mark : Char} {xs : List Char} (hmark : isPlain mark = Bool.true)
    (h : Nested [mark] xs) : ¬ Cut mark xs := by
  rintro ⟨ys, rest, heq, hys⟩
  exact h.ne_append_mark hys hmark heq

/-- The kind that a first character shows. -/
def firstForm : List Char → Form
  | [] => .name
  | c :: _ =>
    if c = '[' then .tuple
    else if c = '\x7b' then .record
    else if c = '"' then .text
    else if c.isDigit || c = '-' then .number
    else .name

open Classical in
/-- The kind that a text shows. -/
noncomputable def formOf (xs : List Char) : Form :=
  if Cut '|' xs then .union
  else if Cut '&' xs then .intersection
  else if "readonly ".toList <+: xs then .marked
  else if ['[', ']'] <:+ xs then .array
  else firstForm xs

/-! ## 2. The ends of texts -/

theorem Titled.firstForm {e : TypeExpr} {word : String} {keys : List String}
    (h : Titled e word keys) : firstForm (nameText word keys) = .name := by
  rcases h.word_cases with ⟨_, rfl, rfl⟩ | ⟨⟨c, cs, hword, hdigit, hminus⟩, _⟩
  · rfl
  · have hne : ∀ d ∈ ['[', ']', ')', '"', '\x7b'], c ≠ d := by
      rintro d hd rfl
      exact h.notMem hd (hword ▸ List.mem_cons_self)
    rw [nameText, hword, List.cons_append, TypeExpr.firstForm, if_neg (hne _ (by simp)),
      if_neg (hne _ (by simp)), if_neg (hne _ (by simp)), hdigit, decide_eq_false hminus]
    rfl

/-- A number begins with a digit or its sign. -/
theorem firstForm_number (n : JsonNumber) : firstForm n.written.toList = .number := by
  have hdigit : ∀ {c : Char} {cs : List Char}, c.isDigit = Bool.true →
      firstForm (c :: cs) = .number := by
    intro c cs hc
    have hne : ∀ d, d.isDigit = Bool.false → c ≠ d := by
      rintro d hd rfl
      rw [hc] at hd
      cases hd
    rw [firstForm, if_neg (hne _ rfl), if_neg (hne _ rfl), if_neg (hne _ rfl), hc]
    rfl
  obtain ⟨cs, hcs, hwritten⟩ := Token.exists_isDecimal_written n
  obtain ⟨c, cs', rfl, hc⟩ := hcs.exists_cons
  rcases hwritten with hwritten | hwritten
  · rw [hwritten]
    exact hdigit hc
  · rw [hwritten]
    rfl

/-- What shows its kind by the first character has no mark in front. -/
theorem not_prefix_of_firstForm {xs rest : List Char} (hsome : xs ≠ [])
    (h : firstForm xs ≠ .name) : ¬ "readonly ".toList <+: xs ++ rest := by
  rintro ⟨ys, heq⟩
  cases xs with
  | nil => exact hsome rfl
  | cons c xs =>
    rw [List.cons_append] at heq
    obtain rfl : 'r' = c := (List.cons.inj heq).1
    exact h rfl

theorem Titled.not_prefix {e : TypeExpr} {word : String} {keys : List String}
    (h : Titled e word keys) {rest : List Char} (hrest : ∀ c ∈ rest.head?, c = '[') :
    ¬ "readonly ".toList <+: nameText word keys ++ rest := by
  rintro ⟨ys, heq⟩
  rcases h.word_cases with ⟨_, rfl, rfl⟩ | ⟨_, hall⟩
  · cases heq
  · -- the mark has a blank behind its word
    have hbracket : ∀ c ∈ ((keys.flatMap fun key => '[' :: ((Text.quote key).toList ++ [']']))
        ++ rest).head?, c = '[' := by
      cases keys with
      | nil => exact hrest
      | cons key keys =>
        intro c hc
        cases hc
        rfl
    obtain ⟨_, hdrop⟩ := Token.span_append (List.all_eq_true.mp hall)
      fun c hc => by rw [hbracket c hc]; rfl
    rw [nameText, List.append_assoc] at heq
    rw [← heq] at hdrop
    have hblank : ("readonly ".toList ++ ys).dropWhile isNameChar = ' ' :: ys := rfl
    rw [hblank] at hdrop
    rw [← hdrop] at hbracket
    exact absurd (hbracket ' ' rfl) (by decide)

/-- Texts that end with different characters differ. -/
theorem concat_ne {xs ys : List Char} {a b : Char} (h : a ≠ b) : xs ++ [a] ≠ ys ++ [b] :=
  fun heq => h (List.cons.inj (List.append_inj' heq rfl).2).1

/-- What stands before brackets at the end of a text. -/
theorem eq_of_append_brackets {xs ys : List Char} (h : ys ++ ['[', ']'] = xs ++ [']']) :
    ys ++ ['['] = xs :=
  List.append_cancel_right (by rwa [List.append_assoc])

theorem not_suffix_of_concat {xs : List Char} {a : Char} (h : a ≠ ']') :
    ¬ ['[', ']'] <:+ xs ++ [a] := by
  rintro ⟨ys, heq⟩
  have hbracket : xs ++ [a] = (ys ++ ['[']) ++ [']'] := by simp [← heq]
  exact concat_ne h hbracket

theorem Titled.not_suffix {e : TypeExpr} {word : String} {keys : List String}
    (h : Titled e word keys) : ¬ ['[', ']'] <:+ nameText word keys := by
  rintro ⟨ys, heq⟩
  rw [nameText] at heq
  rcases List.eq_nil_or_concat keys with rfl | ⟨keys, key, rfl⟩
  · rw [List.flatMap_nil, List.append_nil] at heq
    have hmem : ']' ∈ word.toList := by simp [← heq]
    exact h.notMem (by simp) hmem
  · obtain ⟨cs, hcs⟩ := Text.exists_quote_eq key
    rw [List.concat_eq_append, List.flatMap_append, List.flatMap_singleton, hcs] at heq
    have hquote : ys ++ ['['] = word.toList
        ++ (keys.flatMap (fun key => '[' :: ((Text.quote key).toList ++ [']']))
          ++ '[' :: '"' :: cs) ++ ['"'] := eq_of_append_brackets (by simpa using heq)
    exact concat_ne (by decide) hquote

/-- Items that are written out, and are not empty, do not look like brackets behind a type. -/
theorem not_suffix_tupleText {items : List (List Char)} (h : ∀ xs ∈ items, Nested [] xs)
    (hsome : ∃ xs ∈ items, xs ≠ []) : ¬ ['[', ']'] <:+ tupleText items := by
  rintro ⟨ys, heq⟩
  have hinner : Nested [] (List.intercalate [',', ' '] items) :=
    Text.nested_intercalate (nested_of_all (by decide)) h
  obtain ⟨xs, hmem, hxs⟩ := hsome
  have hne : List.intercalate [',', ' '] items ≠ [] := fun hnil =>
    hxs (List.eq_nil_of_infix_nil (hnil ▸ Text.infix_intercalate hmem))
  rw [tupleText] at heq
  cases ys with
  | nil =>
    have hnil : [] ++ [']'] = List.intercalate [',', ' '] items ++ [']'] := (List.cons.inj heq).2
    exact hne (List.append_cancel_right hnil).symm
  | cons y ys =>
    have hlast := eq_of_append_brackets (List.cons.inj heq).2
    have hopening := hinner.getLast? '[' (by rw [← hlast, List.getLast?_concat]; rfl)
    cases hopening

theorem itemTexts_ne_nil {element : List Char} {parens : Bool} {bounds : ListBounds}
    (hfits : bounds.Fits) (hbounds : bounds ≠ .unbounded) :
    element ∈ itemTexts element parens bounds := by
  cases bounds with
  | unbounded => exact absurd rfl hbounds
  | exact n => exact List.mem_replicate.mpr ⟨Nat.ne_of_gt hfits.1, rfl⟩
  | atLeast n =>
    exact List.mem_append_left _ (List.mem_replicate.mpr ⟨Nat.ne_of_gt hfits.1, rfl⟩)

theorem intercalate_ne_nil {sep : List Char} {texts : List (List Char)} (hsep : sep ≠ [])
    (htwo : 2 ≤ texts.length) : List.intercalate sep texts ≠ [] := by
  rcases texts with _ | ⟨x, _ | ⟨y, rest⟩⟩
  · cases htwo
  · simp at htwo
  · simp [List.intercalate_cons_cons, hsep]

/-- Every expression is written as something. -/
theorem Printed.text_ne_nil {e : TypeExpr} (h : Printed e) : (renderAt level e).toList ≠ [] := by
  induction h with
  | titled h =>
    rw [h.toList_renderAt, nameText]
    rcases h.word_cases with ⟨_, rfl, rfl⟩ | ⟨⟨c, cs, hword, _⟩, _⟩
    · simp
    · rw [hword]
      exact List.cons_ne_nil _ _
  | string value =>
    rw [renderAt_string, Text.quote, String.toList_ofList]
    exact List.cons_ne_nil _ _
  | number value =>
    have hform := firstForm_number value
    intro hnil
    rw [← @renderAt_number level, hnil] at hform
    cases hform
  | @list element bounds readonly helement hbounds ih =>
    rw [renderAt.eq_def]
    simp only [toList_renderList hbounds]
    cases bounds <;> simp [listText, arrayText, tupleText]
  | @record r hsome hnamed hmembers hcatchAll hclosed ihmembers ihcatchAll =>
    rw [toList_renderAt_record hsome hnamed]
    exact List.cons_ne_nil _ _
  | @union members htwo hmembers hflat ih =>
    rw [toList_renderAt_union]
    exact intercalate_ne_nil (List.cons_ne_nil _ _) (by rwa [List.length_map])
  | @intersection members htwo hmembers hflat ih =>
    rw [toList_renderAt_intersection]
    exact intercalate_ne_nil (List.cons_ne_nil _ _) (by rwa [List.length_map])

/-! ## 3. Marks outside of brackets -/

/-- Texts with a mark between them have it outside of brackets. -/
theorem cut_intercalate {mark : Char} (hblank : mark ≠ ' ')
    {texts : List (List Char)} (htwo : 2 ≤ texts.length) (h : ∀ xs ∈ texts, Nested [mark] xs) :
    Cut mark (List.intercalate [' ', mark, ' '] texts) := by
  match texts, htwo with
  | x :: y :: rest, _ =>
    refine ⟨x ++ [' '], ' ' :: List.intercalate [' ', mark, ' '] (y :: rest), ?_, ?_⟩
    · rw [List.intercalate_cons_cons]
      simp
    · exact (h x List.mem_cons_self).append (.char rfl (by simpa using hblank.symm) .nil)

/-- No member of a union has a bar outside of brackets. -/
theorem nested_members {members : List TypeExpr} (hmembers : ∀ m ∈ members, Printed m)
    (hflat : ∀ ms, union ms ∉ members) :
    ∀ xs ∈ members.map fun m => (renderAt level m).toList, Nested ['|'] xs := by
  rw [List.forall_mem_map]
  refine fun m hm => (hmembers m hm).nested.mono fun c hc => ?_
  rw [List.mem_singleton.mp hc]
  refine Form.mem_absent_of_ne fun hform => ?_
  obtain ⟨ms, rfl⟩ := form_eq_union.mp hform
  exact hflat ms hm

/-- No member of an intersection has an ampersand outside of brackets. -/
theorem nested_constituents {members : List TypeExpr} (hmembers : ∀ m ∈ members, Printed m)
    (hflat : ∀ ms, intersection ms ∉ members) :
    ∀ xs ∈ members.map (constituentText level), Nested ['&'] xs := by
  rw [List.forall_mem_map]
  refine fun m hm => nested_constituentText
    (hmembers m hm).nested.unmarked fun hunion => ?_
  have habsent : m.form.absent = ['&', '|', ',', ';', ':'] := by
    refine Form.absent_of_ne (fun hform => ?_) fun hform => ?_
    · obtain ⟨ms, rfl⟩ := form_eq_union.mp hform
      exact hunion ms rfl
    · obtain ⟨ms, rfl⟩ := form_eq_intersection.mp hform
      exact hflat ms hm
  exact (habsent ▸ (hmembers m hm).nested).mono (by simp)

theorem Printed.cut_union {members : List TypeExpr} (h : Printed (.union members)) :
    Cut '|' (renderAt level (.union members)).toList := by
  cases h with
  | titled h => cases h
  | union htwo hmembers hflat =>
    rw [toList_renderAt_union]
    exact cut_intercalate (by decide) (by rwa [List.length_map]) (nested_members hmembers hflat)

theorem Printed.cut_intersection {members : List TypeExpr} (h : Printed (.intersection members)) :
    Cut '&' (renderAt level (.intersection members)).toList := by
  cases h with
  | titled h => cases h
  | intersection htwo hmembers hflat =>
    rw [toList_renderAt_intersection]
    exact cut_intercalate (by decide) (by rwa [List.length_map])
      (nested_constituents hmembers hflat)

/-! ## 4. The kind of an expression -/

/-- Only a list that cannot be changed has the mark of one in front. -/
theorem Printed.not_prefix {e : TypeExpr} (h : Printed e) (hloose : e.form.loose = Bool.false) :
    ∀ {rest : List Char}, (∀ c ∈ rest.head?, c = '[') →
      ¬ "readonly ".toList <+: (renderAt level e).toList ++ rest := by
  induction h with
  | titled h =>
    intro rest hrest
    rw [h.toList_renderAt]
    exact h.not_prefix hrest
  | string value =>
    intro rest _
    obtain ⟨cs, hcs⟩ := Text.exists_quote_eq value
    rw [renderAt_string, hcs]
    exact not_prefix_of_firstForm (List.cons_ne_nil _ _) fun h => by cases h
  | number value =>
    intro rest _
    refine not_prefix_of_firstForm (Printed.number value).text_ne_nil ?_
    rw [renderAt_number, firstForm_number]
    decide
  | @list element bounds readonly helement hbounds ih =>
    intro rest hrest
    rw [renderAt.eq_def]
    simp only [toList_renderList hbounds]
    cases readonly with
    | true => cases hloose
    | false =>
      have hmark : readonlyText Bool.false = [] := rfl
      rw [hmark, List.nil_append]
      cases bounds with
      | exact | atLeast => exact not_prefix_of_firstForm (List.cons_ne_nil _ _) fun h => by cases h
      | unbounded =>
        rw [listText, arrayText]
        split
        · rintro ⟨ys, heq⟩
          cases heq
        · rename_i hparens
          rw [List.append_assoc]
          rw [needsParens_eq_loose, Bool.not_eq_true] at hparens
          refine ih hparens fun c hc => ?_
          cases hc
          rfl
  | record hsome hnamed =>
    intro rest _
    rw [toList_renderAt_record hsome hnamed]
    exact not_prefix_of_firstForm (List.cons_ne_nil _ _) fun h => by cases h
  | union => cases hloose
  | intersection => cases hloose

/-- A list ends with a bracket. -/
theorem exists_listText_eq (element : List Char) (parens : Bool) (bounds : ListBounds) :
    ∃ ys, listText element parens bounds = ys ++ [']'] := by
  cases bounds with
  | unbounded => exact ⟨(if parens then '(' :: (element ++ [')']) else element) ++ ['['],
      by simp [listText, arrayText]⟩
  | exact | atLeast => exact ⟨_, (List.cons_append ..).symm⟩

/-- What stands in parentheses is a union or an intersection. -/
theorem Printed.ne_concat_paren {e : TypeExpr} (h : Printed e) (hunion : e.form ≠ .union)
    (hinter : e.form ≠ .intersection) (xs : List Char) :
    (renderAt level e).toList ≠ xs ++ [')'] := by
  have hconcat : ∀ {ys : List Char} {a : Char}, a ≠ ')' → ys ++ [a] ≠ xs ++ [')'] := concat_ne
  cases h with
  | @titled _ word keys h =>
    rw [h.toList_renderAt, nameText]
    rcases List.eq_nil_or_concat keys with rfl | ⟨keys, key, rfl⟩
    · rw [List.flatMap_nil, List.append_nil]
      intro heq
      have hmem : ')' ∈ word.toList := heq ▸ List.mem_append_right _ (List.mem_singleton_self _)
      exact h.notMem (by simp) hmem
    · rw [List.concat_eq_append, List.flatMap_append, List.flatMap_singleton, ← List.append_assoc,
        ← List.cons_append, ← List.append_assoc]
      exact hconcat (by decide)
  | string value =>
    obtain ⟨cs, hcs⟩ := Text.exists_quote_eq value
    rw [renderAt_string, hcs, ← List.cons_append]
    exact hconcat (by decide)
  | number value =>
    rw [renderAt_number]
    intro heq
    have hmem : ')' ∈ value.written.toList :=
      heq ▸ List.mem_append_right _ (List.mem_singleton_self _)
    rcases isNumberChar_of_mem hmem with h | h
    · cases h
    · exact absurd h (by decide)
  | @list element bounds readonly helement hbounds =>
    rw [renderAt.eq_def]
    simp only [toList_renderList hbounds]
    obtain ⟨ys, hys⟩ := exists_listText_eq (renderAt level element).toList
      (needsParens element) bounds
    rw [hys, ← List.append_assoc]
    exact hconcat (by decide)
  | record hsome hnamed =>
    rw [toList_renderAt_record hsome hnamed, ← List.cons_append, ← List.cons_append]
    exact hconcat (by decide)
  | union => exact absurd rfl hunion
  | intersection => exact absurd rfl hinter

/-- Empty brackets or else the first character show what an expression is that is not loose. -/
theorem Printed.firstForm {e : TypeExpr} (h : Printed e) (hloose : e.form.loose = Bool.false) :
    (e.form = .array ∧ ['[', ']'] <:+ (renderAt level e).toList) ∨
      (¬ ['[', ']'] <:+ (renderAt level e).toList ∧
        TypeExpr.firstForm (renderAt level e).toList = e.form) := by
  cases h with
  | titled h =>
    rw [h.toList_renderAt, h.form_eq]
    exact .inr ⟨h.not_suffix, h.firstForm⟩
  | string value =>
    obtain ⟨cs, hcs⟩ := Text.exists_quote_eq value
    rw [renderAt_string, hcs, ← List.cons_append]
    exact .inr ⟨not_suffix_of_concat (by decide), rfl⟩
  | number value =>
    rw [renderAt_number]
    refine .inr ⟨fun hsuffix => ?_, firstForm_number value⟩
    rcases isNumberChar_of_mem (hsuffix.mem (a := ']') (by simp)) with h | h
    · cases h
    · exact absurd h (by decide)
  | @list element bounds readonly helement hbounds =>
    rw [renderAt.eq_def]
    simp only [toList_renderList hbounds]
    cases readonly with
    | true => cases hloose
    | false =>
      have hmark : readonlyText Bool.false = [] := rfl
      rw [hmark, List.nil_append]
      have hitems : ∀ xs ∈ itemTexts (renderAt level element).toList (needsParens element) bounds,
          Nested [] xs := nested_itemTexts List.not_mem_nil helement.nested.unmarked
      cases bounds with
      | unbounded => exact .inl ⟨rfl, _, rfl⟩
      | exact | atLeast =>
        exact .inr ⟨not_suffix_tupleText hitems
          ⟨_, itemTexts_ne_nil hbounds (by simp), helement.text_ne_nil⟩, rfl⟩
  | @record r hsome hnamed hmembers hcatchAll hclosed =>
    rw [toList_renderAt_record hsome hnamed, ← List.cons_append, ← List.cons_append]
    refine .inr ⟨not_suffix_of_concat (by decide), ?_⟩
    rw [form, hsome]
    rfl
  | union => cases hloose
  | intersection => cases hloose

/-- **The text of an expression shows its kind.** -/
theorem Printed.formOf_text {e : TypeExpr} (h : Printed e) :
    formOf (renderAt level e).toList = e.form := by
  -- The marks that bind least are looked for first; each step leaves out one more kind.
  by_cases hunion : e.form = .union
  · obtain ⟨ms, rfl⟩ := form_eq_union.mp hunion
    rw [formOf, if_pos h.cut_union, hunion]
  have hbar : ¬ Cut '|' (renderAt level e).toList := not_cut rfl <|
    h.nested.mono fun c hc => List.mem_singleton.mp hc ▸ Form.mem_absent_of_ne hunion
  rw [formOf, if_neg hbar]
  by_cases hinter : e.form = .intersection
  · obtain ⟨ms, rfl⟩ := form_eq_intersection.mp hinter
    rw [if_pos h.cut_intersection, hinter]
  have hampersand : ¬ Cut '&' (renderAt level e).toList := not_cut rfl <|
    h.nested.mono fun c hc => by
      rw [Form.absent_of_ne hunion hinter, List.mem_singleton.mp hc]
      exact List.mem_cons_self
  rw [if_neg hampersand]
  by_cases hmarked : e.form = .marked
  · obtain ⟨element, bounds, rfl⟩ := form_eq_marked hmarked
    rw [hmarked, if_pos]
    cases h with
    | titled h => cases h
    | list _ hbounds =>
      rw [renderAt.eq_def]
      simp only [toList_renderList hbounds]
      exact List.prefix_append _ _
  have hloose : e.form.loose = Bool.false := by
    cases hform : e.form <;> first | rfl | contradiction
  have hprefix : ¬ "readonly ".toList <+: (renderAt level e).toList ++ [] :=
    h.not_prefix hloose fun c hc => by cases hc
  rw [List.append_nil] at hprefix
  rw [if_neg hprefix]
  rcases @Printed.firstForm level e h hloose with ⟨harray, hsuffix⟩ | ⟨hsuffix, hfirst⟩
  · rw [if_pos hsuffix, harray]
  · rw [if_neg hsuffix, hfirst]

/-- **Expressions that are written alike are of one kind.** -/
theorem Printed.form_eq {e e' : TypeExpr} (h : Printed e) (h' : Printed e')
    (heq : renderAt level e = renderAt level e') : e.form = e'.form := by
  rw [← @Printed.formOf_text level e h, heq, h'.formOf_text]

end ApiTypes.TypeExpr
