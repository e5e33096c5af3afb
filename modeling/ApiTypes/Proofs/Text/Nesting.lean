/-
# Well nested texts

Brackets stand in pairs, and what stands between quotation marks does not count.  So a mark that
stands outside all brackets and quoted texts cuts a text in one way only, and a text that is put
together with such marks is taken apart again.

* `Text.Nested marks cs`: brackets and quoted texts are closed, and none of the marks stands outside
  them.
* `Text.Nested.cut`: where a well nested text ends.
* `Text.intercalate_inj` and `Text.lines_inj`: texts with marks between them and lines that end
  with a mark are told apart.
-/
import ApiTypes.Proofs.TypeExpr.Tokens
import Mathlib

namespace ApiTypes.Text

/-! ## 1. Quoted texts -/

/-- **A quoted text ends by itself.** -/
theorem quote_append_inj {s t : String} {r r' : List Char}
    (h : (quote s).toList ++ r = (quote t).toList ++ r') : s = t ∧ r = r' := by
  have hread : ∀ (u : String) (r : List Char), Json.stringBody []
      (u.toList.flatMap escape ++ '"' :: r) = some (u, r) := fun u r => by
    rw [Token.stringBody_quoted, List.reverse_nil, List.nil_append, String.ofList_toList]
  simp only [quote, String.toList_ofList, quoteChars, List.cons_append, List.append_assoc,
    List.cons.injEq, true_and, List.nil_append] at h
  have hboth := hread s r
  rw [h, hread t r', Option.some.injEq, Prod.mk.injEq] at hboth
  exact ⟨hboth.1.symm, hboth.2.symm⟩

theorem quote_injective : Function.Injective quote := fun s t h =>
  (@quote_append_inj s t [] [] (by rw [h])).1

/-- A quoted text ends with a quotation mark. -/
theorem exists_quote_eq (s : String) : ∃ cs, (quote s).toList = '"' :: (cs ++ ['"']) :=
  ⟨_, by rw [quote, String.toList_ofList, quoteChars]⟩

/-! ## 2. Nesting -/

/-- The brackets that open. -/
def isOpening (c : Char) : Bool := c = '(' || c = '[' || c = '\x7b' || c = '<'

/-- The brackets that close. -/
def isClosing (c : Char) : Bool := c = ')' || c = ']' || c = '\x7d' || c = '>'

/-- Neither a bracket nor a quotation mark. -/
def isPlain (c : Char) : Bool := !isOpening c && !isClosing c && c ≠ '"'

/-- **Brackets and quoted texts are closed, and no mark stands outside them.**  Which bracket closes
one is left open. -/
inductive Nested : List Char → List Char → Prop
  | nil {marks : List Char} : Nested marks []
  | char {marks cs : List Char} {c : Char} (plain : isPlain c = true) (unmarked : c ∉ marks)
      (rest : Nested marks cs) : Nested marks (c :: cs)
  | quoted {marks cs : List Char} (s : String) (rest : Nested marks cs) :
      Nested marks ((quote s).toList ++ cs)
  | group {marks inner cs : List Char} {left right : Char} (opens : isOpening left = true)
      (closes : isClosing right = true) (inside : Nested [] inner) (rest : Nested marks cs) :
      Nested marks (left :: (inner ++ right :: cs))

/-- A well nested text ends here: a mark follows, or a bracket that closes. -/
def Stops (marks rest : List Char) : Prop :=
  ∀ c ∈ rest.head?, (isPlain c = true ∧ c ∈ marks) ∨ isClosing c = true

variable {marks marks' xs ys r r' : List Char}

theorem stops_nil : Stops marks [] := fun _ h => by cases h

theorem stops_mark {c : Char} (hplain : isPlain c = true) (hmem : c ∈ marks) :
    Stops marks (c :: r) := by
  intro a ha
  cases ha
  exact .inl ⟨hplain, hmem⟩

theorem stops_closing {c : Char} (h : isClosing c = true) : Stops marks (c :: r) := by
  intro a ha
  cases ha
  exact .inr h

/-- Where a well nested text ends no other one begins. -/
theorem Stops.eq_nil (h : Stops marks r) (hr : r = ys ++ r') (hys : Nested marks ys) :
    ys = [] := by
  have hhead : ∀ c cs, r = c :: cs → isOpening c = false ∧ c ≠ '"' ∧
      (isPlain c = true → c ∈ marks) := by
    intro c cs heq
    rcases h c (by rw [heq]; rfl) with ⟨hplain, hmem⟩ | hclosing
    · simp only [isPlain, Bool.and_eq_true, Bool.not_eq_true', decide_eq_true_eq] at hplain
      exact ⟨hplain.1.1, hplain.2, fun _ => hmem⟩
    · refine ⟨?_, ?_, fun hplain => ?_⟩
      · simp only [isClosing, Bool.or_eq_true, decide_eq_true_eq] at hclosing
        rcases hclosing with ((rfl | rfl) | rfl) | rfl <;> rfl
      · rintro rfl
        cases hclosing
      · simp [isPlain, hclosing] at hplain
  cases hys with
  | nil => rfl
  | char plain unmarked rest => exact absurd ((hhead _ _ hr).2.2 plain) unmarked
  | quoted s rest =>
    obtain ⟨cs, hcs⟩ := exists_quote_eq s
    rw [hcs] at hr
    exact absurd rfl (hhead _ _ hr).2.1
  | group opens closes inside rest =>
    have hopening := (hhead _ _ hr).1
    rw [opens] at hopening
    cases hopening

/-- What a quotation mark and a bracket that opens are not. -/
theorem ne_of_isPlain {c d : Char} (hc : isPlain c = true) (hd : isPlain d = false) : c ≠ d := by
  rintro rfl
  rw [hc] at hd
  cases hd

theorem isPlain_of_isOpening {c : Char} (h : isOpening c = true) : isPlain c = false := by
  rw [isPlain, h]
  rfl

/-- **A well nested text ends in one place.** -/
theorem Nested.cut (hx : Nested marks xs) : ∀ {ys r r' : List Char}, Nested marks ys →
    Stops marks r → Stops marks r' → xs ++ r = ys ++ r' → xs = ys ∧ r = r' := by
  -- On the first text; the first character of the rest tells how the second one goes on.
  induction hx with
  | nil =>
    intro ys r r' hy hr hr' h
    obtain rfl := hr.eq_nil h hy
    exact ⟨rfl, h⟩
  | @char marks cs c plain unmarked rest ih =>
    intro ys r r' hy hr hr' h
    cases hy with
    | nil => cases hr'.eq_nil h.symm (.char plain unmarked rest)
    | char plain' unmarked' rest' =>
      obtain ⟨rfl, hrest⟩ := List.cons.inj h
      obtain ⟨rfl, rfl⟩ := ih rest' hr hr' hrest
      exact ⟨rfl, rfl⟩
    | quoted s rest' =>
      obtain ⟨ds, hds⟩ := exists_quote_eq s
      rw [hds] at h
      exact absurd (List.cons.inj h).1 (ne_of_isPlain plain rfl)
    | group opens closes inside rest' =>
      exact absurd (List.cons.inj h).1 (ne_of_isPlain plain (isPlain_of_isOpening opens))
  | @quoted marks cs s rest ih =>
    intro ys r r' hy hr hr' h
    obtain ⟨ds, hds⟩ := exists_quote_eq s
    cases hy with
    | nil =>
      have hnil := hr'.eq_nil h.symm (.quoted s rest)
      rw [hds] at hnil
      cases hnil
    | char plain' unmarked' rest' =>
      rw [hds] at h
      exact absurd (List.cons.inj h).1.symm (ne_of_isPlain plain' rfl)
    | quoted t rest' =>
      rw [List.append_assoc, List.append_assoc] at h
      obtain ⟨rfl, hrest⟩ := quote_append_inj h
      obtain ⟨rfl, rfl⟩ := ih rest' hr hr' hrest
      exact ⟨rfl, rfl⟩
    | group opens closes inside rest' =>
      rw [hds] at h
      rw [← (List.cons.inj h).1] at opens
      cases opens
  | @group marks inner cs left right opens closes inside rest ihinside ih =>
    intro ys r r' hy hr hr' h
    cases hy with
    | nil => cases hr'.eq_nil h.symm (.group opens closes inside rest)
    | char plain' unmarked' rest' =>
      exact absurd (List.cons.inj h).1.symm
        (ne_of_isPlain plain' (isPlain_of_isOpening opens))
    | quoted t rest' =>
      obtain ⟨ds, hds⟩ := exists_quote_eq t
      rw [hds] at h
      rw [(List.cons.inj h).1] at opens
      cases opens
    | group opens' closes' inside' rest' =>
      rw [List.cons_append, List.cons_append, List.append_assoc, List.append_assoc,
        List.cons_append, List.cons_append] at h
      obtain ⟨rfl, hinside⟩ := List.cons.inj h
      -- Inside of the brackets a closing one ends both texts.
      obtain ⟨rfl, hclose⟩ :=
        ihinside inside' (stops_closing closes) (stops_closing closes') hinside
      obtain ⟨rfl, hrest⟩ := List.cons.inj hclose
      obtain ⟨rfl, rfl⟩ := ih rest' hr hr' hrest
      exact ⟨rfl, rfl⟩

/-! ## 3. Texts that are put together -/

theorem Nested.append (hx : Nested marks xs) (hy : Nested marks ys) : Nested marks (xs ++ ys) := by
  induction hx with
  | nil => exact hy
  | char plain unmarked _ ih => exact .char plain unmarked (ih hy)
  | quoted s _ ih =>
    rw [List.append_assoc]
    exact .quoted s (ih hy)
  | group opens closes inside _ _ ih =>
    rw [List.cons_append, List.append_assoc, List.cons_append]
    exact .group opens closes inside (ih hy)

theorem Nested.mono (h : Nested marks xs) (hsub : ∀ c ∈ marks', c ∈ marks) : Nested marks' xs := by
  induction h with
  | nil => exact .nil
  | char plain unmarked _ ih => exact .char plain (fun hmem => unmarked (hsub _ hmem)) (ih hsub)
  | quoted s _ ih => exact .quoted s (ih hsub)
  | group opens closes inside _ _ ih => exact .group opens closes inside (ih hsub)

/-- Nothing is said of marks. -/
theorem Nested.unmarked (h : Nested marks xs) : Nested [] xs :=
  h.mono fun _ hc => absurd hc List.not_mem_nil

/-- Characters outside of brackets. -/
theorem nested_chars : ∀ {cs : List Char}, (∀ c ∈ cs, isPlain c = true ∧ c ∉ marks) →
    Nested marks cs
  | [], _ => .nil
  | _ :: _, h =>
    have hfirst := h _ List.mem_cons_self
    .char hfirst.1 hfirst.2 (nested_chars fun c hc => h c (List.mem_cons_of_mem _ hc))

theorem nested_quote (s : String) : Nested marks (quote s).toList := by
  have h : Nested marks ((quote s).toList ++ []) := .quoted s .nil
  rwa [List.append_nil] at h

theorem nested_group (left right : Char) (opens : isOpening left = true)
    (closes : isClosing right = true) (h : Nested [] xs) :
    Nested marks (left :: (xs ++ [right])) :=
  .group opens closes h .nil

theorem nested_flatMap {α : Type} {f : α → List Char} : ∀ {as : List α},
    (∀ a ∈ as, Nested marks (f a)) → Nested marks (as.flatMap f)
  | [], _ => .nil
  | _ :: _, h => (h _ List.mem_cons_self).append
      (nested_flatMap fun a ha => h a (List.mem_cons_of_mem _ ha))

/-- No well nested text ends with a bracket that opens. -/
theorem Nested.getLast? (h : Nested marks xs) : ∀ c ∈ xs.getLast?, isOpening c = false := by
  have hrest : ∀ (cs : List Char) {ds : List Char}, (∀ c ∈ ds.getLast?, isOpening c = false) →
      (ds = [] → ∀ c ∈ cs.getLast?, isOpening c = false) →
      ∀ c ∈ (cs ++ ds).getLast?, isOpening c = false := by
    intro cs ds hds hcs c hc
    cases ds with
    | nil => exact hcs rfl c (by rwa [List.append_nil] at hc)
    | cons d ds =>
      rw [List.getLast?_append_of_ne_nil _ (List.cons_ne_nil _ _)] at hc
      exact hds c hc
  induction h with
  | nil => exact fun c hc => by cases hc
  | @char marks cs c plain _ _ ih =>
    refine hrest [c] ih fun _ d hd => ?_
    obtain rfl : c = d := by simpa using hd
    by_contra hopen
    exact ne_of_isPlain plain (isPlain_of_isOpening (Bool.eq_true_of_not_eq_false hopen)) rfl
  | quoted s _ ih =>
    refine hrest _ ih fun _ d hd => ?_
    obtain ⟨cs, hcs⟩ := exists_quote_eq s
    rw [hcs, ← List.cons_append, List.getLast?_concat] at hd
    cases hd
    rfl
  | @group marks inner cs left right _ closes _ _ _ ih =>
    have hassoc : left :: (inner ++ right :: cs) = (left :: (inner ++ [right])) ++ cs := by simp
    rw [hassoc]
    refine hrest _ ih fun _ d hd => ?_
    rw [← List.cons_append, List.getLast?_concat] at hd
    cases hd
    simp only [isClosing, Bool.or_eq_true, decide_eq_true_eq] at closes
    rcases closes with ((rfl | rfl) | rfl) | rfl <;> rfl

/-! ## 4. Texts that are taken apart -/

section Pieces

variable {mark : Char} {before after : List Char} {texts texts' : List (List Char)}

/-- A well nested text is told from one that has a mark in it. -/
theorem Nested.ne_append_mark (h : Nested [mark] xs) (hys : Nested [mark] ys)
    (hmark : isPlain mark = true) : xs ≠ ys ++ mark :: r := by
  intro heq
  rw [← List.append_nil xs] at heq
  cases (h.cut hys stops_nil (stops_mark hmark List.mem_cons_self) heq).2

/-- **Texts with marks between them are told apart.** -/
theorem intercalate_inj (hmark : isPlain mark = true) (hbefore : Nested [mark] before) :
    ∀ {texts texts' : List (List Char)}, (∀ xs ∈ texts, Nested [mark] xs) →
      (∀ xs ∈ texts', Nested [mark] xs) → texts ≠ [] → texts' ≠ [] →
      List.intercalate (before ++ mark :: after) texts
        = List.intercalate (before ++ mark :: after) texts' → texts = texts'
  | [], _, _, _, hsome, _, _ => absurd rfl hsome
  | _ :: _, [], _, _, _, hsome, _ => absurd rfl hsome
  | [x], [y], _, _, _, _, h => by
    rw [List.intercalate_singleton, List.intercalate_singleton] at h
    rw [h]
  | [x], y :: y' :: ys, hx, hy, _, _, h => by
    rw [List.intercalate_singleton, List.intercalate_cons_cons, ← List.append_assoc,
      List.append_assoc _ (mark :: after), List.cons_append] at h
    exact absurd h ((hx x List.mem_cons_self).ne_append_mark
      ((hy y List.mem_cons_self).append hbefore) hmark)
  | x :: x' :: xs, [y], hx, hy, _, _, h => by
    rw [List.intercalate_singleton, List.intercalate_cons_cons, ← List.append_assoc,
      List.append_assoc _ (mark :: after), List.cons_append] at h
    exact absurd h.symm ((hy y List.mem_cons_self).ne_append_mark
      ((hx x List.mem_cons_self).append hbefore) hmark)
  | x :: x' :: xs, y :: y' :: ys, hx, hy, _, _, h => by
    rw [List.intercalate_cons_cons, List.intercalate_cons_cons] at h
    simp only [List.append_assoc, List.cons_append] at h
    rw [← List.append_assoc, ← List.append_assoc] at h
    obtain ⟨hfirst, hrest⟩ := ((hx x List.mem_cons_self).append hbefore).cut
      ((hy y List.mem_cons_self).append hbefore) (stops_mark hmark List.mem_cons_self)
      (stops_mark hmark List.mem_cons_self) h
    rw [List.append_cancel_right hfirst, intercalate_inj hmark hbefore
      (fun z hz => hx z (List.mem_cons_of_mem _ hz)) (fun z hz => hy z (List.mem_cons_of_mem _ hz))
      (List.cons_ne_nil _ _) (List.cons_ne_nil _ _)
      (List.append_cancel_left (List.cons.inj hrest).2)]

/-- **Lines that end with a mark are told apart**, from what follows them as well. -/
theorem lines_inj (hmark : isPlain mark = true) (hlast : Nested [mark] before) :
    ∀ {texts texts' : List (List Char)}, (∀ xs ∈ texts, Nested [mark] xs) →
      (∀ xs ∈ texts', Nested [mark] xs) →
      texts.flatMap (· ++ mark :: after) ++ before = texts'.flatMap (· ++ mark :: after) ++ before →
      texts = texts'
  | [], [], _, _, _ => rfl
  | [], y :: ys, _, hy, h => by
    rw [List.flatMap_nil, List.nil_append, List.flatMap_cons, List.append_assoc, List.append_assoc,
      List.cons_append] at h
    exact absurd h (hlast.ne_append_mark (hy y List.mem_cons_self) hmark)
  | x :: xs, [], hx, _, h => by
    rw [List.flatMap_nil, List.nil_append, List.flatMap_cons, List.append_assoc, List.append_assoc,
      List.cons_append] at h
    exact absurd h.symm (hlast.ne_append_mark (hx x List.mem_cons_self) hmark)
  | x :: xs, y :: ys, hx, hy, h => by
    simp only [List.flatMap_cons, List.append_assoc, List.cons_append] at h
    obtain ⟨hfirst, hrest⟩ := (hx x List.mem_cons_self).cut (hy y List.mem_cons_self)
      (stops_mark hmark List.mem_cons_self) (stops_mark hmark List.mem_cons_self) h
    rw [hfirst, lines_inj hmark hlast (fun z hz => hx z (List.mem_cons_of_mem _ hz))
      (fun z hz => hy z (List.mem_cons_of_mem _ hz))
      (List.append_cancel_left (List.cons.inj hrest).2)]

theorem nested_intercalate {sep : List Char} (hsep : Nested marks sep) :
    ∀ {texts : List (List Char)}, (∀ xs ∈ texts, Nested marks xs) →
      Nested marks (List.intercalate sep texts)
  | [], _ => .nil
  | [x], h => by
    rw [List.intercalate_singleton]
    exact h x List.mem_cons_self
  | x :: y :: xs, h => by
    rw [List.intercalate_cons_cons]
    exact ((h x List.mem_cons_self).append hsep).append
      (nested_intercalate hsep fun z hz => h z (List.mem_cons_of_mem _ hz))

end Pieces

end ApiTypes.Text
