/-
# The texts of keys

The keys of a mapping are values of any kind, and those of an object are texts.  A key gives up its
tags and its kind: a number has the same text as the string that spells it.  Within a kind it is
different, as no two numbers and no two words have one text, and a collection is never written like
one of them.

* `Number.written_injective`: the text of a number is its own.
* `Value.Clash` lists the ways in which two keys can have one text.
* `Value.keyText_eq_iff`: there are no others.
-/
import ApiTypes.Proofs.Decimal.Written
import ApiTypes.Yaml.Printer

namespace ApiTypes

open Token (IsSigned isSigned_toString isSigned_written)

/-! ## 1. White space at the end -/

/-- White space is cut off, and nothing else. -/
theorem Text.exists_append_trimEnd (s : String) :
    ∃ blanks, s.toList = (Text.trimEnd s).toList ++ blanks ∧
      ∀ c ∈ blanks, Text.isBlank c = true := by
  refine ⟨(s.toList.reverse.takeWhile Text.isBlank).reverse, ?_, fun c hc => ?_⟩
  · rw [Text.trimEnd, Text.dropEndWhile, String.toList_ofList, ← List.reverse_append,
      List.takeWhile_append_dropWhile, List.reverse_reverse]
  · exact List.mem_takeWhile_imp (List.mem_reverse.mp hc)

theorem Text.mem_trimEnd {s : String} {c : Char} (hc : c ∈ s.toList)
    (hblank : Text.isBlank c = false) : c ∈ (Text.trimEnd s).toList := by
  obtain ⟨blanks, heq, hblanks⟩ := Text.exists_append_trimEnd s
  rw [heq, List.mem_append] at hc
  refine hc.resolve_right fun hmem => ?_
  rw [hblanks c hmem] at hblank
  cases hblank

/-- The first line stands at the front. -/
theorem Text.exists_join_lines (line : List Char) (lines : List (List Char)) :
    ∃ rest, (Text.join "\n" ((line :: lines).map String.ofList)).toList = line ++ rest := by
  cases lines with
  | nil => exact ⟨[], by simp [Text.join]⟩
  | cons line' lines =>
    refine ⟨'\n' :: (Text.join "\n" ((line' :: lines).map String.ofList)).toList, ?_⟩
    rw [Text.join, List.map_cons, String.intercalate_cons_of_ne_nil (by simp)]
    simp [Text.join]

namespace Yaml

/-! ## 2. Numbers -/

/-- The words among the numbers. -/
def Number.words : List String := [".inf", "-.inf", ".nan"]

theorem Number.isSigned_or_word (n : Number) :
    IsSigned n.written.toList ∨ n.written ∈ Number.words := by
  cases n with
  | int value => exact .inl (isSigned_toString value)
  | float value => exact .inl (isSigned_written Number.form value)
  | infinite negative => cases negative <;> exact .inr (by decide)
  | nan => exact .inr (by decide)

/-- A word shows no digit. -/
theorem ne_of_isSigned {text word : String} (h : IsSigned text.toList)
    (hword : word.toList.all (!·.isDigit) = true) : text ≠ word := by
  rintro rfl
  obtain ⟨c, hc, hdigit⟩ := h.exists_isDigit
  have hnone := List.all_eq_true.mp hword c hc
  rw [hdigit] at hnone
  cases hnone

/-- **No two numbers have one text.** -/
theorem Number.written_injective : Function.Injective Number.written := by
  have hint : ∀ (value : ℤ) (word : String), word.toList.all (!·.isDigit) = true →
      (Number.int value).written ≠ word := fun value _ => ne_of_isSigned (isSigned_toString value)
  have hfloat : ∀ (value : Binary64) (word : String), word.toList.all (!·.isDigit) = true →
      (Number.float value).written ≠ word := fun value _ =>
    ne_of_isSigned (isSigned_written Number.form value)
  have hinfinite : ∀ negative,
      (Number.infinite negative).written.toList.all (!·.isDigit) = true := by decide
  intro a b h
  cases a with
  | int m =>
    cases b with
    | int n => exact congrArg int (Int.repr_injective h)
    | float y => exact absurd h (toString_ne_written m y form)
    | infinite negative => exact absurd h (hint m _ (hinfinite negative))
    | nan => exact absurd h (hint m _ (by decide))
  | float x =>
    cases b with
    | int n => exact absurd h.symm (toString_ne_written n x form)
    | float y => exact congrArg float (Binary64.written_injective form h)
    | infinite negative => exact absurd h (hfloat x _ (hinfinite negative))
    | nan => exact absurd h (hfloat x _ (by decide))
  | infinite negative =>
    cases b with
    | int n => exact absurd h.symm (hint n _ (hinfinite negative))
    | float y => exact absurd h.symm (hfloat y _ (hinfinite negative))
    | infinite negative' => revert h; cases negative <;> cases negative' <;> decide
    | nan => revert h; cases negative <;> decide
  | nan =>
    cases b with
    | int n => exact absurd h.symm (hint n _ (by decide))
    | float y => exact absurd h.symm (hfloat y _ (by decide))
    | infinite negative => revert h; cases negative <;> decide
    | nan => rfl

namespace Value

/-! ## 3. Words and numbers -/

/-- A value that is neither a text nor a collection. -/
def IsAtom : Value → Prop
  | .null | .bool _ | .number _ => True
  | _ => False

/-- A sequence or a mapping. -/
def IsCollection : Value → Prop
  | .sequence _ | .mapping _ => True
  | _ => False

/-- The atoms that are no numbers: a truth value, or none. -/
def ofWord : Option Bool → Value
  | none => .null
  | some b => .bool b

theorem atom_cases {v : Value} (h : v.IsAtom) : (∃ n, v = .number n) ∨ ∃ w, v = ofWord w := by
  cases v with
  | null => exact .inr ⟨none, rfl⟩
  | bool b => exact .inr ⟨some b, rfl⟩
  | number n => exact .inl ⟨n, rfl⟩
  | string _ | sequence _ | mapping _ | tagged _ _ => exact h.elim

theorem keyText_ofWord_injective : ∀ w w', (ofWord w).keyText = (ofWord w').keyText → w = w' := by
  decide

theorem keyText_ofWord_ne : ∀ (w : Option Bool) (n : Number), (ofWord w).keyText ≠ n.written := by
  intro w n heq
  rcases n.isSigned_or_word with hsigned | hword
  · exact ne_of_isSigned hsigned
      ((by decide : ∀ w, (ofWord w).keyText.toList.all (!·.isDigit) = true) w) heq.symm
  · rw [← heq] at hword
    exact (by decide : ∀ w, (ofWord w).keyText ∉ Number.words) w hword

/-- **No two atoms have one text.** -/
theorem eq_of_atoms {v w : Value} (hv : v.IsAtom) (hw : w.IsAtom) (h : v.keyText = w.keyText) :
    v = w := by
  rcases atom_cases hv with ⟨n, rfl⟩ | ⟨a, rfl⟩
  · rcases atom_cases hw with ⟨m, rfl⟩ | ⟨b, rfl⟩
    · exact congrArg number (Number.written_injective h)
    · exact absurd h.symm (keyText_ofWord_ne b n)
  · rcases atom_cases hw with ⟨m, rfl⟩ | ⟨b, rfl⟩
    · exact absurd h (keyText_ofWord_ne a m)
    · exact congrArg ofWord (keyText_ofWord_injective a b h)

/-! ## 4. Collections -/

/-- The characters that show that a text is a collection, unless it is a hyphen. -/
def marks : List Char := [' ', ':', '?', '[', '\x7b']

/-- Whether a text cannot be that of an atom. -/
def isMarked (text : String) : Bool := text = "-" || text.toList.any (marks.contains ·)

theorem not_isMarked_of_atom {v : Value} (h : v.IsAtom) : isMarked v.keyText = false := by
  rcases atom_cases h with ⟨n, rfl⟩ | ⟨w, rfl⟩
  · rcases n.isSigned_or_word with hsigned | hword
    · have hhyphen : n.written ≠ "-" := ne_of_isSigned hsigned (by decide)
      have hmarks : ∀ c ∈ n.written.toList, c ∉ marks := by
        intro c hc hmark
        have hother : marks.all (fun c => !c.isDigit && c ∉ ['.', 'e', '+', '-']) = true := by
          decide
        have hneither := List.all_eq_true.mp hother c hmark
        rcases hsigned.isNumberChar hc with hdigit | hmem
        · simp [hdigit] at hneither
        · simp [hmem] at hneither
      show isMarked n.written = false
      simpa [isMarked, hhyphen] using hmarks
    · exact (by decide +kernel : ∀ w ∈ Number.words, isMarked w = false) _ hword
  · exact (by decide +kernel : ∀ w, isMarked (ofWord w).keyText = false) w

theorem exists_hang (mark : List Char) (lines : List (List Char)) :
    ∃ first rest, Printer.hang mark lines = (mark ++ first) :: rest := by
  cases lines with
  | nil => exact ⟨[], [], by simp [Printer.hang]⟩
  | cons line lines => exact ⟨line, _, rfl⟩

/-- The line of a key shows a colon. -/
theorem exists_valueLines (key : List Char) (v : Value) (lines : List (List Char)) :
    ∃ first rest, Printer.valueLines key v lines = first :: rest ∧ ':' ∈ first := by
  unfold Printer.valueLines
  dsimp only
  split
  · obtain ⟨first, rest, heq⟩ := exists_hang (key ++ [':'] ++ [' ']) lines
    exact ⟨_, rest, heq, by simp⟩
  · exact ⟨_, _, rfl, by simp⟩
  · exact ⟨_, _, rfl, by simp⟩
  · obtain ⟨first, rest, heq⟩ := exists_hang (key ++ [':'] ++ [' ']) lines
    exact ⟨_, rest, heq, by simp⟩
  · obtain ⟨first, rest, heq⟩ := exists_hang (key ++ [':']) ([] :: lines)
    exact ⟨_, rest, heq, by simp⟩

/-- The first line of a mapping shows a colon, or a question mark. -/
theorem exists_entryLines (indent : ℕ) (e : Value × Value) (es : List (Value × Value)) :
    ∃ first rest, Printer.entryLines indent (e :: es) = first :: rest ∧
      (':' ∈ first ∨ '?' ∈ first) := by
  obtain ⟨k, v⟩ := e
  rw [Printer.entryLines]
  split
  · obtain ⟨first, rest, heq, hmem⟩ := exists_valueLines
      ((Printer.lines indent true k).headD []) v
      (Printer.lines (if Printer.layout v = .sequence then indent else indent + 2) false v)
    exact ⟨first, rest ++ Printer.entryLines indent es, by simp only [heq, List.cons_append],
      .inl hmem⟩
  · obtain ⟨first, rest, heq⟩ := exists_hang ['?', ' '] (Printer.lines (indent + 2) false k)
    exact ⟨_, _, by simp only [heq, List.cons_append]; rfl, .inr (by simp)⟩

/-- Of a hyphen and a space, the space may be cut off. -/
theorem isMarked_of_hyphen {s : String} {cs : List Char} (h : s.toList = '-' :: ' ' :: cs) :
    isMarked (Text.trimEnd s) = true := by
  have hhyphen : '-' ∈ (Text.trimEnd s).toList := by
    refine Text.mem_trimEnd ?_ (by decide)
    rw [h]
    exact List.mem_cons_self
  obtain ⟨blanks, hblanks, -⟩ := Text.exists_append_trimEnd s
  rw [h] at hblanks
  rw [isMarked, Bool.or_eq_true, decide_eq_true_eq, List.any_eq_true]
  cases hshown : (Text.trimEnd s).toList with
  | nil =>
    rw [hshown] at hhyphen
    cases hhyphen
  | cons c rest =>
    rw [hshown] at hblanks
    cases rest with
    | nil =>
      cases hblanks
      exact .inl (String.toList_injective hshown)
    | cons d rest =>
      cases hblanks
      exact .inr ⟨' ', by simp, by decide⟩

/-- **A collection is not written like an atom**: a sequence starts with a hyphen and a space, an
entry of a mapping has a colon, and brackets stand for a collection without parts. -/
theorem isMarked_of_collection {v : Value} (h : v.IsCollection) : isMarked v.keyText = true := by
  cases v with
  | sequence items =>
    cases items with
    | nil => decide +kernel
    | cons item items =>
      obtain ⟨first, rest, hhang⟩ := exists_hang ['-', ' '] (Printer.lines 2 false item)
      have hlines : Printer.lines 0 false (.sequence (item :: items))
          = (['-', ' '] ++ first) :: (rest ++ Printer.itemLines 0 items) := by
        rw [Printer.lines, if_neg (by simp), Printer.itemLines, hhang, List.cons_append]
      obtain ⟨tail, hjoin⟩ := Text.exists_join_lines (['-', ' '] ++ first)
        (rest ++ Printer.itemLines 0 items)
      rw [← hlines] at hjoin
      exact isMarked_of_hyphen hjoin
  | mapping entries =>
    cases entries with
    | nil => decide +kernel
    | cons e es =>
      obtain ⟨first, rest, hentry, hmem⟩ := exists_entryLines 0 e es
      have hlines : Printer.lines 0 false (.mapping (e :: es)) = first :: rest := by
        rw [Printer.lines, if_neg (by simp), hentry]
      obtain ⟨tail, hjoin⟩ := Text.exists_join_lines first rest
      rw [← hlines] at hjoin
      have hmarked : ∀ c ∈ first, Text.isBlank c = false → marks.contains c = true →
          isMarked (keyText (.mapping (e :: es))) = true := by
        intro c hc hblank hmark
        have hshown := Text.mem_trimEnd (hjoin ▸ List.mem_append_left _ hc) hblank
        rw [isMarked, Bool.or_eq_true, List.any_eq_true]
        exact .inr ⟨c, hshown, hmark⟩
      rcases hmem with hcolon | hquestion
      · exact hmarked ':' hcolon (by decide) (by decide)
      · exact hmarked '?' hquestion (by decide) (by decide)
  | null | bool _ | number _ | string _ | tagged _ _ => exact h.elim

/-! ## 5. Keys with one text -/

/-- The value without its tags. -/
def bare : Value → Value
  | .tagged _ v => bare v
  | v => v

theorem keyText_bare : ∀ v : Value, v.bare.keyText = v.keyText
  | .tagged _ v => keyText_bare v
  | .null | .bool _ | .number _ | .string _ | .sequence _ | .mapping _ => rfl

theorem bare_cases : ∀ v : Value,
    (∃ s, v.bare = .string s) ∨ v.bare.IsAtom ∨ v.bare.IsCollection
  | .tagged _ v => bare_cases v
  | .string s => .inl ⟨s, rfl⟩
  | .null | .bool _ | .number _ => .inr (.inl trivial)
  | .sequence _ | .mapping _ => .inr (.inr trivial)

theorem bare_eq_string {k l : Value} {s : String} (hs : k.bare = .string s)
    (h : k.keyText = l.keyText) : k.bare = .string l.keyText := by
  rw [hs, ← h, ← keyText_bare k, hs]
  rfl

/-- **Two keys have one text**: they differ in their tags only, or one of them is a string that
spells the other, or both are collections that are written alike. -/
inductive Clash (k l : Value) : Prop
  | tags (h : k.bare = l.bare)
  | spells (h : k.bare = .string l.keyText)
  | spelled (h : l.bare = .string k.keyText)
  | written (hk : k.bare.IsCollection) (hl : l.bare.IsCollection) (h : k.keyText = l.keyText)

/-- **There is no other way in which keys become one.** -/
theorem keyText_eq_iff {k l : Value} : k.keyText = l.keyText ↔ Clash k l := by
  constructor
  · intro h
    have hbare : k.bare.keyText = l.bare.keyText := by rwa [keyText_bare, keyText_bare]
    rcases bare_cases k with ⟨s, hs⟩ | hk | hk
    · exact .spells (bare_eq_string hs h)
    · rcases bare_cases l with ⟨s, hs⟩ | hl | hl
      · exact .spelled (bare_eq_string hs h.symm)
      · exact .tags (eq_of_atoms hk hl hbare)
      · cases (not_isMarked_of_atom hk).symm.trans (hbare ▸ isMarked_of_collection hl)
    · rcases bare_cases l with ⟨s, hs⟩ | hl | hl
      · exact .spelled (bare_eq_string hs h.symm)
      · cases (not_isMarked_of_atom hl).symm.trans (hbare ▸ isMarked_of_collection hk)
      · exact .written hk hl h
  · rintro (h | h | h | ⟨_, _, h⟩)
    · rw [← keyText_bare k, h, keyText_bare]
    · rw [← keyText_bare k, h]
      rfl
    · rw [← keyText_bare l, h]
      rfl
    · exact h

/-- Collections that differ in white space at their ends are written alike. -/
example : keyText (.sequence [.string "a\n\n"]) = keyText (.sequence [.string "a\n\n\n"]) := by
  decide +kernel

end Value

end Yaml

end ApiTypes
