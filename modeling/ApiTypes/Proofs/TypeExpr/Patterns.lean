/-
# Key patterns that are read back

A key pattern is written between backticks: texts, in which a backslash escapes the character after
it, and types between a dollar sign with a brace and the next closing brace.  No text can end the
pattern or open a type, also not together with what stands next to it, and no type ends early: a
brace in a string literal does not count.

* `Pattern.readFrom` and `Pattern.read?` read a pattern; `Pattern.State` is what is being read.
* `Pattern.readFrom_escapeTemplate`: an escaped text is read as it was.
* `TypeExpr.Interpolated.passes`: how the text of a type that stands in a pattern is read.
* `TypeExpr.IsPattern`: texts and types in turn, and `TypeExpr.read_renderKey`: such a pattern is
  read as it was.
-/
import ApiTypes.Proofs.TypeExpr.Texts
import ApiTypes.Proofs.Typing.Interpolated

namespace ApiTypes

/-! ## 1. Reading patterns -/

namespace Pattern

/-- A stretch of a written pattern. -/
inductive Stretch where
  | text (cs : List Char)
  | type (cs : List Char)
  deriving DecidableEq, Repr

/-- What is being read, and its characters so far: a text, or a type and the mark that the string
literal in it began with, if one is open. -/
inductive State where
  | text (read : List Char)
  | type (read : List Char) (mark : Option Char)

/-- A stretch of text, unless it is empty. -/
def textStretch (cs : List Char) : List Stretch := if cs = [] then [] else [.text cs]

/-- Puts stretches before those that are read. -/
def after (found : List Stretch) :
    Option (List Stretch × List Char) → Option (List Stretch × List Char) :=
  Option.map fun (stretches, rest) => (found ++ stretches, rest)

/-- The marks around string literals. -/
def isStringMark (c : Char) : Bool := c = '"' || c = '\''

/-- The stretches up to the backtick that ends the pattern, and what follows it. -/
def readFrom : State → List Char → Option (List Stretch × List Char)
  | _, [] => none
  | .text read, '\\' :: c :: cs => readFrom (.text (read ++ [c])) cs
  | .text read, '$' :: '\x7b' :: cs => after (textStretch read) (readFrom (.type [] none) cs)
  | .text read, c :: cs =>
    if c = '\x60' then some (textStretch read, cs) else readFrom (.text (read ++ [c])) cs
  | .type read (some mark), '\\' :: c :: cs => readFrom (.type (read ++ ['\\', c]) (some mark)) cs
  | .type read (some mark), c :: cs =>
    readFrom (.type (read ++ [c]) (if c = mark then none else some mark)) cs
  | .type read none, c :: cs =>
    if c = '\x7d' then after [.type read] (readFrom (.text []) cs)
    else readFrom (.type (read ++ [c]) (if isStringMark c then some c else none)) cs

/-- The stretches of the pattern at the front of a text, and what follows it. -/
def read? : List Char → Option (List Stretch × List Char)
  | '\x60' :: cs => readFrom (.text []) cs
  | _ => none

variable {c mark : Char} {cs ds read rest : List Char}

theorem readFrom_escaped : readFrom (.text read) ('\\' :: c :: cs)
    = readFrom (.text (read ++ [c])) cs := rfl

theorem readFrom_opened : readFrom (.text read) ('$' :: '\x7b' :: cs)
    = after (textStretch read) (readFrom (.type [] none) cs) := rfl

theorem readFrom_ended : readFrom (.text read) ('\x60' :: cs) = some (textStretch read, cs) := rfl

theorem readFrom_closed : readFrom (.type read none) ('\x7d' :: cs)
    = after [.type read] (readFrom (.text []) cs) := rfl

/-- **Any other character is text.** -/
theorem readFrom_char (hescape : c ≠ '\\') (hend : c ≠ '\x60')
    (hopen : c = '$' → cs.head? ≠ some '\x7b') :
    readFrom (.text read) (c :: cs) = readFrom (.text (read ++ [c])) cs := by
  rw [readFrom, if_neg hend]
  · intro c' cs' hc
    exact absurd hc hescape
  · intro cs' hc hcs
    exact absurd (by rw [hcs]; rfl) (hopen hc)

/-- An escaped text begins with a brace only if the text does. -/
theorem head?_escapeTemplate_append (hrest : rest.head? ≠ some '\x7b')
    (h : (TypeExpr.escapeTemplate cs ++ rest).head? = some '\x7b') : cs.head? = some '\x7b' := by
  revert h
  fun_cases TypeExpr.escapeTemplate cs with
  | case1 => simp
  | case2 => simp
  | case3 => simp
  | case4 => exact fun h => absurd h hrest

/-- **An escaped text is read as it was**, if no brace follows. -/
theorem readFrom_escapeTemplate (hrest : rest.head? ≠ some '\x7b') :
    readFrom (.text read) (TypeExpr.escapeTemplate cs ++ rest)
      = readFrom (.text (read ++ cs)) rest := by
  fun_induction TypeExpr.escapeTemplate cs generalizing read with
  | case1 cs ih =>
    rw [List.cons_append, List.cons_append, List.cons_append, readFrom_escaped,
      readFrom_char (by decide) (by decide) (fun h => absurd h (by decide)), ih]
    simp
  | case2 c cs hdollar hspecial ih =>
    rw [List.cons_append, List.cons_append, readFrom_escaped, ih]
    simp
  | case3 c cs hdollar hplain ih =>
    obtain ⟨hescape, hend⟩ : c ≠ '\\' ∧ c ≠ '\x60' := by simpa using hplain
    rw [List.cons_append, readFrom_char hescape hend, ih]
    · simp
    · -- the case of a dollar sign before a brace is the first one
      intro hc hhead
      obtain ⟨cs', rfl⟩ := List.head?_eq_some_iff.mp (head?_escapeTemplate_append hrest hhead)
      exact hdollar cs' hc rfl
  | case4 => simp

/-! ## 2. The texts of types -/

/-- A text in a type, outside of string literals, that neither ends the type nor leaves a string
literal open. -/
def Passes (cs : List Char) : Prop :=
  ∀ read rest, readFrom (.type read none) (cs ++ rest) = readFrom (.type (read ++ cs) none) rest

theorem passes_nil : Passes [] := fun read rest => by simp

theorem Passes.append (hcs : Passes cs) (hds : Passes ds) : Passes (cs ++ ds) := by
  intro read rest
  rw [List.append_assoc, hcs, hds, List.append_assoc]

theorem passes_of_forall (h : ∀ c ∈ cs, c ≠ '\x7d' ∧ isStringMark c = false) : Passes cs := by
  induction cs with
  | nil => exact passes_nil
  | cons c cs ih =>
    obtain ⟨⟨hend, hmark⟩, hcs⟩ := List.forall_mem_cons.mp h
    intro read rest
    rw [List.cons_append, readFrom, if_neg hend, hmark, if_neg Bool.false_ne_true, ih hcs]
    simp

theorem passes_intercalate {sep : List Char} {texts : List (List Char)} (hsep : Passes sep)
    (h : ∀ cs ∈ texts, Passes cs) : Passes (List.intercalate sep texts) := by
  induction texts with
  | nil => exact passes_nil
  | cons cs texts ih =>
    obtain ⟨hcs, htexts⟩ := List.forall_mem_cons.mp h
    cases texts with
    | nil =>
      rw [List.intercalate_singleton]
      exact hcs
    | cons ds texts =>
      rw [List.intercalate_cons_cons]
      exact (hcs.append hsep).append (ih htexts)

/-- An escaped character in a string literal does not end it. -/
theorem readFrom_string_escaped : readFrom (.type read (some mark)) ('\\' :: c :: cs)
    = readFrom (.type (read ++ ['\\', c]) (some mark)) cs := rfl

theorem readFrom_string_char (hescape : c ≠ '\\') (hmark : c ≠ mark) :
    readFrom (.type read (some mark)) (c :: cs)
      = readFrom (.type (read ++ [c]) (some mark)) cs := by
  rw [readFrom, if_neg hmark]
  intro c' cs' hc
  exact absurd hc hescape

/-- No hexadecimal digit is a backslash or a quotation mark. -/
theorem hexChar_ne (n : Nat) : Text.hexChar n ≠ '\\' ∧ Text.hexChar n ≠ '"' := by
  have hdigit := Token.hexDigit?_hexChar n
  constructor
  · intro h
    rw [h] at hdigit
    cases hdigit
  · intro h
    rw [h] at hdigit
    cases hdigit

/-- **What stands for a character in a string literal does not end it.** -/
theorem readFrom_escape (c : Char) (read rest : List Char) :
    readFrom (.type read (some '"')) (Text.escape c ++ rest)
      = readFrom (.type (read ++ Text.escape c) (some '"')) rest := by
  have hhex : ∀ n read cs, readFrom (.type read (some '"')) (Text.hexChar n :: cs)
      = readFrom (.type (read ++ [Text.hexChar n]) (some '"')) cs := fun n read cs =>
    readFrom_string_char (hexChar_ne n).1 (hexChar_ne n).2
  have hzero : ∀ read cs, readFrom (.type read (some '"')) ('0' :: cs)
      = readFrom (.type (read ++ ['0']) (some '"')) cs := fun read cs =>
    readFrom_string_char (by decide) (by decide)
  unfold Text.escape
  split_ifs with hquote hbackslash hb hf hn hr ht hcontrol
  any_goals exact readFrom_string_escaped
  · simp only [List.cons_append, List.nil_append, readFrom_string_escaped, hzero, hhex,
      List.append_assoc]
  · exact readFrom_string_char hbackslash hquote

theorem readFrom_flatMap_escape (cs read rest : List Char) :
    readFrom (.type read (some '"')) (cs.flatMap Text.escape ++ rest)
      = readFrom (.type (read ++ cs.flatMap Text.escape) (some '"')) rest := by
  induction cs generalizing read with
  | nil => simp
  | cons c cs ih =>
    rw [List.flatMap_cons, List.append_assoc, readFrom_escape, ih, List.append_assoc]

/-- **A string literal ends where it is meant to.** -/
theorem passes_quote (s : String) : Passes (Text.quote s).toList := by
  intro read rest
  have hopen : ∀ cs, readFrom (.type read none) ('"' :: cs)
      = readFrom (.type (read ++ ['"']) (some '"')) cs := fun _ => rfl
  have hclose : ∀ read, readFrom (.type read (some '"')) ('"' :: rest)
      = readFrom (.type (read ++ ['"']) none) rest := fun _ => rfl
  rw [Text.quote, String.toList_ofList, Text.quoteChars, List.cons_append, hopen,
    List.append_assoc, readFrom_flatMap_escape, List.singleton_append, hclose]
  simp

end Pattern

namespace TypeExpr

open Pattern

variable {e : TypeExpr} {level : Nat}

theorem passes_number (n : JsonNumber) : Passes n.written.toList := by
  refine passes_of_forall fun c hc => ?_
  rcases isNumberChar_of_mem hc with hdigit | hmem
  · have hne : ∀ d, d.isDigit = false → c ≠ d := by
      rintro d hd rfl
      rw [hd] at hdigit
      cases hdigit
    simp [isStringMark, hne]
  · simp only [List.mem_cons, List.not_mem_nil, or_false] at hmem
    rcases hmem with rfl | rfl | rfl | rfl <;> decide

/-- **The text of a type in a pattern** neither ends the type nor leaves a string literal open. -/
theorem Interpolated.passes (h : Interpolated e) : Passes (renderAt level e).toList := by
  have hword : ∀ word : String,
      (word.toList.all fun c => c ≠ '\x7d' && !isStringMark c) = true → Passes word.toList := by
    intro word hall
    refine passes_of_forall fun c hc => ?_
    simpa using List.all_eq_true.mp hall c hc
  induction h with
  | primitive p =>
    rw [renderAt.eq_def]
    cases p with
    | string => exact hword "string" (by decide)
    | number => exact hword "number" (by decide)
    | boolean => exact hword "boolean" (by decide)
  | @literal l notNull =>
    cases l with
    | string value =>
      rw [renderAt_string]
      exact passes_quote value
    | number value =>
      rw [renderAt_number]
      exact passes_number value
    | boolean value =>
      rw [renderAt.eq_def]
      cases value with
      | true => exact hword "true" (by decide)
      | false => exact hword "false" (by decide)
    | null => exact absurd rfl notNull
  | union members ih =>
    rw [toList_renderAt_union]
    refine passes_intercalate (hword " | " (by decide)) fun cs hcs => ?_
    obtain ⟨e, he, rfl⟩ := List.mem_map.mp hcs
    exact ih e he

/-! ## 3. Patterns -/

/-- What a stretch of a pattern is written as. -/
def writtenStretch (level : Nat) : TemplatePart TypeExpr → Stretch
  | .text text => .text text.toList
  | .param type => .type (renderAt level type).toList

/-- **Texts and types in turn**: no text is empty, no two texts stand side by side, and the types
are such as can stand in patterns. -/
structure IsPattern (parts : List (TemplatePart TypeExpr)) : Prop where
  nonempty : ∀ text, .text text ∈ parts → text ≠ ""
  apart : parts.IsChain fun part next => ∀ text, part = .text text → ∃ type, next = .param type
  interpolated : ∀ type, .param type ∈ parts → Interpolated type

theorem IsPattern.tail {part : TemplatePart TypeExpr} {parts : List (TemplatePart TypeExpr)}
    (h : IsPattern (part :: parts)) : IsPattern parts :=
  ⟨fun text ht => h.nonempty text (List.mem_cons_of_mem part ht), h.apart.of_cons,
    fun type ht => h.interpolated type (List.mem_cons_of_mem part ht)⟩

/-- A text is followed by a type or by nothing, so by no brace. -/
theorem IsPattern.head?_renderParts {text : String} {parts : List (TemplatePart TypeExpr)}
    (h : IsPattern (.text text :: parts)) (rest : List Char) :
    ((renderParts level parts).toList ++ '\x60' :: rest).head? ≠ some '\x7b' := by
  cases parts with
  | nil => rw [renderParts]; simp
  | cons part parts =>
    obtain ⟨type, rfl⟩ := (List.isChain_cons_cons.mp h.apart).1 text rfl
    rw [renderParts, renderPart]
    simp

/-- **A pattern is read as it was**, behind a text that has been read already. -/
theorem readFrom_renderParts {parts : List (TemplatePart TypeExpr)} (h : IsPattern parts)
    (read rest : List Char) (hread : ∀ text ps, parts = .text text :: ps → read = []) :
    readFrom (.text read) ((renderParts level parts).toList ++ '\x60' :: rest)
      = some (textStretch read ++ parts.map (writtenStretch level), rest) := by
  induction parts generalizing read with
  | nil =>
    rw [renderParts]
    simpa using readFrom_ended
  | cons part parts ih =>
    rw [renderParts, String.toList_append, List.append_assoc]
    cases part with
    | text text =>
      obtain rfl : read = [] := hread text parts rfl
      have hsome : text.toList ≠ [] := by
        simpa using h.nonempty text List.mem_cons_self
      have hnext : ∀ text' ps, parts = .text text' :: ps → text.toList = [] := by
        rintro text' ps rfl
        obtain ⟨type, htype⟩ := (List.isChain_cons_cons.mp h.apart).1 text rfl
        cases htype
      rw [renderPart, String.toList_ofList, readFrom_escapeTemplate (h.head?_renderParts rest),
        List.nil_append, ih h.tail text.toList hnext]
      simp [textStretch, hsome, writtenStretch]
    | param type =>
      have hpasses : Passes (renderAt level type).toList :=
        (h.interpolated type List.mem_cons_self).passes
      have hpart : (renderPart level (.param type)).toList
          = '$' :: '\x7b' :: ((renderAt level type).toList ++ ['\x7d']) := by
        rw [renderPart]
        simp
      rw [hpart, List.cons_append, List.cons_append, readFrom_opened, List.append_assoc, hpasses,
        List.singleton_append, readFrom_closed, ih h.tail [] fun _ _ _ => rfl]
      simp [after, textStretch, writtenStretch]

/-- **A key pattern is written between brackets and backticks, and read as it was.** -/
theorem read_renderKey {parts : List (TemplatePart TypeExpr)} (h : IsPattern parts) (level : Nat)
    (optional : Bool) : ∃ written,
      (renderKey level optional (.template parts)).toList = "[path: ".toList ++ written ++ [']'] ∧
      ∀ rest, read? (written ++ rest) = some (parts.map (writtenStretch level), rest) := by
  refine ⟨'\x60' :: ((renderParts level parts).toList ++ ['\x60']), ?_, ?_⟩
  · rw [renderKey]
    simp
  · intro rest
    rw [List.cons_append, List.append_assoc, read?, List.singleton_append,
      readFrom_renderParts h [] rest fun _ _ _ => rfl]
    rfl

end TypeExpr

end ApiTypes
