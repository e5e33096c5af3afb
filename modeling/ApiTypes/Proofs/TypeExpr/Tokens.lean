/-
# The tokens of a type

The text of a type is read as words, quoted texts, numbers and marks, with blanks between them.
A quoted text is a JSON string and a number an unsigned decimal.  Each token is as long as it can
be, so what a text is read as depends on what follows it; marks and quoted texts end by themselves,
and before a blank, a bracket or a comma everything ends.

* `Token.all?` reads a text.
* `Token.Spells cs ts`: the text is read as the tokens before whatever ends a token, and
  `Token.SpellsAlone cs ts` before anything.
* `Token.spellsAlone_quote`, `Token.spells_decimal`, `Token.spells_word` are the tokens;
  `Token.spells_intercalate` puts them together.
-/
import ApiTypes.Json.Reader
import ApiTypes.Text.Basic
import Mathlib

namespace ApiTypes

/-- A token of a type. -/
inductive Token where
  | readonly
  | word (name : String)
  | text (value : String)
  | number (digits : String)
  | bar
  | ampersand
  | comma
  | minus
  | dots
  | openParen
  | closeParen
  | openBracket
  | closeBracket
  deriving DecidableEq, Repr

namespace Token

/-! ## 1. Reading -/

/-- What a word may begin with. -/
def isWordStart (c : Char) : Bool := c.isAlpha || c = '_' || c = '$'

/-- What a word may go on with. -/
def isWordChar (c : Char) : Bool := isWordStart c || c.isDigit

/-- The token of a word. -/
def ofWord (name : String) : Token := if name = "readonly" then .readonly else .word name

/-- The token of a character that is one by itself. -/
def mark? : Char → Option Token
  | '|' => some .bar
  | '&' => some .ampersand
  | ',' => some .comma
  | '-' => some .minus
  | '(' => some .openParen
  | ')' => some .closeParen
  | '[' => some .openBracket
  | ']' => some .closeBracket
  | _ => none

/-- The fraction at the front of a text, and what follows it. -/
def fraction : List Char → List Char × List Char
  | '.' :: cs =>
    if (spanDigits cs).1 = [] then ([], '.' :: cs) else ('.' :: (spanDigits cs).1, (spanDigits cs).2)
  | cs => ([], cs)

/-- The sign at the front of a text, and what follows it. -/
def sign : List Char → List Char × List Char
  | '-' :: cs => (['-'], cs)
  | '+' :: cs => (['+'], cs)
  | cs => ([], cs)

/-- The exponent at the front of a text, and what follows it. -/
def exponent : List Char → List Char × List Char
  | [] => ([], [])
  | c :: cs =>
    if (c = 'e' || c = 'E') && (spanDigits (sign cs).2).1 ≠ [] then
      (c :: (sign cs).1 ++ (spanDigits (sign cs).2).1, (spanDigits (sign cs).2).2)
    else ([], c :: cs)

/-- The decimal at the front of a text, and what follows it: digits, a fraction if there is one
and an exponent if there is one. -/
def decimal (cs : List Char) : List Char × List Char :=
  let (whole, rest) := spanDigits cs
  let (fraction, rest) := fraction rest
  let (exponent, rest) := exponent rest
  (whole ++ fraction ++ exponent, rest)

/-- The token at the front of a text, and what follows it. -/
def next? : List Char → Option (Token × List Char)
  | [] => none
  | '"' :: cs => (Json.stringBody [] cs).map fun (value, rest) => (.text value, rest)
  | '.' :: '.' :: '.' :: cs => some (.dots, cs)
  | c :: cs =>
    match mark? c with
    | some t => some (t, cs)
    | none =>
      if c.isDigit then
        some (.number (String.ofList (decimal (c :: cs)).1), (decimal (c :: cs)).2)
      else if isWordStart c then
        some (ofWord (String.ofList ((c :: cs).takeWhile isWordChar)),
          (c :: cs).dropWhile isWordChar)
      else none

/-- The tokens of a text, if it has no other characters.  A token takes at least a character. -/
def all? (cs : List Char) : Option (List Token) :=
  match cs with
  | [] => some []
  | c :: rest =>
    if Json.isSpace c then all? rest
    else
      match next? (c :: rest) with
      | none => none
      | some (t, after) =>
        if after.length < (c :: rest).length then (all? after).map (t :: ·) else none
termination_by cs.length
decreasing_by
  · exact Nat.lt_succ_self _
  · assumption

/-! ## 2. Texts and tokens -/

/-- What follows ends every token. -/
def Ends (rest : List Char) : Prop := ∀ c ∈ rest.head?, c ∈ [' ', ')', '[', ',', ']']

/-- A text is read as some tokens before whatever ends a token. -/
def Spells (cs : List Char) (ts : List Token) : Prop :=
  ∀ rest, Ends rest → all? (cs ++ rest) = (all? rest).map (ts ++ ·)

/-- A text is read as some tokens before anything. -/
def SpellsAlone (cs : List Char) (ts : List Token) : Prop :=
  ∀ rest, all? (cs ++ rest) = (all? rest).map (ts ++ ·)

section Spelling

variable {cs ds : List Char} {ts us : List Token} {c : Char} {t : Token}

theorem SpellsAlone.spells (h : SpellsAlone cs ts) : Spells cs ts := fun rest _ => h rest

theorem Spells.read (h : Spells cs ts) : all? cs = some ts := by
  have hnil : all? [] = some [] := by rw [all?]
  have hcs := h [] fun _ hc => absurd hc (by simp)
  rwa [List.append_nil, hnil, Option.map_some, List.append_nil] at hcs

theorem map_append_append (o : Option (List Token)) :
    (o.map (us ++ ·)).map (ts ++ ·) = o.map (ts ++ us ++ ·) := by
  cases o <;> simp

theorem SpellsAlone.append_spells (h : SpellsAlone cs ts) (h' : Spells ds us) :
    Spells (cs ++ ds) (ts ++ us) := by
  intro rest hrest
  rw [List.append_assoc, h, h' rest hrest, map_append_append]

theorem SpellsAlone.append (h : SpellsAlone cs ts) (h' : SpellsAlone ds us) :
    SpellsAlone (cs ++ ds) (ts ++ us) := by
  intro rest
  rw [List.append_assoc, h, h', map_append_append]

/-- What follows a text may be what ends its last token. -/
theorem Spells.append_alone (h : Spells cs ts) (hc : c ∈ [' ', ')', '[', ',', ']'])
    (h' : SpellsAlone (c :: ds) us) : SpellsAlone (cs ++ c :: ds) (ts ++ us) := by
  intro rest
  have hends : Ends (c :: ds ++ rest) := by
    intro a ha
    cases ha
    exact hc
  rw [List.append_assoc, h _ hends, h', map_append_append]

/-- A token that is read at the front of a text. -/
theorem all?_of_next? (cs : List Char) (hspace : Json.isSpace c = false)
    (h : next? (c :: (cs ++ ds)) = some (t, ds)) :
    all? (c :: cs ++ ds) = (all? ds).map ([t] ++ ·) := by
  rw [List.cons_append, all?, hspace, if_neg (by simp), h]
  simp only [List.length_cons, List.length_append]
  rw [if_pos (by omega)]
  rfl

end Spelling

/-! ## 3. Marks, blanks and quoted texts -/

theorem spellsAlone_space : SpellsAlone [' '] [] := by
  intro rest
  rw [List.singleton_append, all?, if_pos (by decide)]
  simp

theorem spellsAlone_dots : SpellsAlone ['.', '.', '.'] [.dots] := fun _ =>
  all?_of_next? ['.', '.'] (by decide) rfl

theorem spellsAlone_mark {c : Char} {t : Token} (h : mark? c = some t) : SpellsAlone [c] [t] := by
  intro rest
  unfold mark? at h
  split at h <;> cases h <;> exact all?_of_next? [] (by decide) rfl

theorem SpellsAlone.after_mark {c : Char} {t : Token} {cs : List Char} {ts : List Token}
    (h : SpellsAlone cs ts) (hmark : mark? c = some t) : SpellsAlone (c :: cs) (t :: ts) :=
  (spellsAlone_mark hmark).append h

/-- A hexadecimal digit has its value. -/
theorem hexDigit?_hexChar (n : Nat) : Text.hexDigit? (Text.hexChar n) = some (n % 16) := by
  have hall : ∀ k < 16, Text.hexDigit? ((Nat.toDigits 16 k).headD '0') = some k := by decide
  exact hall (n % 16) (Nat.mod_lt _ (by decide))

/-- A control character is read from its code. -/
theorem hex4?_hexChar {n : Nat} (h : n < 0x20) :
    Json.hex4? '0' '0' (Text.hexChar (n / 16)) (Text.hexChar n) = some n := by
  have hzero : Text.hexDigit? '0' = some 0 := by decide
  simp only [Json.hex4?, hzero, hexDigit?_hexChar, Option.bind_eq_bind, Option.bind_some,
    Option.pure_def, Option.some.injEq]
  omega

/-- A character is read from what stands for it in a JSON string. -/
theorem stringBody_escape (acc : List Char) (c : Char) (cs : List Char) :
    Json.stringBody acc (Text.escape c ++ cs) = Json.stringBody (c :: acc) cs := by
  have hofNat : ∀ n, c.toNat = n → c = Char.ofNat n := fun n h => h ▸ (Char.ofNat_toNat c).symm
  unfold Text.escape
  split_ifs with hquote hbackslash hb hf hn hr ht hcontrol
  · subst hquote
    rfl
  · subst hbackslash
    rfl
  · rw [hofNat _ hb]
    rfl
  · rw [hofNat _ hf]
    rfl
  · subst hn
    rfl
  · subst hr
    rfl
  · subst ht
    rfl
  · have hvalid : (decide (c.toNat < 0xD800) || decide (0xE000 ≤ c.toNat)) = true := by
      simp
      omega
    show Json.stringBody acc ('\\' :: 'u' :: '0' :: '0' :: Text.hexChar (c.toNat / 16) ::
      Text.hexChar c.toNat :: cs) = _
    rw [Json.stringBody.eq_def]
    simp only [hex4?_hexChar hcontrol, Char.ofNat_toNat, hvalid, if_true]
    rfl
  · rw [List.singleton_append, Json.stringBody.eq_def]
    simp only [hquote, hbackslash, hcontrol, if_false]

theorem stringBody_quoted (rest : List Char) : ∀ (s acc : List Char),
    Json.stringBody acc (s.flatMap Text.escape ++ '"' :: rest)
      = some (String.ofList (acc.reverse ++ s), rest)
  | [], acc => by
    rw [List.flatMap_nil, List.nil_append, Json.stringBody.eq_def, List.append_nil]
    rfl
  | c :: s, acc => by
    rw [List.flatMap_cons, List.append_assoc, stringBody_escape, stringBody_quoted rest s,
      List.reverse_cons, List.append_assoc]
    rfl

/-- **A quoted text is read as it was.** -/
theorem spellsAlone_quote (s : String) : SpellsAlone (Text.quote s).toList [.text s] := by
  intro rest
  rw [Text.quote, String.toList_ofList, Text.quoteChars]
  refine all?_of_next? _ (by decide) ?_
  rw [next?, List.append_assoc, List.singleton_append, stringBody_quoted]
  simp

/-! ## 4. Words -/

/-- No word begins with a digit. -/
theorem isWordStart_of_isDigit {c : Char} (h : c.isDigit = true) : isWordStart c = false := by
  have hne : ∀ d, d.isDigit = false → c ≠ d := by
    rintro d hd rfl
    rw [hd] at h
    cases h
  have halpha : c.isAlpha = false := by
    simp only [Char.isDigit, Bool.and_eq_true, decide_eq_true_eq] at h
    simp only [Char.isAlpha, Char.isUpper, Char.isLower, Bool.or_eq_false_iff,
      Bool.and_eq_false_iff, decide_eq_false_iff_not]
    grind
  simp [isWordStart, halpha, hne '_' rfl, hne '$' rfl]

/-- Whether a text is a word. -/
def isWord : List Char → Bool
  | [] => false
  | c :: cs => isWordStart c && cs.all isWordChar

section Ends

variable {rest : List Char}

/-- What ends a token is not part of a word or of a number. -/
theorem Ends.head (h : Ends rest) :
    ∀ c ∈ rest.head?, isWordChar c = false ∧ c ≠ '.' ∧ c ≠ 'e' ∧ c ≠ 'E' := by
  intro c hc
  have hmem := h c hc
  simp only [List.mem_cons, List.not_mem_nil, or_false] at hmem
  rcases hmem with rfl | rfl | rfl | rfl | rfl <;> decide

theorem Ends.isDigit (h : Ends rest) : ∀ c ∈ rest.head?, c.isDigit = false := by
  intro c hc
  have hword := (h.head c hc).1
  rw [isWordChar, Bool.or_eq_false_iff] at hword
  exact hword.2

end Ends

/-- A run of characters of a kind ends where a character of another kind follows. -/
theorem span_append {p : Char → Bool} {cs rest : List Char} (hcs : ∀ c ∈ cs, p c = true)
    (hrest : ∀ c ∈ rest.head?, p c = false) :
    (cs ++ rest).takeWhile p = cs ∧ (cs ++ rest).dropWhile p = rest := by
  rw [List.takeWhile_append_of_pos hcs, List.dropWhile_append_of_pos hcs]
  cases rest with
  | nil => exact ⟨List.append_nil cs, rfl⟩
  | cons c rest =>
    have hc : ¬ p c = true := by simp [hrest c rfl]
    rw [List.takeWhile_cons_of_neg hc, List.dropWhile_cons_of_neg hc, List.append_nil]
    exact ⟨rfl, rfl⟩

/-- The first character of a word or of a number is no mark and no blank. -/
theorem next?_of_isWordChar {c : Char} (h : isWordChar c = true) (cs : List Char) :
    Json.isSpace c = false ∧ next? (c :: cs) =
      if c.isDigit then
        some (.number (String.ofList (decimal (c :: cs)).1), (decimal (c :: cs)).2)
      else some (ofWord (String.ofList ((c :: cs).takeWhile isWordChar)),
        (c :: cs).dropWhile isWordChar) := by
  have hmark : ∀ d t, mark? d = some t → isWordChar d = false := by
    intro d t hd
    unfold mark? at hd
    split at hd <;> first | decide | cases hd
  have hne : ∀ d, isWordChar d = false → c ≠ d := by
    rintro d hd rfl
    rw [hd] at h
    cases h
  have hnone : mark? c = none := by
    cases hc : mark? c with
    | none => rfl
    | some t =>
      rw [hmark c t hc] at h
      cases h
  constructor
  · simp [Json.isSpace, hne ' ' rfl, hne '\n' rfl, hne '\t' rfl, hne '\r' rfl]
  · rw [next?]
    · rw [hnone]
      simp only
      split
      · rfl
      · rename_i hdigit
        have hstart : isWordStart c = true := by
          rwa [isWordChar, Bool.eq_false_iff.mpr hdigit, Bool.or_false] at h
        rw [if_pos hstart]
    · exact fun heq => hne '"' rfl heq
    · exact fun _ heq => absurd heq (hne '.' rfl)

/-- **A word is read as such.** -/
theorem spells_word {w : String} (h : isWord w.toList = true) : Spells w.toList [ofWord w] := by
  cases hw : w.toList with
  | nil =>
    rw [hw] at h
    cases h
  | cons c cs =>
    rw [hw, isWord, Bool.and_eq_true, List.all_eq_true] at h
    obtain ⟨hstart, hcs⟩ := h
    have hchar : isWordChar c = true := by rw [isWordChar, hstart, Bool.true_or]
    have hdigit : ¬ c.isDigit = true := by
      intro hdigit
      rw [isWordStart_of_isDigit hdigit] at hstart
      cases hstart
    intro rest hrest
    obtain ⟨htake, hdrop⟩ := span_append (List.forall_mem_cons.mpr ⟨hchar, hcs⟩)
      fun c hc => (hrest.head c hc).1
    obtain ⟨hspace, hnext⟩ := next?_of_isWordChar hchar (cs ++ rest)
    refine all?_of_next? _ hspace ?_
    rw [hnext, if_neg hdigit, ← List.cons_append, htake, hdrop, ← hw, String.ofList_toList]

/-! ## 5. Numbers -/

/-- Digits, at least one. -/
def Digits (cs : List Char) : Prop := cs ≠ [] ∧ ∀ c ∈ cs, c.isDigit = true

/-- A point with digits behind it, or nothing. -/
def IsFraction (cs : List Char) : Prop := cs = [] ∨ ∃ ds, Digits ds ∧ cs = '.' :: ds

/-- An exponent, with or without a sign, or nothing. -/
def IsExponent (cs : List Char) : Prop :=
  cs = [] ∨ ∃ s ds, (s = [] ∨ s = ['-'] ∨ s = ['+']) ∧ Digits ds ∧ cs = 'e' :: s ++ ds

/-- An unsigned decimal. -/
def IsDecimal (cs : List Char) : Prop :=
  ∃ whole f x, Digits whole ∧ IsFraction f ∧ IsExponent x ∧ cs = whole ++ f ++ x

section Numbers

variable {cs ds rest : List Char}

theorem spanDigits_append (h : ∀ c ∈ ds, c.isDigit = true)
    (hrest : ∀ c ∈ rest.head?, c.isDigit = false) : spanDigits (ds ++ rest) = (ds, rest) := by
  obtain ⟨htake, hdrop⟩ := span_append h hrest
  rw [spanDigits, htake, hdrop]

theorem Digits.exists_cons (h : Digits ds) : ∃ c ds', ds = c :: ds' ∧ c.isDigit = true := by
  obtain ⟨hsome, hall⟩ := h
  cases ds with
  | nil => exact absurd rfl hsome
  | cons c ds' => exact ⟨c, ds', rfl, hall c List.mem_cons_self⟩

/-- A sign is told from the digits that follow. -/
theorem sign_append {s : List Char} (hs : s = [] ∨ s = ['-'] ∨ s = ['+']) (hds : Digits ds)
    (rest : List Char) :
    sign (s ++ (ds ++ rest)) = (s, ds ++ rest) := by
  rcases hs with rfl | rfl | rfl
  · obtain ⟨c, ds', rfl, hc⟩ := hds.exists_cons
    rw [List.nil_append, List.cons_append, sign]
    · intro _ heq
      rw [(List.cons.inj heq).1] at hc
      exact absurd hc (by decide)
    · intro _ heq
      rw [(List.cons.inj heq).1] at hc
      exact absurd hc (by decide)
  · rfl
  · rfl

theorem exponent_append (h : IsExponent cs) (hrest : Ends rest) :
    exponent (cs ++ rest) = (cs, rest) := by
  rcases h with rfl | ⟨s, ds, hs, hds, rfl⟩
  · cases rest with
    | nil => rfl
    | cons c rest =>
      obtain ⟨_, _, he, hE⟩ := hrest.head c rfl
      simp [exponent, he, hE]
  · have hsign := sign_append hs hds rest
    rw [List.append_assoc, List.cons_append, exponent, hsign, spanDigits_append hds.2 hrest.isDigit]
    rw [if_pos (by simp [hds.1])]

/-- No digit, no point and no exponent follows a fraction but the exponent of the number. -/
theorem head_exponent (h : IsExponent cs) (hrest : Ends rest) :
    ∀ c ∈ (cs ++ rest).head?, c.isDigit = false ∧ c ≠ '.' := by
  rcases h with rfl | ⟨s, ds, _, _, rfl⟩
  · exact fun c hc => ⟨hrest.isDigit c hc, (hrest.head c hc).2.1⟩
  · intro c hc
    cases hc
    exact ⟨rfl, by decide⟩

theorem fraction_append (h : IsFraction cs)
    (hrest : ∀ c ∈ rest.head?, c.isDigit = false ∧ c ≠ '.') :
    fraction (cs ++ rest) = (cs, rest) := by
  rcases h with rfl | ⟨ds, hds, rfl⟩
  · cases rest with
    | nil => rfl
    | cons c rest =>
      rw [List.nil_append, fraction]
      exact fun _ heq => (hrest c rfl).2 (List.cons.inj heq).1
  · rw [List.cons_append, fraction, spanDigits_append hds.2 fun c hc => (hrest c hc).1,
      if_neg hds.1]

theorem decimal_append (h : IsDecimal cs) (hrest : Ends rest) :
    decimal (cs ++ rest) = (cs, rest) := by
  obtain ⟨whole, f, x, hwhole, hf, hx, rfl⟩ := h
  have hhead := head_exponent hx hrest
  have hdigits : ∀ c ∈ (f ++ (x ++ rest)).head?, c.isDigit = false := by
    rcases hf with rfl | ⟨ds, _, rfl⟩
    · exact fun c hc => (hhead c hc).1
    · intro c hc
      cases hc
      rfl
  rw [decimal, List.append_assoc, List.append_assoc, spanDigits_append hwhole.2 hdigits]
  simp only [fraction_append hf hhead, exponent_append hx hrest, List.append_assoc]

theorem IsDecimal.exists_cons (h : IsDecimal cs) : ∃ c cs', cs = c :: cs' ∧ c.isDigit = true := by
  obtain ⟨whole, f, x, hwhole, _, _, rfl⟩ := h
  obtain ⟨c, whole', rfl, hc⟩ := hwhole.exists_cons
  exact ⟨c, whole' ++ f ++ x, rfl, hc⟩

/-- **A decimal is read as such.** -/
theorem spells_decimal (h : IsDecimal cs) : Spells cs [.number (String.ofList cs)] := by
  intro rest hrest
  have hread := decimal_append h hrest
  obtain ⟨c, cs', rfl, hc⟩ := h.exists_cons
  have hchar : isWordChar c = true := by rw [isWordChar, hc, Bool.or_true]
  obtain ⟨hspace, hnext⟩ := next?_of_isWordChar hchar (cs' ++ rest)
  refine all?_of_next? _ hspace ?_
  rw [hnext, if_pos hc, ← List.cons_append, hread]

end Numbers

/-! ## 6. Lists -/

/-- Texts with marks between them are read with the tokens of the marks between theirs. -/
theorem spells_intercalate {c : Char} {sep : List Char} {t : Token}
    (hc : c ∈ [' ', ')', '[', ',', ']']) (hsep : SpellsAlone (c :: sep) [t])
    {texts : List (List Char)} {tss : List (List Token)} (h : List.Forall₂ Spells texts tss)
    (hsome : texts ≠ []) :
    Spells (List.intercalate (c :: sep) texts) (List.intercalate [t] tss) := by
  induction h with
  | nil => exact absurd rfl hsome
  | @cons cs ts texts tss hfirst hrest ih =>
    cases hrest with
    | nil =>
      rw [List.intercalate_singleton, List.intercalate_singleton]
      exact hfirst
    | cons hsecond hrest =>
      rw [List.intercalate_cons_cons, List.intercalate_cons_cons]
      exact (hfirst.append_alone hc hsep).append_spells (ih (List.cons_ne_nil _ _))

end Token

end ApiTypes
