/-
# The tokens of an expression

The expressions that types are read back as are those without records: names, literals, lists whose
items are written out or have no bounds, unions and intersections.  What is written for one is read
as tokens, and which ones follows from the expression.

* `TypeExpr.Readable` says which expressions these are; `TypeExpr.Named` lists the names.
* `TypeExpr.tokens` are the tokens of an expression.
* `TypeExpr.Readable.spells`: an expression is written with its tokens.
-/
import ApiTypes.Proofs.TypeExpr.Tokens
import ApiTypes.TypeExpr.Render

namespace ApiTypes

open Token (Spells SpellsAlone)

/-! ## 1. Numbers -/

namespace Token

theorem digits_toDigits (n : Nat) : Digits (Nat.toDigits 10 n) :=
  ⟨Nat.toDigits_ne_nil, fun _ hc => Nat.isDigit_of_mem_toDigits (by decide) (by decide) hc⟩

theorem Digits.append {ds es : List Char} (h : Digits ds) (h' : ∀ c ∈ es, c.isDigit = true) :
    Digits (ds ++ es) :=
  ⟨List.append_ne_nil_of_left_ne_nil h.1 es, List.forall_mem_append.mpr ⟨h.2, h'⟩⟩

theorem isDigit_of_mem_zeros {n : Nat} : ∀ c ∈ (zeros n).toList, c.isDigit = true := by
  intro c hc
  rw [zeros, String.toList_ofList] at hc
  rw [List.eq_of_mem_replicate hc]
  rfl

theorem digits_zero : Digits ['0'] :=
  ⟨List.cons_ne_nil _ _, fun c hc => by rw [List.mem_singleton.mp hc]; rfl⟩

/-- Digits are cut into digits, unless at an end. -/
theorem Digits.split {ds : List Char} {k : Nat} (h : Digits ds) (hk : 0 < k)
    (hlt : k < ds.length) : Digits (ds.take k) ∧ Digits (ds.drop k) := by
  refine ⟨⟨?_, fun c hc => h.2 c (List.mem_of_mem_take hc)⟩,
    ⟨?_, fun c hc => h.2 c (List.mem_of_mem_drop hc)⟩⟩
  · rw [← List.length_pos_iff, List.length_take]
    omega
  · rw [← List.length_pos_iff, List.length_drop]
    omega

theorem Digits.isDecimal {ds : List Char} (h : Digits ds) : IsDecimal ds :=
  ⟨ds, [], [], h, .inl rfl, .inl rfl, by simp⟩

theorem Digits.isFraction {ds : List Char} (h : Digits ds) : IsFraction ('.' :: ds) :=
  .inr ⟨ds, h, rfl⟩

/-- One digit, the others behind a point, and an exponent. -/
theorem isDecimal_scientific {ds : List Char} (h : Digits ds) {sign : String}
    (hsign : sign.toList = [] ∨ sign.toList = ['-'] ∨ sign.toList = ['+']) (n : Nat) :
    IsDecimal (String.ofList (ds.take 1)
      ++ (if ds.drop 1 = [] then "" else "." ++ String.ofList (ds.drop 1))
      ++ "e" ++ sign ++ toString n).toList := by
  have hexponent : IsExponent ('e' :: sign.toList ++ Nat.toDigits 10 n) :=
    .inr ⟨sign.toList, _, hsign, digits_toDigits n, rfl⟩
  obtain ⟨c, rest, rfl, hc⟩ := h.exists_cons
  have hfirst : Digits [c] := ⟨List.cons_ne_nil _ _, by simpa using hc⟩
  rw [Nat.toString_eq_ofList_toDigits]
  cases rest with
  | nil => exact ⟨[c], [], _, hfirst, .inl rfl, hexponent, by simp⟩
  | cons d rest =>
    have hrest : Digits (d :: rest) :=
      ⟨List.cons_ne_nil _ _, fun a ha => h.2 a (List.mem_cons_of_mem _ ha)⟩
    exact ⟨[c], '.' :: d :: rest, _, hfirst, hrest.isFraction, hexponent, by simp⟩

/-- **A decimal is written as such**, in each of the four layouts. -/
theorem isDecimal_write (form : DecimalForm) (digits : Nat) (scale : Int) :
    IsDecimal (form.write digits scale).toList := by
  have hds := digits_toDigits digits
  unfold DecimalForm.write
  generalize Nat.toDigits 10 digits = ds at hds
  have hlength := List.length_pos_of_ne_nil hds.1
  dsimp only
  split
  · split
    · -- digits, zeros and no fraction
      exact ⟨ds ++ (zeros scale.toNat).toList, ['.', '0'], [], hds.append isDigit_of_mem_zeros,
        digits_zero.isFraction, .inl rfl, by simp⟩
    · split
      · -- the point stands among the digits
        generalize hk : (scale + ds.length - 1).toNat + 1 = k
        obtain ⟨hbefore, hafter⟩ := hds.split (k := k) (by omega) (by omega)
        exact ⟨ds.take k, '.' :: ds.drop k, [], hbefore, hafter.isFraction, .inl rfl, by simp⟩
      · -- the point stands before the digits
        generalize (-(scale + ds.length - 1) - 1).toNat = k
        have hzeros : Digits ((zeros k).toList ++ ds) :=
          ⟨List.append_ne_nil_of_right_ne_nil _ hds.1,
            List.forall_mem_append.mpr ⟨isDigit_of_mem_zeros, hds.2⟩⟩
        exact ⟨['0'], '.' :: ((zeros k).toList ++ ds), [], digits_zero, hzeros.isFraction,
          .inl rfl, by simp⟩
  · refine isDecimal_scientific hds ?_ _
    split_ifs <;> simp

/-- A decimal, with a sign in front if it is negative. -/
def IsSigned (cs : List Char) : Prop := ∃ ds, IsDecimal ds ∧ (cs = ds ∨ cs = '-' :: ds)

theorem isSigned_toString (n : Int) : IsSigned (toString n).toList := by
  have hrepr : toString n = n.repr := rfl
  rw [hrepr, Int.repr_eq_if]
  split_ifs
  · exact ⟨_, (digits_toDigits n.toNat).isDecimal, .inl (by simp)⟩
  · exact ⟨_, (digits_toDigits (-n).toNat).isDecimal, .inr (by simp)⟩

theorem isSigned_written (form : DecimalForm) (x : Binary64) :
    IsSigned (x.written form).toList := by
  refine ⟨_, isDecimal_write form x.shortest.1 x.shortest.2, ?_⟩
  rw [Binary64.written]
  cases x.negative with
  | true => exact .inr (by simp)
  | false => exact .inl (by simp)

/-- The text of a number is a decimal, with a sign in front if it is negative. -/
theorem exists_isDecimal_written (n : JsonNumber) :
    ∃ cs, IsDecimal cs ∧ (n.written.toList = cs ∨ n.written.toList = '-' :: cs) := by
  cases n with
  | int value => exact isSigned_toString value
  | float x => exact isSigned_written JsonNumber.form x

/-- What a number is written with. -/
theorem IsSigned.isNumberChar {cs : List Char} (h : IsSigned cs) {c : Char} (hc : c ∈ cs) :
    c.isDigit = true ∨ c ∈ ['.', 'e', '+', '-'] := by
  obtain ⟨_, ⟨whole, f, x, hwhole, hf, hx, rfl⟩, hsigned⟩ := h
  have hdigits : ∀ {ds : List Char}, Digits ds → c ∈ ds →
      c.isDigit = true ∨ c ∈ ['.', 'e', '+', '-'] := fun hds hc => .inl (hds.2 c hc)
  have hdecimal : c ∈ whole ++ f ++ x → c.isDigit = true ∨ c ∈ ['.', 'e', '+', '-'] := by
    intro hc
    rcases List.mem_append.mp hc with hc | hc
    · rcases List.mem_append.mp hc with hc | hc
      · exact hdigits hwhole hc
      · rcases hf with rfl | ⟨ds, hds, rfl⟩
        · cases hc
        · rcases List.mem_cons.mp hc with rfl | hc
          · exact .inr (by simp)
          · exact hdigits hds hc
    · rcases hx with rfl | ⟨s, ds, hs, hds, rfl⟩
      · cases hc
      · rcases List.mem_append.mp hc with hc | hc
        · rcases hs with rfl | rfl | rfl <;> exact .inr (by simp at hc ⊢; tauto)
        · exact hdigits hds hc
  rcases hsigned with rfl | rfl
  · exact hdecimal hc
  · rcases List.mem_cons.mp hc with rfl | hc
    · exact .inr (by simp)
    · exact hdecimal hc

/-- A number shows a digit. -/
theorem IsSigned.exists_isDigit {cs : List Char} (h : IsSigned cs) :
    ∃ c ∈ cs, c.isDigit = true := by
  obtain ⟨ds, hds, hsigned⟩ := h
  obtain ⟨c, rest, rfl, hc⟩ := hds.exists_cons
  rcases hsigned with rfl | rfl
  · exact ⟨c, List.mem_cons_self, hc⟩
  · exact ⟨c, List.mem_cons_of_mem _ List.mem_cons_self, hc⟩

end Token

/-! ## 2. Expressions that are read back -/

/-- Bounds of lists whose items are written out, at least one of them, and no bounds. -/
def ListBounds.Fits : ListBounds → Prop
  | .unbounded => True
  | .exact n => 1 ≤ n ∧ n ≤ TypeExpr.maxTupleLength
  | .atLeast n => 1 ≤ n ∧ n ≤ TypeExpr.maxTupleLength

namespace TypeExpr

/-- The expressions that stand under a name: a word, and keys in brackets behind it. -/
inductive Named : TypeExpr → String → List String → Prop
  | string : Named (primitive .string) "string" []
  | number : Named (primitive .number) "number" []
  | boolean : Named (primitive .boolean) "boolean" []
  | true : Named (literal (.boolean true)) "true" []
  | false : Named (literal (.boolean false)) "false" []
  | null : Named (literal .null) "null" []
  | never : Named never "never" []
  | unknown : Named unknown "unknown" []
  | void : Named void "void" []
  | operation (name : String) : Named (operation name) "operations" [name]
  | reference {root : String} {rest : List String}
      (hroot : root ∈ ["components", "paths", "webhooks"]) :
      Named (reference ⟨root :: rest⟩) root rest

/-- The expressions without records, with two members at least in each union and intersection,
none of which is of the same kind. -/
inductive Readable : TypeExpr → Prop
  | named {e : TypeExpr} {word : String} {keys : List String} (h : Named e word keys) : Readable e
  | string (value : String) : Readable (literal (.string value))
  | number (value : JsonNumber) : Readable (literal (.number value))
  | list {element : TypeExpr} {bounds : ListBounds} {readonly : Bool}
      (helement : Readable element) (hbounds : bounds.Fits) :
      Readable (list element bounds readonly)
  | union {members : List TypeExpr} (htwo : 2 ≤ members.length)
      (hmembers : ∀ m ∈ members, Readable m) (hflat : ∀ ms, union ms ∉ members) :
      Readable (union members)
  | intersection {members : List TypeExpr} (htwo : 2 ≤ members.length)
      (hmembers : ∀ m ∈ members, Readable m) (hflat : ∀ ms, intersection ms ∉ members) :
      Readable (intersection members)

/-! ## 3. Tokens -/

/-- A word with keys behind it. -/
def nameTokens (word : String) (keys : List String) : List Token :=
  keys.foldl (fun ts key => ts ++ [.openBracket, .text key, .closeBracket]) [.word word]

/-- A number, which may be negative. -/
def numberTokens : List Char → List Token
  | '-' :: digits => [.minus, .number (String.ofList digits)]
  | digits => [.number (String.ofList digits)]

/-- A list without bounds. -/
def arrayTokens (element : List Token) (parens : Bool) : List Token :=
  (if parens then .openParen :: (element ++ [.closeParen]) else element)
    ++ [.openBracket, .closeBracket]

/-- A list whose items are written out. -/
def tupleTokens (items : List (List Token)) : List Token :=
  .openBracket :: (List.intercalate [.comma] items ++ [.closeBracket])

/-- A list. -/
def listTokens (element : List Token) (parens : Bool) : ListBounds → List Token
  | .unbounded => arrayTokens element parens
  | .exact n => tupleTokens (List.replicate n element)
  | .atLeast n => tupleTokens (List.replicate n element ++ [.dots :: arrayTokens element parens])

/-- The tokens of a member of an intersection: unions stand in parentheses. -/
def groupedTokens : TypeExpr → List Token → List Token
  | union _, ts => .openParen :: (ts ++ [.closeParen])
  | _, ts => ts

mutual
/-- The tokens of an expression that is read back. -/
def tokens : TypeExpr → List Token
  | primitive .string => nameTokens "string" []
  | primitive .number => nameTokens "number" []
  | primitive .boolean => nameTokens "boolean" []
  | literal (.string value) => [.text value]
  | literal (.number value) => numberTokens value.written.toList
  | literal (.boolean true) => nameTokens "true" []
  | literal (.boolean false) => nameTokens "false" []
  | literal .null => nameTokens "null" []
  | reference ⟨[]⟩ => nameTokens "unknown" []
  | reference ⟨root :: rest⟩ => nameTokens root rest
  | operation name => nameTokens "operations" [name]
  | list element bounds readonly =>
    (if readonly then [.readonly] else []) ++ listTokens (tokens element) element.needsParens bounds
  | union members => List.intercalate [.bar] (tokensAll members)
  | intersection members => List.intercalate [.ampersand] (tokensConstituents members)
  | never => nameTokens "never" []
  | unknown => nameTokens "unknown" []
  | void => nameTokens "void" []
  | record _ | pick _ _ | withHeaders _ _ => []

/-- The tokens of the members of a union. -/
def tokensAll : List TypeExpr → List (List Token)
  | [] => []
  | e :: es => tokens e :: tokensAll es

/-- The tokens of the members of an intersection. -/
def tokensConstituents : List TypeExpr → List (List Token)
  | [] => []
  | e :: es => groupedTokens e (tokens e) :: tokensConstituents es
end

theorem tokensAll_eq_map (es : List TypeExpr) : tokensAll es = es.map tokens := by
  induction es with
  | nil => rfl
  | cons e es ih => rw [tokensAll, ih, List.map_cons]

theorem tokensConstituents_eq_map (es : List TypeExpr) :
    tokensConstituents es = es.map fun e => groupedTokens e (tokens e) := by
  induction es with
  | nil => rfl
  | cons e es ih => rw [tokensConstituents, ih, List.map_cons]

theorem Named.tokens_eq {e : TypeExpr} {word : String} {keys : List String}
    (h : Named e word keys) : e.tokens = nameTokens word keys := by
  cases h <;> rw [tokens]

theorem numberTokens_cases (n : JsonNumber) : ∃ digits : String, Token.IsDecimal digits.toList ∧
    (n.written = digits ∧ numberTokens n.written.toList = [.number digits] ∨
      n.written = "-" ++ digits ∧ numberTokens n.written.toList = [.minus, .number digits]) := by
  obtain ⟨cs, hcs, hwritten⟩ := Token.exists_isDecimal_written n
  refine ⟨String.ofList cs, by rwa [String.toList_ofList],
    hwritten.imp (fun h => ⟨?_, ?_⟩) fun h => ⟨?_, ?_⟩⟩
  · rw [← h, String.ofList_toList]
  · rw [h, numberTokens]
    obtain ⟨c, cs, rfl, hc⟩ := hcs.exists_cons
    rintro _ heq
    rw [(List.cons.inj heq).1] at hc
    cases hc
  · rw [← String.ofList_toList (s := n.written), h, String.ofList_cons]
    rfl
  · rw [h, numberTokens]

/-! ## 4. What is written -/

section Spells

variable {text : String} {ts : List Token} {texts : List String} {tss : List (List Token)}

theorem spellsAlone_brackets : SpellsAlone ['[', ']'] [.openBracket, .closeBracket] :=
  (Token.spellsAlone_mark rfl).after_mark rfl

theorem spellsAlone_parens (h : Spells text.toList ts) :
    SpellsAlone ("(" ++ text ++ ")").toList (.openParen :: (ts ++ [.closeParen])) := by
  rw [String.toList_append, String.toList_append, List.append_assoc]
  exact (h.append_alone (by decide) (Token.spellsAlone_mark rfl)).after_mark rfl

theorem spellsAlone_array (h : Spells text.toList ts) (parens : Bool) :
    SpellsAlone (if parens then "(" ++ text ++ ")[]" else text ++ "[]").toList
      (arrayTokens ts parens) := by
  cases parens with
  | true =>
    have happend := (spellsAlone_parens h).append spellsAlone_brackets
    simpa [arrayTokens] using happend
  | false =>
    have happend := h.append_alone (by decide) spellsAlone_brackets
    simpa [arrayTokens] using happend

/-- Texts with commas between them in brackets are written with the tokens of a tuple. -/
theorem spellsAlone_tuple
    (h : List.Forall₂ (fun text ts => Spells (String.toList text) ts) texts tss)
    (hsome : texts ≠ []) :
    SpellsAlone ("[" ++ (Text.join ", " texts ++ "]")).toList (tupleTokens tss) := by
  have hcomma : SpellsAlone [',', ' '] [.comma] := Token.spellsAlone_space.after_mark rfl
  have hitems := Token.spells_intercalate (by decide) hcomma
    (List.forall₂_map_left_iff.mpr h) (by simpa using hsome)
  rw [String.toList_append, String.toList_append, Text.join, String.toList_intercalate]
  exact (hitems.append_alone (by decide) (Token.spellsAlone_mark rfl)).after_mark rfl

/-- A list may be marked as read only. -/
theorem spells_marked (h : Spells text.toList ts) (readonly : Bool) :
    Spells ((if readonly then "readonly " else "") ++ text).toList
      ((if readonly then [.readonly] else []) ++ ts) := by
  cases readonly with
  | true =>
    have hmark := (Token.spells_word (w := "readonly") (by decide)).append_alone (by decide)
      Token.spellsAlone_space
    rw [String.toList_append]
    exact hmark.append_spells h
  | false => simpa using h

theorem forall₂_replicate {α β : Type} {R : α → β → Prop} {a : α} {b : β} (h : R a b) (n : Nat) :
    List.Forall₂ R (List.replicate n a) (List.replicate n b) := by
  induction n with
  | zero => exact .nil
  | succ n ih => exact .cons h ih

/-- **A list is written with its tokens.** -/
theorem spells_renderList (h : Spells text.toList ts) (parens : Bool) {bounds : ListBounds}
    (hfits : bounds.Fits) (readonly : Bool) :
    Spells (renderList text parens bounds readonly).toList
      ((if readonly then [.readonly] else []) ++ listTokens ts parens bounds) := by
  have hitems := forall₂_replicate (R := fun text ts => Spells (String.toList text) ts) h
  cases bounds with
  | unbounded => exact spells_marked (spellsAlone_array h parens).spells readonly
  | exact n =>
    have hsome : List.replicate n text ≠ [] := by
      simpa using Nat.ne_of_gt hfits.1
    simp only [renderList, if_neg (Nat.not_lt.mpr hfits.2), String.append_assoc]
    exact spells_marked (spellsAlone_tuple (hitems n) hsome).spells readonly
  | atLeast n =>
    have hdots : Spells ("..." ++ if parens then "(" ++ text ++ ")[]" else text ++ "[]").toList
        (.dots :: arrayTokens ts parens) := by
      rw [String.toList_append]
      exact (Token.spellsAlone_dots.append (spellsAlone_array h parens)).spells
    have hall := List.rel_append (hitems n) (.cons hdots .nil)
    simp only [renderList, if_neg (Nat.not_lt.mpr hfits.2), String.append_assoc]
    exact spells_marked (spellsAlone_tuple hall (by simp)).spells readonly

/-- Keys in brackets follow a word. -/
theorem spells_keys : ∀ (keys : List String) {text : String} {ts : List Token},
    Spells text.toList ts →
    Spells (keys.foldl (fun text key => text ++ "[" ++ Text.quote key ++ "]") text).toList
      (keys.foldl (fun ts key => ts ++ [.openBracket, .text key, .closeBracket]) ts)
  | [], _, _, h => h
  | key :: keys, text, ts, h => by
    have hquoted := (Token.spellsAlone_quote key).append (Token.spellsAlone_mark (c := ']') rfl)
    have hkey := hquoted.after_mark (c := '[') rfl
    have happend := (h.append_alone (by decide) hkey).spells
    refine spells_keys keys ?_
    simpa [String.toList_append] using happend

theorem spells_number (n : JsonNumber) :
    Spells n.written.toList (numberTokens n.written.toList) := by
  obtain ⟨digits, hdigits, ⟨hwritten, htokens⟩ | ⟨hwritten, htokens⟩⟩ := numberTokens_cases n
  · rw [htokens, hwritten]
    simpa using Token.spells_decimal hdigits
  · rw [htokens, hwritten, String.toList_append]
    simpa using (Token.spellsAlone_mark (c := '-') rfl).append_spells (Token.spells_decimal hdigits)

theorem Named.renderAt_eq {e : TypeExpr} {word : String} {keys : List String}
    (h : Named e word keys) (level : Nat) : renderAt level e
      = keys.foldl (fun text key => text ++ "[" ++ Text.quote key ++ "]") word := by
  cases h with
  | operation name =>
    have hopen : "operations[" = "operations" ++ "[" := by decide
    rw [renderAt.eq_def, List.foldl_cons, List.foldl_nil, ← hopen]
  | _ =>
    rw [renderAt.eq_def]
    rfl

theorem Named.isWord {e : TypeExpr} {word : String} {keys : List String}
    (h : Named e word keys) : Token.isWord word.toList = Bool.true ∧ word ≠ "readonly" := by
  cases h with
  | reference hroot =>
    simp only [List.mem_cons, List.not_mem_nil, or_false] at hroot
    rcases hroot with rfl | rfl | rfl <;> exact ⟨by decide, by decide⟩
  | _ => exact ⟨by decide, by decide⟩

/-- A name is written with its tokens. -/
theorem Named.spells {e : TypeExpr} {word : String} {keys : List String}
    (h : Named e word keys) (level : Nat) : Spells (renderAt level e).toList e.tokens := by
  obtain ⟨hword, hne⟩ := h.isWord
  have hspells := Token.spells_word hword
  rw [Token.ofWord, if_neg hne] at hspells
  rw [h.renderAt_eq, h.tokens_eq]
  exact spells_keys keys hspells

theorem renderAll_eq_map (level : Nat) (es : List TypeExpr) :
    renderAll level es = es.map (renderAt level) := by
  induction es with
  | nil => rw [renderAll, List.map_nil]
  | cons e es ih => rw [renderAll, ih, List.map_cons]

theorem spells_renderAll {level : Nat} {es : List TypeExpr}
    (h : ∀ e ∈ es, Spells (renderAt level e).toList e.tokens) :
    List.Forall₂ (fun text ts => Spells (String.toList text) ts) (renderAll level es)
      (tokensAll es) := by
  rw [renderAll_eq_map, tokensAll_eq_map, List.forall₂_map_left_iff, List.forall₂_map_right_iff]
  exact List.forall₂_same.mpr h

/-- The members of an intersection are written with their tokens, unions in parentheses. -/
theorem spells_renderConstituents {level : Nat} {es : List TypeExpr}
    (h : ∀ e ∈ es, Spells (renderAt level e).toList e.tokens) :
    List.Forall₂ (fun text ts => Spells (String.toList text) ts) (renderConstituents level es)
      (tokensConstituents es) := by
  induction es with
  | nil =>
    rw [renderConstituents, tokensConstituents]
    exact .nil
  | cons e es ih =>
    obtain ⟨hfirst, hrest⟩ := List.forall_mem_cons.mp h
    rw [renderConstituents.eq_def, tokensConstituents]
    refine .cons ?_ (ih hrest)
    cases e with
    | union members => exact (spellsAlone_parens hfirst).spells
    | _ => exact hfirst

/-- Texts with a mark between them. -/
theorem spells_join (mark : Char) {t : Token} (hmark : Token.mark? mark = some t)
    (h : List.Forall₂ (fun text ts => Spells (String.toList text) ts) texts tss)
    (hsome : 0 < tss.length) :
    Spells (Text.join (String.ofList [' ', mark, ' ']) texts).toList (List.intercalate [t] tss) := by
  have hseparator : SpellsAlone [' ', mark, ' '] [t] :=
    Token.spellsAlone_space.append (Token.spellsAlone_space.after_mark hmark)
  have htexts : texts.map String.toList ≠ [] := by
    rw [← h.length_eq] at hsome
    simpa using List.ne_nil_of_length_pos hsome
  rw [Text.join, String.toList_intercalate, String.toList_ofList]
  exact Token.spells_intercalate (by decide) hseparator (List.forall₂_map_left_iff.mpr h) htexts

/-- **An expression is written with its tokens**, on any level. -/
theorem Readable.spells {e : TypeExpr} (h : Readable e) (level : Nat) :
    Spells (renderAt level e).toList e.tokens := by
  induction h with
  | named h => exact h.spells level
  | string value =>
    rw [renderAt.eq_def, tokens]
    exact (Token.spellsAlone_quote value).spells
  | number value =>
    rw [renderAt.eq_def, tokens]
    exact spells_number value
  | @list element bounds readonly helement hbounds ih =>
    rw [renderAt.eq_def, tokens]
    exact spells_renderList ih _ hbounds readonly
  | @union members htwo hmembers hflat ih =>
    have hsome : 0 < (tokensAll members).length := by
      rw [tokensAll_eq_map, List.length_map]
      omega
    rw [renderAt.eq_def, tokens]
    exact spells_join '|' rfl (spells_renderAll ih) hsome
  | @intersection members htwo hmembers hflat ih =>
    have hsome : 0 < (tokensConstituents members).length := by
      rw [tokensConstituents_eq_map, List.length_map]
      omega
    rw [renderAt.eq_def, tokens]
    exact spells_join '&' rfl (spells_renderConstituents ih) hsome

end Spells

end TypeExpr

end ApiTypes
