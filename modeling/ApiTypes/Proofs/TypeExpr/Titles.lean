/-
# The names of types

The types of single values, the empty record and the nodes of a document are written as names: a
word, and the keys of a node in brackets behind it.  A document is free to call a section of its
own as it likes, and then a node may be written as another type is.  Where the section is called by
a word of its own it cannot.

* `Pointer.distinctive`: a node whose name is the name of no other type.
* `TypeExpr.Titled` lists the names, and `TypeExpr.nameText` is how they are written.
* `TypeExpr.Titled.eq_of_text`: no two expressions are written as one name.
-/
import ApiTypes.Proofs.Text.Nesting
import ApiTypes.TypeExpr.Render

namespace ApiTypes

open Text (Nested isPlain)

/-! ## 1. Names -/

/-- What can stand in the name of a type. -/
def isNameChar (c : Char) : Bool := isPlain c && !c ∈ [' ', '|', '&', ';', ':', ',']

/-- The names of types that are no nodes. -/
def reservedNames : List String :=
  ["string", "number", "boolean", "true", "false", "null", "never", "unknown"]

/-- Whether a text is the name of a type, and not the one of another type or a number. -/
def isOwnName (name : String) : Bool :=
  match name.toList with
  | [] => false
  | c :: cs => !c.isDigit && c ≠ '-' && (c :: cs).all isNameChar && name ∉ reservedNames

/-- **A node whose name is the name of no other type.** -/
def Pointer.distinctive (p : Pointer) : Bool :=
  match p.segments with
  | [] => false
  | root :: _ => isOwnName root

namespace TypeExpr

/-- A word with keys in brackets behind it. -/
def nameText (word : String) (keys : List String) : List Char :=
  word.toList ++ keys.flatMap fun key => '[' :: ((Text.quote key).toList ++ [']'])

/-- The expressions that are written as a name. -/
inductive Titled : TypeExpr → String → List String → Prop
  | string : Titled (primitive .string) "string" []
  | number : Titled (primitive .number) "number" []
  | boolean : Titled (primitive .boolean) "boolean" []
  | true : Titled (literal (.boolean true)) "true" []
  | false : Titled (literal (.boolean false)) "false" []
  | null : Titled (literal .null) "null" []
  | never : Titled never "never" []
  | unknown : Titled unknown "unknown" []
  | empty : Titled (closed []) "Record<string, never>" []
  | reference {root : String} {rest : List String} (h : isOwnName root = Bool.true) :
      Titled (reference ⟨root :: rest⟩) root rest

section Titled

variable {e e' : TypeExpr} {word word' : String} {keys keys' : List String} {level : Nat}

theorem toList_foldl_keys : ∀ (keys : List String) (text : String),
    (keys.foldl (fun text key => text ++ "[" ++ Text.quote key ++ "]") text).toList
      = nameText text keys
  | [], text => by rw [List.foldl_nil, nameText, List.flatMap_nil, List.append_nil]
  | key :: keys, text => by
    rw [List.foldl_cons, toList_foldl_keys keys]
    simp [nameText]

/-- **A name is written as such.** -/
theorem Titled.toList_renderAt (h : Titled e word keys) :
    (renderAt level e).toList = nameText word keys := by
  rw [← toList_foldl_keys]
  cases h with
  | empty =>
    rw [closed, renderAt.eq_def]
    simp only [renderRecord, List.isEmpty_nil, Option.isNone_none, Bool.and_self, if_true]
    rfl
  | _ =>
    rw [renderAt.eq_def]
    rfl

theorem isOwnName_iff {name : String} : isOwnName name = Bool.true ↔
    (∃ c cs, name.toList = c :: cs ∧ c.isDigit = Bool.false ∧ c ≠ '-') ∧
      name.toList.all isNameChar = Bool.true ∧ name ∉ reservedNames := by
  rw [isOwnName]
  cases h : name.toList with
  | nil => simp
  | cons c cs => simp [and_assoc]

theorem Titled.word_cases (h : Titled e word keys) :
    (e = closed [] ∧ word = "Record<string, never>" ∧ keys = []) ∨
      ((∃ c cs, word.toList = c :: cs ∧ c.isDigit = Bool.false ∧ c ≠ '-') ∧
        word.toList.all isNameChar = Bool.true) := by
  cases h with
  | empty => exact .inl ⟨rfl, rfl, rfl⟩
  | reference h =>
    obtain ⟨hfirst, hall, _⟩ := isOwnName_iff.mp h
    exact .inr ⟨hfirst, hall⟩
  | _ => exact .inr ⟨⟨_, _, rfl, by decide, by decide⟩, by decide⟩

/-- **No two expressions have one name.** -/
theorem Titled.eq (h : Titled e word keys) (h' : Titled e' word keys) : e = e' := by
  have hreserved : ∀ w ∈ reservedNames, isOwnName w ≠ Bool.true :=
    fun w hw h => (isOwnName_iff.mp h).2.2 hw
  have hempty : isOwnName "Record<string, never>" ≠ Bool.true := by decide
  generalize hword : word = word' at h'
  cases h <;> cases h' <;>
    first
      | rfl
      | exact absurd hword (by decide)
      | (subst hword; rfl)
      | (subst hword; exact absurd ‹_› hempty)

theorem keys_inj : ∀ {keys keys' : List String},
    (keys.flatMap fun key => '[' :: ((Text.quote key).toList ++ [']']))
      = (keys'.flatMap fun key => '[' :: ((Text.quote key).toList ++ [']'])) → keys = keys'
  | [], [], _ => rfl
  | [], _ :: _, h => by cases h
  | _ :: _, [], h => by cases h
  | key :: keys, key' :: keys', h => by
    simp only [List.flatMap_cons, List.cons_append, List.append_assoc, List.cons.injEq,
      true_and] at h
    obtain ⟨hkey, hrest⟩ := Text.quote_append_inj h
    rw [hkey, keys_inj (List.cons.inj hrest).2]

/-- No quotation mark and hardly a bracket is part of a word. -/
theorem Titled.notMem (h : Titled e word keys) {c : Char}
    (hc : c ∈ ['[', ']', ')', '"', '\x7b']) : c ∉ word.toList := by
  intro hmem
  rcases h.word_cases with ⟨_, rfl, _⟩ | ⟨_, hall⟩
  · have hnone :
        ("Record<string, never>".toList.all (· ∉ ['[', ']', ')', '"', '\x7b'])) = Bool.true := by
      decide
    exact of_decide_eq_true (List.all_eq_true.mp hnone c hmem) hc
  · have hname := List.all_eq_true.mp hall c hmem
    simp only [List.mem_cons, List.not_mem_nil, or_false] at hc
    rcases hc with rfl | rfl | rfl | rfl | rfl <;> cases hname

/-- **A name is told from its text.** -/
theorem Titled.eq_of_text (h : Titled e word keys) (h' : Titled e' word' keys')
    (heq : nameText word keys = nameText word' keys') : e = e' := by
  have hword : ∀ {e word keys}, Titled e word keys →
      ∀ c ∈ word.toList, (c ≠ '[' : Bool) = Bool.true :=
    fun h c hc => decide_eq_true fun hbracket => h.notMem (by simp) (hbracket ▸ hc)
  have hkeys : ∀ keys : List String,
      ∀ c ∈ (keys.flatMap fun key => '[' :: ((Text.quote key).toList ++ [']'])).head?,
        (c ≠ '[' : Bool) = Bool.false := by
    intro keys c hc
    cases keys with
    | nil => cases hc
    | cons key keys =>
      cases hc
      rfl
  obtain ⟨htake, hdrop⟩ := Token.span_append (hword h) (hkeys keys)
  obtain ⟨htake', hdrop'⟩ := Token.span_append (hword h') (hkeys keys')
  rw [nameText, nameText] at heq
  rw [heq, htake'] at htake
  rw [heq, hdrop'] at hdrop
  have hsame : word' = word := String.toList_injective htake
  subst hsame
  rw [keys_inj hdrop] at h'
  exact h.eq h'

theorem Titled.nested (h : Titled e word keys) :
    Nested ['&', '|', ',', ';', ':'] (nameText word keys) := by
  have hword : Nested ['&', '|', ',', ';', ':'] word.toList := by
    rcases h.word_cases with ⟨_, rfl, _⟩ | ⟨_, hall⟩
    · have hchars : ∀ {marks cs : List Char}, (cs.all fun c => isPlain c && c ∉ marks) = Bool.true →
          Nested marks cs := fun h => Text.nested_chars fun c hc => by
        simpa using List.all_eq_true.mp h c hc
      have hinside : Nested [] "string, never".toList := hchars (by decide)
      have hbefore : Nested ['&', '|', ',', ';', ':'] "Record".toList := hchars (by decide)
      exact hbefore.append (Text.nested_group '<' '>' rfl rfl hinside)
    · refine Text.nested_chars fun c hc => ?_
      have hname := List.all_eq_true.mp hall c hc
      simp only [isNameChar, Bool.and_eq_true, Bool.not_eq_true', decide_eq_false_iff_not,
        List.mem_cons, List.not_mem_nil, or_false, not_or] at hname ⊢
      tauto
  exact hword.append (Text.nested_flatMap fun key _ =>
    Text.nested_group '[' ']' rfl rfl (Text.nested_quote key))

end Titled

end TypeExpr

end ApiTypes
