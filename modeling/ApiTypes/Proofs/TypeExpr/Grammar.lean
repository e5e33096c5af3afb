/-
# Reading types

TypeScript reads a type from its tokens with four strengths of binding: brackets behind a type bind
tightest, then the mark of lists that are read only, then the mark of intersections and then that
of unions.  Parentheses group, brackets around types make a tuple, and three dots in a tuple stand
before a list of further items.  What is read is a tree of its own, a `Spelling`.

* `Spelling.read?` reads a text; `Spelling.typeAt` reads tokens that are nested so deep at most.
* `Spelling.Takes read marks ts s`: the tokens are read as the tree before anything but the marks,
  and `Spelling.Atomic` says so of a type with which any brackets go.
* `Spelling.takes_items` and `Spelling.takes_group` read lists of types with marks between them.
-/
import ApiTypes.Proofs.TypeExpr.Tokens

namespace ApiTypes

/-- A type as it is spelled. -/
inductive Spelling where
  | word (name : String)
  | text (value : String)
  | number (written : String)
  /-- A member of a type, by its name in brackets. -/
  | index (object : Spelling) (key : String)
  | array (element : Spelling)
  | tuple (items : List Spelling)
  /-- The further items of a tuple. -/
  | spread (list : Spelling)
  | readonly (list : Spelling)
  | union (members : List Spelling)
  | intersection (members : List Spelling)

namespace Spelling

/-! ## 1. Reading -/

/-- What reads a type at the front of some tokens, and leaves what follows it. -/
abbrev Reader := List Token → Option (Spelling × List Token)

/-- Types with a mark between each two.  A type takes at least a token. -/
def items (read : Reader) (mark : Token) (ts : List Token) :
    Option (List Spelling × List Token) :=
  match read ts with
  | none => none
  | some (s, []) => some ([s], [])
  | some (s, t :: rest) =>
    if t = mark ∧ rest.length < ts.length then
      (items read mark rest).map fun (ss, rest) => (s :: ss, rest)
    else some ([s], t :: rest)
termination_by ts.length
decreasing_by
  rename_i h
  exact h.2

/-- Types with a mark between each two, put together; a single one stands for itself. -/
def group (make : List Spelling → Spelling) (mark : Token) (read : Reader) : Reader := fun ts =>
  match items read mark ts with
  | none => none
  | some ([s], rest) => some (s, rest)
  | some (ss, rest) => some (make ss, rest)

/-- A type with the brackets behind it. -/
def suffixes : Spelling → List Token → Spelling × List Token
  | s, .openBracket :: .closeBracket :: ts => suffixes (.array s) ts
  | s, .openBracket :: .text key :: .closeBracket :: ts => suffixes (.index s key) ts
  | s, ts => (s, ts)

/-- An item of a tuple. -/
def item (type : Reader) : Reader
  | .dots :: ts => (type ts).map fun (s, rest) => (.spread s, rest)
  | ts => type ts

/-- A type without brackets behind it. -/
def primary (type : Reader) : Reader
  | .word name :: ts => some (.word name, ts)
  | .text value :: ts => some (.text value, ts)
  | .number digits :: ts => some (.number digits, ts)
  | .minus :: .number digits :: ts => some (.number ("-" ++ digits), ts)
  | .openParen :: ts =>
    match type ts with
    | some (s, .closeParen :: rest) => some (s, rest)
    | _ => none
  | .openBracket :: ts =>
    match items (item type) .comma ts with
    | some (ss, .closeBracket :: rest) => some (.tuple ss, rest)
    | _ => none
  | _ => none

/-- A type with the brackets behind it, which bind tightest. -/
def suffixed (type : Reader) : Reader := fun ts =>
  (primary type ts).map fun (s, rest) => suffixes s rest

/-- Whether a type may be marked as read only. -/
def isList : Spelling → Bool
  | array _ => true
  | tuple _ => true
  | _ => false

/-- A type that is no union and no intersection, unless in parentheses. -/
def operand (type : Reader) : Reader
  | .readonly :: ts =>
    match suffixed type ts with
    | some (s, rest) => if s.isList then some (.readonly s, rest) else none
    | none => none
  | ts => suffixed type ts

/-- A type in which parentheses and brackets around types are nested to a depth at most. -/
def typeAt : Nat → Reader
  | 0 => fun _ => none
  | depth + 1 => group .union .bar (group .intersection .ampersand (operand (typeAt depth)))

/-- The type that a text spells, if it spells one.  Parentheses and brackets are tokens, so no type
is nested deeper than it has tokens. -/
def read? (text : String) : Option Spelling :=
  match Token.all? text.toList with
  | none => none
  | some ts =>
    match typeAt (ts.length + 1) ts with
    | some (s, []) => some s
    | _ => none

/-! ## 2. Tokens that are read -/

/-- What follows does not begin with one of the marks. -/
def Stops (marks rest : List Token) : Prop := ∀ t ∈ rest.head?, t ∉ marks

/-- Some tokens are read as a tree before anything but the marks. -/
def Takes (read : Reader) (marks ts : List Token) (s : Spelling) : Prop :=
  ∀ rest, Stops marks rest → read (ts ++ rest) = some (s, rest)

variable {read type : Reader} {mark : Token} {marks ts : List Token} {s : Spelling}
  {make : List Spelling → Spelling} {tss : List (List Token)} {ss : List Spelling}

theorem stops_cons {t : Token} {rest : List Token} (h : t ∉ marks) : Stops marks (t :: rest) := by
  intro u hu
  cases hu
  exact h

theorem Stops.of_cons {rest : List Token} (h : Stops (mark :: marks) rest) : Stops marks rest :=
  fun t ht hmem => h t ht (List.mem_cons_of_mem _ hmem)

/-- **Types with marks between them are read one by one.** -/
theorem takes_items (h : List.Forall₂ (Takes read marks) tss ss) (hmark : mark ∉ marks)
    (hsome : tss ≠ []) {rest : List Token} (hrest : Stops (mark :: marks) rest) :
    items read mark (List.intercalate [mark] tss ++ rest) = some (ss, rest) := by
  induction h with
  | nil => exact absurd rfl hsome
  | @cons ts s tss ss hfirst htail ih =>
    cases htail with
    | nil =>
      rw [List.intercalate_singleton, items, hfirst rest hrest.of_cons]
      cases rest with
      | nil => rfl
      | cons t rest =>
        have ht : t ≠ mark := fun heq => hrest t rfl (heq ▸ List.mem_cons_self)
        simp only [ht, false_and, if_false]
    | cons hsecond htail =>
      rw [List.intercalate_cons_cons, List.append_assoc, List.append_assoc, List.singleton_append,
        items, hfirst _ (stops_cons hmark)]
      simp only [List.length_append, List.length_cons, true_and]
      rw [if_pos (by omega), ih (List.cons_ne_nil _ _)]
      rfl

/-- A single type is read for itself where others might follow. -/
theorem Takes.group (h : Takes read marks ts s) (hmark : mark ∉ marks) :
    Takes (group make mark read) (mark :: marks) ts s := by
  intro rest hrest
  have hitems := takes_items (.cons h .nil) hmark (List.cons_ne_nil _ _) hrest
  rw [List.intercalate_singleton] at hitems
  rw [Spelling.group, hitems]

theorem takes_group (h : List.Forall₂ (Takes read marks) tss ss) (hmark : mark ∉ marks)
    (htwo : 2 ≤ ss.length) :
    Takes (Spelling.group make mark read) (mark :: marks) (List.intercalate [mark] tss)
      (make ss) := by
  intro rest hrest
  have hsome : tss ≠ [] := by
    rintro rfl
    cases h
    cases htwo
  rw [Spelling.group, takes_items h hmark hsome hrest]
  match ss, htwo with
  | _ :: _ :: _, _ => rfl

/-- What some tokens begin with is not the dots before further items. -/
def Undotted (ts : List Token) : Prop := ∃ t us, ts = t :: us ∧ t ≠ .dots

theorem Takes.item (h : Takes type marks ts s) (hfirst : Undotted ts) :
    Takes (item type) marks ts s := by
  obtain ⟨t, us, rfl, ht⟩ := hfirst
  intro rest hrest
  rw [List.cons_append, Spelling.item]
  · exact h rest hrest
  · exact fun _ heq => ht (List.cons.inj heq).1

theorem Takes.spread (h : Takes type marks ts s) :
    Takes (Spelling.item type) marks (.dots :: ts) (.spread s) := by
  intro rest hrest
  rw [List.cons_append, Spelling.item, h rest hrest]
  rfl

/-! ## 3. Atoms -/

/-- Some tokens are read as a tree together with whatever brackets follow. -/
structure Atomic (type : Reader) (ts : List Token) (s : Spelling) : Prop where
  first : ∃ t us, ts = t :: us ∧ t ≠ .readonly ∧ t ≠ .dots
  reads : ∀ rest, suffixed type (ts ++ rest) = some (suffixes s rest)

theorem atomic_word {name : String} : Atomic type [.word name] (.word name) :=
  ⟨⟨_, _, rfl, nofun, nofun⟩, fun _ => rfl⟩

theorem atomic_text {value : String} : Atomic type [.text value] (.text value) :=
  ⟨⟨_, _, rfl, nofun, nofun⟩, fun _ => rfl⟩

theorem atomic_number {digits : String} : Atomic type [.number digits] (.number digits) :=
  ⟨⟨_, _, rfl, nofun, nofun⟩, fun _ => rfl⟩

theorem atomic_negative {digits : String} :
    Atomic type [.minus, .number digits] (.number ("-" ++ digits)) :=
  ⟨⟨_, _, rfl, by decide, by decide⟩, fun _ => rfl⟩

theorem atomic_paren (h : Takes type marks ts s) (hclose : Token.closeParen ∉ marks) :
    Atomic type (.openParen :: (ts ++ [.closeParen])) s := by
  refine ⟨⟨_, _, rfl, by decide, by decide⟩, fun rest => ?_⟩
  rw [List.cons_append, List.append_assoc, suffixed, primary, List.singleton_append,
    h _ (stops_cons hclose)]
  rfl

theorem atomic_tuple (h : List.Forall₂ (Takes (Spelling.item type) marks) tss ss)
    (hsome : tss ≠ []) (hcomma : Token.comma ∉ marks) (hclose : Token.closeBracket ∉ marks) :
    Atomic type (.openBracket :: (List.intercalate [.comma] tss ++ [.closeBracket]))
      (.tuple ss) := by
  refine ⟨⟨_, _, rfl, by decide, by decide⟩, fun rest => ?_⟩
  have hstops : Stops (.comma :: marks) (.closeBracket :: rest) :=
    stops_cons (by simp [hclose])
  rw [List.cons_append, List.append_assoc, suffixed, primary, List.singleton_append,
    takes_items h hcomma hsome hstops]
  rfl

theorem Atomic.append {us : List Token} {s' : Spelling} (h : Atomic type ts s)
    (hs : ∀ rest, suffixes s (us ++ rest) = suffixes s' rest) : Atomic type (ts ++ us) s' := by
  obtain ⟨⟨t, ts', rfl, hfirst⟩, hreads⟩ := h
  refine ⟨⟨t, ts' ++ us, rfl, hfirst⟩, fun rest => ?_⟩
  rw [List.append_assoc, hreads, hs]

theorem Atomic.array (h : Atomic type ts s) :
    Atomic type (ts ++ [.openBracket, .closeBracket]) (.array s) :=
  h.append fun _ => by
    rw [List.cons_append, List.singleton_append, suffixes]

theorem Atomic.index {key : String} (h : Atomic type ts s) :
    Atomic type (ts ++ [.openBracket, .text key, .closeBracket]) (.index s key) :=
  h.append fun _ => by
    rw [List.cons_append, List.cons_append, List.singleton_append, suffixes]

/-- Where no bracket follows, there are no brackets behind a type. -/
theorem suffixes_of_stops {rest : List Token} (h : Stops [.openBracket] rest) :
    suffixes s rest = (s, rest) := by
  unfold suffixes
  split
  · exact absurd (List.mem_singleton_self _) (h .openBracket rfl)
  · exact absurd (List.mem_singleton_self _) (h .openBracket rfl)
  · rfl

theorem Atomic.takes (h : Atomic type ts s) : Takes (operand type) [.openBracket] ts s := by
  obtain ⟨⟨t, us, rfl, hreadonly, _⟩, hreads⟩ := h
  intro rest hrest
  have hread := hreads rest
  rw [suffixes_of_stops hrest] at hread
  rw [List.cons_append, operand]
  · exact hread
  · exact fun _ heq => hreadonly (List.cons.inj heq).1

theorem Atomic.readonly (h : Atomic type ts s) (hlist : s.isList = true) :
    Takes (operand type) [.openBracket] (.readonly :: ts) (.readonly s) := by
  intro rest hrest
  rw [List.cons_append, operand, h.reads, suffixes_of_stops hrest]
  simp only [hlist, if_true]

end Spelling

end ApiTypes
