/-
# Types are read back

What is written for an expression is read as a type again, and as that expression only.  The tokens
of an expression are read by the reader of its own strength of binding and by those of the weaker
ones, so what stands without parentheses stands where such a reader looks for it; what stands in
parentheses or brackets is read one level deeper.

* `TypeExpr.spelling` is the type that an expression is read as, `TypeExpr.Alike` says which
  expressions are the same but for numbers that are written alike.
* `TypeExpr.Reads`, `TypeExpr.Readable.reads`: the tokens of an expression are read as its spelling.
* `TypeExpr.alike_of_spelling`: expressions with one spelling are alike.
* `TypeExpr.read_render` is the result for the text.
-/
import ApiTypes.Proofs.TypeExpr.Grammar
import ApiTypes.Proofs.TypeExpr.Spelled

namespace ApiTypes

/-! ## 1. What an expression is read as -/

namespace Spelling

/-- A word with keys behind it. -/
def name (word : String) (keys : List String) : Spelling := keys.foldl .index (.word word)

/-- A list, but for its mark. -/
def list (element : Spelling) : ListBounds → Spelling
  | .unbounded => .array element
  | .exact n => .tuple (List.replicate n element)
  | .atLeast n => .tuple (List.replicate n element ++ [.spread (.array element)])

theorem isList_list (s : Spelling) (bounds : ListBounds) : (list s bounds).isList = true := by
  cases bounds <;> rfl

/-- A list that may be marked as read only. -/
def marked (readonly : Bool) (list : Spelling) : Spelling :=
  if readonly then .readonly list else list

end Spelling

namespace TypeExpr

open Spelling (Takes Atomic Undotted typeAt operand group)

mutual
/-- The type that an expression is read as; records are no part of the language. -/
def spelling : TypeExpr → Spelling
  | primitive .string => .name "string" []
  | primitive .number => .name "number" []
  | primitive .boolean => .name "boolean" []
  | literal (.string value) => .text value
  | literal (.number value) => .number value.written
  | literal (.boolean true) => .name "true" []
  | literal (.boolean false) => .name "false" []
  | literal .null => .name "null" []
  | reference ⟨[]⟩ => .name "unknown" []
  | reference ⟨root :: rest⟩ => .name root rest
  | operation name => .name "operations" [name]
  | list element bounds readonly => .marked readonly (.list (spelling element) bounds)
  | union members => .union (spellings members)
  | intersection members => .intersection (spellings members)
  | never => .name "never" []
  | unknown => .name "unknown" []
  | void => .name "void" []
  | record _ | pick _ _ | withHeaders _ _ => .tuple []

/-- The types that expressions are read as. -/
def spellings : List TypeExpr → List Spelling
  | [] => []
  | e :: es => spelling e :: spellings es
end

theorem spellings_eq_map (es : List TypeExpr) : spellings es = es.map spelling := by
  induction es with
  | nil => rfl
  | cons e es ih => rw [spellings, ih, List.map_cons]

theorem Named.spelling_eq {e : TypeExpr} {word : String} {keys : List String}
    (h : Named e word keys) : e.spelling = .name word keys := by
  cases h <;> rw [spelling]

theorem groupedTokens_of_ne {e : TypeExpr} (h : ∀ ms, e ≠ union ms) (ts : List Token) :
    groupedTokens e ts = ts := by
  unfold groupedTokens
  split
  · exact absurd rfl (h _)
  · rfl

/-! ## 2. Reading tokens -/

/-- The tokens of an expression are read as its spelling at each strength of binding that allows
for it, where parentheses and brackets are nested to a depth at most. -/
structure Reads (depth : Nat) (e : TypeExpr) : Prop where
  first : Undotted e.tokens
  type : Takes (typeAt (depth + 1)) [.bar, .ampersand, .openBracket] e.tokens e.spelling
  constituent : (∀ ms, e ≠ union ms) →
    Takes (group .intersection .ampersand (operand (typeAt depth))) [.ampersand, .openBracket]
      e.tokens e.spelling
  operand : (∀ ms, e ≠ union ms) → (∀ ms, e ≠ intersection ms) →
    Takes (operand (typeAt depth)) [.openBracket] e.tokens e.spelling
  atomic : e.needsParens = false → Atomic (typeAt depth) e.tokens e.spelling

section Reads

variable {depth : Nat} {e element : TypeExpr} {members : List TypeExpr}

/-- What binds more than the mark of intersections is read as a type. -/
theorem takes_typeAt {ts : List Token} {s : Spelling}
    (h : Takes (Spelling.operand (typeAt depth)) [.openBracket] ts s) :
    Takes (typeAt (depth + 1)) [.bar, .ampersand, .openBracket] ts s :=
  (h.group (by decide)).group (by decide)

theorem Reads.of_operand (hfirst : Undotted e.tokens)
    (h : Takes (Spelling.operand (typeAt depth)) [.openBracket] e.tokens e.spelling)
    (hatomic : e.needsParens = false → Atomic (typeAt depth) e.tokens e.spelling) :
    Reads depth e where
  first := hfirst
  type := takes_typeAt h
  constituent := fun _ => h.group (by decide)
  operand := fun _ _ => h
  atomic := hatomic

theorem Reads.of_atomic (h : Atomic (typeAt depth) e.tokens e.spelling) : Reads depth e := by
  obtain ⟨t, ts, htokens, _, hdots⟩ := h.first
  exact .of_operand ⟨t, ts, htokens, hdots⟩ h.takes fun _ => h

theorem atomic_keys {type : Spelling.Reader} : ∀ (keys : List String) {ts : List Token}
    {s : Spelling}, Atomic type ts s →
    Atomic type (keys.foldl (fun ts key => ts ++ [.openBracket, .text key, .closeBracket]) ts)
      (keys.foldl .index s)
  | [], _, _, h => h
  | _ :: keys, _, _, h => atomic_keys keys h.index

theorem atomic_name {type : Spelling.Reader} {word : String} {keys : List String} :
    Atomic type (nameTokens word keys) (.name word keys) :=
  atomic_keys keys Spelling.atomic_word

theorem atomic_written {type : Spelling.Reader} (n : JsonNumber) :
    Atomic type (numberTokens n.written.toList) (.number n.written) := by
  obtain ⟨digits, _, ⟨hwritten, htokens⟩ | ⟨hwritten, htokens⟩⟩ := numberTokens_cases n
  · rw [htokens, hwritten]
    exact Spelling.atomic_number
  · rw [htokens, hwritten]
    exact Spelling.atomic_negative

theorem length_arrayTokens (ts : List Token) (parens : Bool) :
    (arrayTokens ts parens).length = ts.length + if parens then 4 else 2 := by
  cases parens <;> simp [arrayTokens]

theorem length_le_tupleTokens {ts : List Token} {tss : List (List Token)} (h : ts ∈ tss) :
    ts.length + 2 ≤ (tupleTokens tss).length := by
  have hle : ts.length ≤ (List.intercalate [.comma] tss).length :=
    (Text.infix_intercalate h).length_le
  simpa [tupleTokens] using hle

/-- An element is read before the brackets of a list. -/
theorem atomic_array (h : ∀ d, element.tokens.length ≤ d → Reads d element)
    (hlength : (arrayTokens element.tokens element.needsParens).length ≤ depth) :
    Atomic (typeAt depth) (arrayTokens element.tokens element.needsParens)
      (.array element.spelling) := by
  rw [length_arrayTokens] at hlength
  rw [arrayTokens]
  cases hparens : element.needsParens with
  | true =>
    rw [hparens, if_pos rfl] at hlength
    obtain ⟨d, rfl⟩ := Nat.exists_eq_succ_of_ne_zero (n := depth) (by omega)
    rw [if_pos rfl]
    exact (Spelling.atomic_paren (h d (by omega)).type (by decide)).array
  | false => exact ((h depth (by omega)).atomic hparens).array

/-- **The items of a list are read**, be they written out or not. -/
theorem atomic_list {bounds : ListBounds} (hfits : bounds.Fits)
    (h : ∀ d, element.tokens.length ≤ d → Reads d element)
    (hlength : (listTokens element.tokens element.needsParens bounds).length ≤ depth) :
    Atomic (typeAt depth) (listTokens element.tokens element.needsParens bounds)
      (.list element.spelling bounds) := by
  cases bounds with
  | unbounded => exact atomic_array h hlength
  | exact n =>
    have hmem : element.tokens ∈ List.replicate n element.tokens :=
      List.mem_replicate.mpr ⟨Nat.ne_of_gt hfits.1, rfl⟩
    have hle := length_le_tupleTokens hmem
    rw [listTokens] at hlength
    obtain ⟨d, rfl⟩ := Nat.exists_eq_succ_of_ne_zero (n := depth) (by omega)
    have helement := h d (by omega)
    exact Spelling.atomic_tuple (forall₂_replicate (helement.type.item helement.first) n)
      (List.ne_nil_of_mem hmem) (by decide) (by decide)
  | atLeast n =>
    have hmem : Token.dots :: arrayTokens element.tokens element.needsParens
        ∈ List.replicate n element.tokens
          ++ [.dots :: arrayTokens element.tokens element.needsParens] :=
      List.mem_append_right _ (List.mem_singleton_self _)
    have hle := length_le_tupleTokens hmem
    rw [List.length_cons, length_arrayTokens] at hle
    rw [listTokens] at hlength
    obtain ⟨d, rfl⟩ := Nat.exists_eq_succ_of_ne_zero (n := depth) (by omega)
    have helement := h d (by omega)
    have harray : Atomic (typeAt d) _ _ := atomic_array h (by rw [length_arrayTokens]; omega)
    have hitems := List.rel_append (forall₂_replicate (helement.type.item helement.first) n)
      (.cons (takes_typeAt harray.takes).spread .nil)
    exact Spelling.atomic_tuple hitems (List.ne_nil_of_mem hmem) (by decide) (by decide)

/-- The first token of several expressions with a mark between them is that of the first. -/
theorem undotted_members {mark : Token} {f : TypeExpr → List Token} (hsome : 0 < members.length)
    (h : ∀ m ∈ members, Undotted (f m)) : Undotted (List.intercalate [mark] (members.map f)) := by
  match members, hsome with
  | m :: rest, _ =>
    obtain ⟨t, ts, hfirst, ht⟩ := h m List.mem_cons_self
    rw [List.map_cons, hfirst]
    cases rest with
    | nil => exact ⟨t, ts, List.intercalate_singleton, ht⟩
    | cons _ _ => exact ⟨t, _, List.intercalate_cons_cons, ht⟩

/-- Expressions are read one by one where a mark stands between them. -/
theorem takes_members {read : Spelling.Reader} {mark : Token} {marks : List Token}
    {make : List Spelling → Spelling} {f : TypeExpr → List Token} (htwo : 2 ≤ members.length)
    (hmark : mark ∉ marks) (h : ∀ m ∈ members, Takes read marks (f m) m.spelling) :
    Takes (group make mark read) (mark :: marks) (List.intercalate [mark] (members.map f))
      (make (spellings members)) := by
  rw [spellings_eq_map]
  refine Spelling.takes_group ?_ hmark (by rwa [List.length_map])
  rw [List.forall₂_map_left_iff, List.forall₂_map_right_iff]
  exact List.forall₂_same.mpr h

theorem reads_union (htwo : 2 ≤ members.length) (hflat : ∀ ms, union ms ∉ members)
    (h : ∀ m ∈ members, Reads depth m) : Reads depth (union members) := by
  have hne : ∀ m ∈ members, ∀ ms, m ≠ union ms := fun m hm ms heq => hflat ms (heq ▸ hm)
  refine ⟨?_, ?_, fun hunion => absurd rfl (hunion _), fun hunion => absurd rfl (hunion _),
    fun hparens => by cases hparens⟩
  · rw [tokens, tokensAll_eq_map]
    exact undotted_members (by omega) fun m hm => (h m hm).first
  · rw [tokens, tokensAll_eq_map, spelling]
    exact takes_members htwo (by decide) fun m hm => (h m hm).constituent (hne m hm)

/-- **A member of an intersection is read**: parentheses stand around a union only. -/
theorem reads_grouped {m : TypeExpr} (hflat : ∀ ms, m ≠ intersection ms)
    (h : ∀ d, m.tokens.length ≤ d → Reads d m)
    (hlength : (groupedTokens m m.tokens).length ≤ depth) :
    Undotted (groupedTokens m m.tokens) ∧
      Takes (Spelling.operand (typeAt depth)) [.openBracket] (groupedTokens m m.tokens)
        m.spelling := by
  by_cases hunion : ∃ ms, m = union ms
  · obtain ⟨ms, rfl⟩ := hunion
    rw [groupedTokens] at hlength ⊢
    rw [List.length_cons, List.length_append] at hlength
    obtain ⟨d, rfl⟩ := Nat.exists_eq_succ_of_ne_zero (n := depth) (by omega)
    exact ⟨⟨_, _, rfl, by decide⟩, (Spelling.atomic_paren (h d (by omega)).type (by decide)).takes⟩
  · have hne : ∀ ms, m ≠ union ms := fun ms heq => hunion ⟨ms, heq⟩
    rw [groupedTokens_of_ne hne] at hlength ⊢
    exact ⟨(h depth hlength).first, (h depth hlength).operand hne hflat⟩

theorem reads_intersection (htwo : 2 ≤ members.length) (hflat : ∀ ms, intersection ms ∉ members)
    (h : ∀ m ∈ members, ∀ d, m.tokens.length ≤ d → Reads d m)
    (hlength : (intersection members).tokens.length ≤ depth) :
    Reads depth (intersection members) := by
  rw [tokens, tokensConstituents_eq_map] at hlength
  have hne : ∀ m ∈ members, ∀ ms, m ≠ intersection ms := fun m hm ms heq => hflat ms (heq ▸ hm)
  have hle : ∀ m ∈ members, (groupedTokens m m.tokens).length ≤ depth := fun m hm =>
    (Text.infix_intercalate (List.mem_map_of_mem hm)).length_le.trans hlength
  have htakes : Takes (group .intersection .ampersand (Spelling.operand (typeAt depth)))
      [.ampersand, .openBracket] (intersection members).tokens (intersection members).spelling := by
    rw [tokens, tokensConstituents_eq_map, spelling]
    exact takes_members htwo (by decide) fun m hm =>
      (reads_grouped (hne m hm) (h m hm) (hle m hm)).2
  refine ⟨?_, htakes.group (by decide), fun _ => htakes, fun _ hinter => absurd rfl (hinter _),
    fun hparens => by cases hparens⟩
  rw [tokens, tokensConstituents_eq_map]
  exact undotted_members (by omega) fun m hm => (reads_grouped (hne m hm) (h m hm) (hle m hm)).1

end Reads

/-- **The tokens of an expression are read as its spelling**, by induction on the expression.  The
parentheses and brackets around what is nested are tokens, so there are enough to go by. -/
theorem Readable.reads {e : TypeExpr} (h : Readable e) :
    ∀ depth, e.tokens.length ≤ depth → Reads depth e := by
  induction h with
  | named h =>
    intro depth _
    refine .of_atomic ?_
    rw [h.tokens_eq, h.spelling_eq]
    exact atomic_name
  | string value =>
    intro depth _
    refine .of_atomic ?_
    rw [tokens, spelling]
    exact Spelling.atomic_text
  | number value =>
    intro depth _
    refine .of_atomic ?_
    rw [tokens, spelling]
    exact atomic_written value
  | @list element bounds readonly helement hbounds ih =>
    intro depth hlength
    rw [tokens, List.length_append] at hlength
    have hatomic := atomic_list hbounds ih (Nat.le_of_add_left_le hlength)
    cases readonly with
    | false =>
      refine .of_atomic ?_
      rw [tokens, spelling]
      exact hatomic
    | true =>
      refine .of_operand ?_ ?_ fun hparens => by cases hparens
      · rw [tokens]
        exact ⟨_, _, rfl, by decide⟩
      · rw [tokens, spelling]
        exact hatomic.readonly (Spelling.isList_list _ _)
  | @union members htwo hmembers hflat ih =>
    intro depth hlength
    rw [tokens, tokensAll_eq_map] at hlength
    exact reads_union htwo hflat fun m hm => ih m hm depth
      ((Text.infix_intercalate (List.mem_map_of_mem hm)).length_le.trans hlength)
  | @intersection members htwo hmembers hflat ih =>
    intro depth hlength
    exact reads_intersection htwo hflat ih hlength

/-! ## 3. One expression for a spelling -/

/-- The same expression, but for numbers that are written alike. -/
inductive Alike : TypeExpr → TypeExpr → Prop
  | refl (e : TypeExpr) : Alike e e
  | number {m n : JsonNumber} (h : m.written = n.written) :
      Alike (literal (.number m)) (literal (.number n))
  | list {e e' : TypeExpr} {bounds : ListBounds} {readonly : Bool} (h : Alike e e') :
      Alike (list e bounds readonly) (list e' bounds readonly)
  | union {es es' : List TypeExpr} (h : List.Forall₂ Alike es es') : Alike (union es) (union es')
  | intersection {es es' : List TypeExpr} (h : List.Forall₂ Alike es es') :
      Alike (intersection es) (intersection es')

end TypeExpr

namespace Spelling

/-- The kinds of types. -/
inductive Kind where
  | name
  | text
  | number
  | list
  | union
  | intersection
  deriving DecidableEq

/-- The kind of the type that a spelling spells. -/
def kind : Spelling → Kind
  | word _ => .name
  | index _ _ => .name
  | text _ => .text
  | number _ => .number
  | array _ => .list
  | tuple _ => .list
  | spread _ => .list
  | readonly _ => .list
  | union _ => .union
  | intersection _ => .intersection

/-- The word and the keys of a name. -/
def nameParts : Spelling → String × List String
  | word name => (name, [])
  | index object key => (object.nameParts.1, object.nameParts.2 ++ [key])
  | _ => ("", [])

@[simp] theorem kind_name (word : String) (keys : List String) : (name word keys).kind = .name := by
  induction keys using List.reverseRecOn with
  | nil => rfl
  | append_singleton keys key ih => rw [name, List.foldl_append]; rfl

@[simp] theorem nameParts_name (word : String) (keys : List String) :
    (name word keys).nameParts = (word, keys) := by
  induction keys using List.reverseRecOn with
  | nil => rfl
  | append_singleton keys key ih =>
    rw [name, List.foldl_append, List.foldl_cons, List.foldl_nil, nameParts]
    rw [name] at ih
    rw [ih]

@[simp] theorem kind_marked (readonly : Bool) (s : Spelling) (bounds : ListBounds) :
    (marked readonly (list s bounds)).kind = .list := by
  cases readonly <;> cases bounds <;> rfl

/-- The mark of a list is told from the list. -/
theorem marked_inj {r r' : Bool} {s s' : Spelling} (hs : s.isList = true) (hs' : s'.isList = true)
    (h : marked r s = marked r' s') : r = r' ∧ s = s' := by
  cases r <;> cases r' <;> simp only [marked] at h
  · exact ⟨rfl, h⟩
  · subst h
    cases hs
  · subst h
    cases hs'
  · exact ⟨rfl, Spelling.readonly.inj h⟩

theorem replicate_inj {m n : Nat} (hm : 1 ≤ m) {s s' : Spelling}
    (h : List.replicate m s = List.replicate n s') : s = s' ∧ m = n := by
  have hlength : m = n := by simpa using congrArg List.length h
  subst hlength
  exact ⟨List.replicate_inj.mp h |>.2.resolve_left (Nat.ne_of_gt hm), rfl⟩

/-- Items that are all the same hold no further items after the first. -/
theorem replicate_ne_spread {m n : Nat} (hn : 1 ≤ n) {s s' : Spelling} :
    List.replicate m s ≠ List.replicate n s' ++ [.spread (.array s')] := by
  intro h
  have hfirst : s' ∈ List.replicate m s := by
    rw [h]
    exact List.mem_append_left _ (List.mem_replicate.mpr ⟨Nat.ne_of_gt hn, rfl⟩)
  have hlast : Spelling.spread (.array s') ∈ List.replicate m s := by
    rw [h]
    exact List.mem_append_right _ (List.mem_singleton_self _)
  have hcycle : Spelling.spread (.array s') = s' :=
    (List.eq_of_mem_replicate hlast).trans (List.eq_of_mem_replicate hfirst).symm
  cases hcycle

theorem replicate_append_inj {m n : Nat} {s s' : Spelling}
    (h : List.replicate m s ++ [.spread (.array s)]
      = List.replicate n s' ++ [.spread (.array s')]) : s = s' ∧ m = n := by
  have hlength : m = n := by simpa using congrArg List.length h
  obtain ⟨_, hspread⟩ := List.append_inj' h rfl
  cases hspread
  exact ⟨rfl, hlength⟩

/-- **The element and the bounds of a list are told from its items.** -/
theorem list_inj {s s' : Spelling} {b b' : ListBounds} (hb : b.Fits) (hb' : b'.Fits)
    (h : list s b = list s' b') : s = s' ∧ b = b' := by
  cases b with
  | unbounded =>
    cases b' with
    | unbounded => exact ⟨Spelling.array.inj h, rfl⟩
    | _ => cases h
  | exact m =>
    cases b' with
    | unbounded => cases h
    | exact n => exact (replicate_inj hb.1 (Spelling.tuple.inj h)).imp_right (congrArg _)
    | atLeast n => exact absurd (Spelling.tuple.inj h) (replicate_ne_spread hb'.1)
  | atLeast m =>
    cases b' with
    | unbounded => cases h
    | exact n => exact absurd (Spelling.tuple.inj h).symm (replicate_ne_spread hb.1)
    | atLeast n => exact (replicate_append_inj (Spelling.tuple.inj h)).imp_right (congrArg _)

end Spelling

namespace TypeExpr

theorem Named.eq {e e' : TypeExpr} {word : String} {keys : List String} (h : Named e word keys)
    (h' : Named e' word keys) : e = e' := by
  generalize hword : word = word' at h'
  cases h <;> cases h' <;> first | rfl | grind

theorem forall₂_alike {es es' : List TypeExpr} (h : spellings es = spellings es')
    (halike : ∀ e ∈ es, ∀ e' ∈ es', e.spelling = e'.spelling → Alike e e') :
    List.Forall₂ Alike es es' := by
  induction es generalizing es' with
  | nil =>
    cases es' with
    | nil => exact .nil
    | cons e' es' => cases h
  | cons e es ih =>
    cases es' with
    | nil => cases h
    | cons e' es' =>
      rw [spellings, spellings, List.cons.injEq] at h
      exact .cons (halike e List.mem_cons_self e' List.mem_cons_self h.1)
        (ih h.2 fun d hd d' hd' =>
          halike d (List.mem_cons_of_mem _ hd) d' (List.mem_cons_of_mem _ hd'))

/-- The kind of type that an expression is read as. -/
def kind : TypeExpr → Spelling.Kind
  | literal (.string _) => .text
  | literal (.number _) => .number
  | list _ _ _ => .list
  | union _ => .union
  | intersection _ => .intersection
  | _ => .name

theorem Named.kind_eq {e : TypeExpr} {word : String} {keys : List String}
    (h : Named e word keys) : e.kind = .name := by
  cases h <;> rfl

theorem Readable.kind_spelling {e : TypeExpr} (h : Readable e) : e.spelling.kind = e.kind := by
  cases h with
  | named h => rw [h.spelling_eq, h.kind_eq, Spelling.kind_name]
  | list => rw [spelling, Spelling.kind_marked, kind]
  | _ => rw [spelling]; rfl

/-- Expressions with one spelling are of one kind. -/
theorem kind_eq {e e' : TypeExpr} (h : Readable e) (h' : Readable e')
    (heq : e.spelling = e'.spelling) : e.kind = e'.kind := by
  rw [← h.kind_spelling, heq, h'.kind_spelling]

theorem Named.alike {e e' : TypeExpr} {word word' : String} {keys keys' : List String}
    (h : Named e word keys) (h' : Named e' word' keys') (heq : e.spelling = e'.spelling) :
    Alike e e' := by
  rw [h.spelling_eq, h'.spelling_eq] at heq
  have hparts := congrArg Spelling.nameParts heq
  rw [Spelling.nameParts_name, Spelling.nameParts_name] at hparts
  cases hparts
  rw [h.eq h']
  exact .refl _

/-- **Expressions with one spelling are alike**, by induction on the one; the other is of its
kind. -/
theorem alike_of_spelling {e : TypeExpr} (h : Readable e) :
    ∀ {e' : TypeExpr}, Readable e' → e.spelling = e'.spelling → Alike e e' := by
  induction h with
  | named h =>
    intro e' h' heq
    have hkind := h.kind_eq.symm.trans (kind_eq (.named h) h' heq)
    cases h' with
    | named h' => exact h.alike h' heq
    | _ => cases hkind
  | string value =>
    intro e' h' heq
    have hkind := kind_eq (.string value) h' heq
    cases h' with
    | named h' => cases hkind.trans h'.kind_eq
    | string value' =>
      rw [spelling, spelling] at heq
      cases heq
      exact .refl _
    | _ => cases hkind
  | number value =>
    intro e' h' heq
    have hkind := kind_eq (.number value) h' heq
    cases h' with
    | named h' => cases hkind.trans h'.kind_eq
    | number value' =>
      rw [spelling, spelling] at heq
      exact .number (Spelling.number.inj heq)
    | _ => cases hkind
  | @list element bounds readonly helement hbounds ih =>
    intro e' h' heq
    have hkind := kind_eq (.list helement hbounds) h' heq
    cases h' with
    | named h' => cases hkind.trans h'.kind_eq
    | list helement' hbounds' =>
      rw [spelling, spelling] at heq
      obtain ⟨rfl, hlist⟩ :=
        Spelling.marked_inj (Spelling.isList_list _ _) (Spelling.isList_list _ _) heq
      obtain ⟨hspelling, rfl⟩ := Spelling.list_inj hbounds hbounds' hlist
      exact .list (ih helement' hspelling)
    | _ => cases hkind
  | @union members htwo hmembers hflat ih =>
    intro e' h' heq
    have hkind := kind_eq (.union htwo hmembers hflat) h' heq
    cases h' with
    | named h' => cases hkind.trans h'.kind_eq
    | union _ hmembers' =>
      rw [spelling, spelling] at heq
      exact .union (forall₂_alike (Spelling.union.inj heq)
        fun m hm m' hm' hspelling => ih m hm (hmembers' m' hm') hspelling)
    | _ => cases hkind
  | @intersection members htwo hmembers hflat ih =>
    intro e' h' heq
    have hkind := kind_eq (.intersection htwo hmembers hflat) h' heq
    cases h' with
    | named h' => cases hkind.trans h'.kind_eq
    | intersection _ hmembers' =>
      rw [spelling, spelling] at heq
      exact .intersection (forall₂_alike (Spelling.intersection.inj heq)
        fun m hm m' hm' hspelling => ih m hm (hmembers' m' hm') hspelling)
    | _ => cases hkind

theorem spellings_eq_of_forall₂ {es es' : List TypeExpr} (h : List.Forall₂ Alike es es')
    (hspelling : ∀ e ∈ es, ∀ {e'}, Alike e e' → e.spelling = e'.spelling) :
    spellings es = spellings es' := by
  induction h with
  | nil => rfl
  | cons hfirst _ ih =>
    obtain ⟨hspelling, hrest⟩ := List.forall_mem_cons.mp hspelling
    rw [spellings, spellings, hspelling hfirst, ih hrest]

/-- Expressions that are alike have one spelling. -/
theorem Readable.spelling_eq {e : TypeExpr} (h : Readable e) :
    ∀ {e' : TypeExpr}, Alike e e' → e.spelling = e'.spelling := by
  induction h with
  | named h =>
    intro e' halike
    cases halike with
    | refl => rfl
    | _ => cases h
  | string value =>
    intro e' halike
    cases halike
    rfl
  | number value =>
    intro e' halike
    cases halike with
    | refl => rfl
    | number h => rw [spelling, spelling, h]
  | list helement hbounds ih =>
    intro e' halike
    cases halike with
    | refl => rfl
    | list h => rw [spelling, spelling, ih h]
  | union htwo hmembers hflat ih =>
    intro e' halike
    cases halike with
    | refl => rfl
    | union h => rw [spelling, spelling, spellings_eq_of_forall₂ h ih]
  | intersection htwo hmembers hflat ih =>
    intro e' halike
    cases halike with
    | refl => rfl
    | intersection h => rw [spelling, spelling, spellings_eq_of_forall₂ h ih]

/-! ## 4. The text -/

/-- The text of an expression is read as its spelling. -/
theorem Readable.reads_text {e : TypeExpr} (h : Readable e) :
    Spelling.read? e.render = some e.spelling := by
  have htokens := (h.spells 0).read
  have hread := (h.reads e.tokens.length le_rfl).type [] fun _ ht => by cases ht
  rw [List.append_nil] at hread
  rw [Spelling.read?, render, htokens]
  simp only [hread]

/-- **What is written for an expression is read back as that expression.**  It is read as the
spelling of those expressions that are alike, so no two others are written with one text. -/
theorem read_render {e : TypeExpr} (h : Readable e) :
    Spelling.read? e.render = some e.spelling ∧
      ∀ e', Readable e' →
        (Spelling.read? e.render = some e'.spelling ↔ Alike e e') ∧
          (e.render = e'.render → Alike e e') := by
  refine ⟨h.reads_text, fun e' h' => ⟨?_, fun hrender => ?_⟩⟩
  · rw [h.reads_text, Option.some.injEq]
    exact ⟨alike_of_spelling h h', h.spelling_eq⟩
  · have hread := h.reads_text
    rw [hrender, h'.reads_text] at hread
    exact alike_of_spelling h h' (Option.some.inj hread).symm

/-- The name of a schema. -/
def pet : TypeExpr := reference ⟨["components", "schemas", "Pet"]⟩

/-- Texts that cannot be changed. -/
def texts : TypeExpr := list (primitive .string) .unbounded true

/-- A list in which each strength of binding meets a weaker one. -/
def nested : TypeExpr :=
  list (intersection [union [literal (.string "a | b"), pet], texts]) (.atLeast 1) true

/-- The list that would be read if there were no parentheses around the union. -/
def regrouped : TypeExpr :=
  list (union [literal (.string "a | b"), intersection [pet, texts]]) (.atLeast 1) true

theorem readable_pet : Readable pet := .named (.reference List.mem_cons_self)

theorem readable_texts : Readable texts := .list (.named .string) trivial

theorem readable_nested : Readable nested := by
  have hunion : Readable (union [literal (.string "a | b"), pet]) :=
    .union (by decide) (by simp [readable_pet, Readable.string]) (by simp [pet])
  exact .list (.intersection (by decide) (by simp [hunion, readable_texts]) (by simp [texts]))
    ⟨by decide, by decide⟩

theorem readable_regrouped : Readable regrouped := by
  have hintersection : Readable (intersection [pet, texts]) :=
    .intersection (by decide) (by simp [readable_pet, readable_texts]) (by simp [pet, texts])
  exact .list (.union (by decide) (by simp [hintersection, Readable.string]) (by simp))
    ⟨by decide, by decide⟩

/-- The parentheses are read where they are. -/
theorem read_render_nested :
    Readable nested ∧ Readable regrouped ∧
      nested.render
        = "readonly [(\"a | b\" | components[\"schemas\"][\"Pet\"]) & readonly string[], "
          ++ "...((\"a | b\" | components[\"schemas\"][\"Pet\"]) & readonly string[])[]]" ∧
      Spelling.read? nested.render = some nested.spelling ∧
      Spelling.read? nested.render ≠ some regrouped.spelling := by
  obtain ⟨hread, hunique⟩ := read_render readable_nested
  refine ⟨readable_nested, readable_regrouped, by decide +kernel, hread, fun hother => ?_⟩
  have halike := ((hunique regrouped readable_regrouped).1).mp hother
  cases halike with
  | list h => cases h

end TypeExpr

end ApiTypes
