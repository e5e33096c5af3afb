/-
# Levels

An expression is written once by itself and once inside of a larger text, some levels deeper.  The
two texts differ in the margins of their lines only: nothing that is written, be it a tuple that
repeats its items or a comment of several lines, looks at the level for anything else.  What a
document brings in as it stands could break a line of its own; the texts of key patterns and the
names of sections are the only such words, as everything else is quoted or cut into lines.

* `indented` moves the lines of a text, and `Unbroken` texts have one line.
* `Moves`: whole lines, and what they are some levels deeper.
* `TypeExpr.Unbroken`: the words that an expression brings in have one line each.
* `TypeExpr.renderAt_add`: writing deeper is writing with margins.
-/
import ApiTypes.Proofs.TypeExpr.Comments
import ApiTypes.Proofs.TypeExpr.Parts
import ApiTypes.Proofs.TypeExpr.Texts

namespace ApiTypes

/-! ## 1. Moving lines -/

/-- A text of one line, which no line feed ends. -/
def Text.Unbroken (s : String) : Prop := '\n' ∉ s.toList

instance (s : String) : Decidable (Text.Unbroken s) := inferInstanceAs (Decidable (_ ∉ _))

/-- A text whose lines, but for the first, are some levels deeper. -/
def indented (level : Nat) (s : String) : String :=
  String.ofList (s.toList.flatMap fun c => if c = '\n' then '\n' :: (margin level).toList else [c])

section

variable {s t : String} {n level : Nat}

theorem Text.unbroken_append : Text.Unbroken (s ++ t) ↔ Text.Unbroken s ∧ Text.Unbroken t := by
  simp [Text.Unbroken]

theorem Text.join_cons_cons (sep text text' : String) (texts : List String) :
    Text.join sep (text :: text' :: texts) = text ++ sep ++ Text.join sep (text' :: texts) :=
  String.intercalate_cons_of_ne_nil (List.cons_ne_nil _ _)

theorem Text.unbroken_join {sep : String} {texts : List String} (hsep : Text.Unbroken sep)
    (h : ∀ text ∈ texts, Text.Unbroken text) : Text.Unbroken (Text.join sep texts) := by
  induction texts with
  | nil => simp [Text.Unbroken, Text.join]
  | cons text texts ih =>
    obtain ⟨htext, htexts⟩ := List.forall_mem_cons.mp h
    cases texts with
    | nil => simpa [Text.join] using htext
    | cons text' texts =>
      rw [Text.join_cons_cons, Text.unbroken_append, Text.unbroken_append]
      exact ⟨⟨htext, hsep⟩, ih htexts⟩

theorem toList_indented : (indented n s).toList =
    s.toList.flatMap fun c => if c = '\n' then '\n' :: (margin n).toList else [c] :=
  String.toList_ofList

theorem indented_append : indented n (s ++ t) = indented n s ++ indented n t :=
  String.toList_injective (by simp [toList_indented])

/-- What has one line stays as it is. -/
theorem indented_of_unbroken (h : Text.Unbroken s) : indented n s = s := by
  refine String.toList_injective ?_
  rw [toList_indented, List.flatMap_congr (g := fun c => [c]), List.flatMap_singleton']
  intro c hc
  rw [if_neg]
  rintro rfl
  exact h hc

theorem indented_break : indented n "\n" = "\n" ++ margin n :=
  String.toList_injective (by simp [toList_indented])

theorem indented_join (sep : String) (texts : List String) :
    indented n (Text.join sep texts) = Text.join (indented n sep) (texts.map (indented n)) := by
  induction texts with
  | nil => rfl
  | cons text texts ih =>
    cases texts with
    | nil => simp [Text.join]
    | cons text' texts =>
      rw [Text.join_cons_cons, indented_append, indented_append, ih]
      exact (Text.join_cons_cons _ _ _ _).symm

theorem margin_add : margin (n + level) = margin n ++ margin level :=
  String.toList_injective (by simp [margin, Nat.mul_add])

theorem unbroken_margin : Text.Unbroken (margin level) := by
  simp [Text.Unbroken, margin, List.mem_replicate]

/-! ## 2. Whole lines -/

/-- Whole lines, and what they are some levels deeper: a margin before the lines moves behind
them. -/
def Moves (n : Nat) (s t : String) : Prop := margin n ++ indented n s = t ++ margin n

theorem moves_empty : Moves n "" "" := by
  simp [Moves, indented]

theorem Moves.append {s' t' : String} (h : Moves n s t) (h' : Moves n s' t') :
    Moves n (s ++ s') (t ++ t') := by
  rw [Moves, indented_append, ← String.append_assoc, h, String.append_assoc, h',
    String.append_assoc]

/-- **A line gets a margin**, and so do those that it goes on for. -/
theorem moves_line : Moves n (s ++ "\n") (margin n ++ indented n s ++ "\n") := by
  rw [Moves, indented_append, indented_break]
  simp only [String.append_assoc]

theorem moves_endLines {ls : List (List Char)} (h : ∀ line ∈ ls, '\n' ∉ line) :
    Moves n (String.ofList (Text.endLines ls))
      (String.ofList (Text.endLines (ls.map ((margin n).toList ++ ·)))) := by
  induction ls with
  | nil => exact moves_empty
  | cons line ls ih =>
    have hline : Text.Unbroken (String.ofList line) := by
      simpa [Text.Unbroken] using h line List.mem_cons_self
    have hfirst := @moves_line (String.ofList line) n
    rw [indented_of_unbroken hline] at hfirst
    have hmoves := hfirst.append (ih fun line' hline' => h line' (List.mem_cons_of_mem _ hline'))
    have hsplit : ∀ (l : List Char) (ls : List (List Char)),
        String.ofList (Text.endLines (l :: ls))
          = String.ofList l ++ "\n" ++ String.ofList (Text.endLines ls) := fun l ls =>
      String.toList_injective (by simp [Text.endLines])
    rw [List.map_cons, hsplit, hsplit]
    convert hmoves using 2
    exact String.toList_injective (by simp)

end

namespace TypeExpr

variable {n level : Nat}

/-! ## 3. Comments -/

theorem blockLines_add (text : String) (n level : Nat) :
    blockLines text (n + level) = (blockLines text level).map ((margin n).toList ++ ·) := by
  have hmargin : marginChars (n + level) = (margin n).toList ++ marginChars level := by
    rw [← toList_margin, ← toList_margin, margin_add, String.toList_append]
  unfold blockLines
  split
  · simp [hmargin]
  · simp [hmargin, starredLines]

/-- **All lines of a comment have the margin.** -/
theorem moves_renderDoc (text : String) (n level : Nat) :
    Moves n (renderDoc text level) (renderDoc text (n + level)) := by
  have hlines : ∀ l, renderDoc text l = String.ofList (Text.endLines (blockLines text l)) :=
    fun l => String.toList_injective (by rw [endLines_blockLines, String.toList_ofList])
  rw [hlines, hlines, blockLines_add]
  exact moves_endLines fun _ hline => (of_mem_blockLines hline).1

/-! ## 4. Words -/

theorem unbroken_quote (s : String) : Text.Unbroken (Text.quote s) := by
  have hhex : ∀ k, '\n' ≠ Text.hexChar k := by
    intro k h
    have hdigit := Token.hexDigit?_hexChar k
    rw [← h] at hdigit
    cases hdigit
  have hescape : ∀ c, '\n' ∉ Text.escape c := by
    intro c
    unfold Text.escape
    split_ifs with _ _ _ _ hbreak
    any_goals simp [hhex]
    exact fun h => hbreak h.symm
  rw [Text.Unbroken, Text.quote, String.toList_ofList, Text.quoteChars]
  simp [hescape]

theorem unbroken_propertyKey (name : String) : Text.Unbroken (Naming.propertyKey name) := by
  rcases propertyKey_cases name with ⟨hkey, hword⟩ | hkey
  · rw [hkey]
    intro hbreak
    cases isWordChar_of_mem hword hbreak
  · exact hkey ▸ unbroken_quote name

theorem unbroken_renderLiteral (l : Literal) : Text.Unbroken (renderLiteral l) := by
  cases l with
  | string s => exact unbroken_quote s
  | number number =>
    intro hbreak
    rcases isNumberChar_of_mem hbreak with hdigit | hmark
    · cases hdigit
    · revert hmark
      decide
  | boolean value => cases value <;> simp [Text.Unbroken, renderLiteral]
  | null => simp [Text.Unbroken, renderLiteral]

/-- The name of a node is quoted but for its first segment. -/
theorem unbroken_indexChain {p : Pointer} (h : ∀ s ∈ p.segments.head?, Text.Unbroken s) :
    Text.Unbroken p.indexChain := by
  obtain ⟨segments⟩ := p
  cases segments with
  | nil => simp [Text.Unbroken, Pointer.indexChain]
  | cons first rest =>
    have hrest : ∀ (rest : List String) (text : String), Text.Unbroken text → Text.Unbroken
        (rest.foldl (fun text s => text ++ "[" ++ Text.quote s ++ "]") text) := by
      intro rest
      induction rest with
      | nil => exact fun _ htext => htext
      | cons s rest ih =>
        intro text htext
        refine ih _ ?_
        simp only [Text.unbroken_append]
        exact ⟨⟨⟨htext, by decide⟩, unbroken_quote s⟩, by decide⟩
    exact hrest rest first (h first rfl)

/-- The texts of the pattern that a key is; a name is none. -/
def patternTexts : MemberKey TypeExpr → List String
  | .name _ => []
  | .template stretches => stretches.filterMap fun
    | .text text => some text
    | .param _ => none

theorem mem_patternTexts {stretches : List (TemplatePart TypeExpr)} {text : String} :
    text ∈ patternTexts (.template stretches) ↔ .text text ∈ stretches := by
  rw [patternTexts, List.mem_filterMap]
  constructor
  · rintro ⟨part, hpart, heq⟩
    cases part with
    | text _ =>
      cases heq
      exact hpart
    | param _ => cases heq
  · exact fun h => ⟨_, h, rfl⟩

/-- What an expression brings in has one line: the names of sections that it refers to, by itself
or to pick members of a collection, and the texts of the patterns under which it has members. -/
def Unbroken : TypeExpr → Prop
  | reference p | pick p _ => ∀ s ∈ p.segments.head?, Text.Unbroken s
  | record r => ∀ m ∈ r.members, ∀ text ∈ patternTexts m.key, Text.Unbroken text
  | _ => True

instance : DecidablePred Unbroken
  | reference p | pick p _ => inferInstanceAs (Decidable (∀ s ∈ p.segments.head?, Text.Unbroken s))
  | record r => inferInstanceAs
      (Decidable (∀ m ∈ r.members, ∀ text ∈ patternTexts m.key, Text.Unbroken text))
  | primitive _ | literal _ | operation _ | list _ _ _ | union _ | intersection _
  | withHeaders _ _ | never | unknown | void => inferInstanceAs (Decidable True)

/-- The names of members are quoted. -/
theorem unbroken_closed {ms : List (Member TypeExpr)}
    (h : ∀ m ∈ ms, (∃ name, m.key = .name name) ∧ Obeys Unbroken m.type) :
    Obeys Unbroken (.closed ms) := by
  refine obeys_closed.mpr ⟨fun m hm => ?_, fun m hm => ?_⟩
  · obtain ⟨⟨name, hname⟩, -⟩ := h m hm
    rw [hname]
    exact List.forall_mem_nil _
  · obtain ⟨⟨name, hname⟩, htype⟩ := h m hm
    exact (memberObeys_name hname).mpr htype

/-! ## 5. Expressions -/

theorem indented_renderList (element : String) (parens : Bool) (bounds : ListBounds)
    (readonly : Bool) :
    indented n (renderList element parens bounds readonly)
      = renderList (indented n element) parens bounds readonly := by
  have hmark : indented n (if readonly then "readonly " else "")
      = if readonly then "readonly " else "" :=
    indented_of_unbroken (by cases readonly <;> decide)
  have harray : indented n (if parens then "(" ++ element ++ ")[]" else element ++ "[]")
      = if parens then "(" ++ indented n element ++ ")[]" else indented n element ++ "[]" := by
    cases parens <;> simp (disch := decide) [indented_append, indented_of_unbroken]
  have hopen : indented n "[" = "[" := indented_of_unbroken (by decide)
  have hclose : indented n "]" = "]" := indented_of_unbroken (by decide)
  have hcomma : indented n ", " = ", " := indented_of_unbroken (by decide)
  have hdots : indented n "..." = "..." := indented_of_unbroken (by decide)
  unfold renderList
  cases bounds with
  | unbounded => simp only [indented_append, hmark, harray]
  | exact length =>
    simp only
    split
    · simp only [indented_append, hmark, harray]
    · simp only [indented_append, indented_join, hmark, hopen, hclose, hcomma, List.map_replicate]
  | atLeast length =>
    simp only
    split
    · simp only [indented_append, hmark, harray]
    · simp only [indented_append, indented_join, hmark, hopen, hclose, hcomma, hdots, harray,
        List.map_append, List.map_replicate, List.map_cons, List.map_nil]

theorem unbroken_escapeTemplate {text : String} (h : Text.Unbroken text) :
    Text.Unbroken (String.ofList (escapeTemplate text.toList)) := by
  rw [Text.Unbroken, String.toList_ofList]
  intro hbreak
  rcases mem_of_mem_escapeTemplate hbreak with hmem | hslash
  · exact h hmem
  · cases hslash

/-- The line of a type, which may go on for several. -/
theorem moves_member {s : String} :
    Moves n (margin level ++ (s ++ ";\n")) (margin (n + level) ++ (indented n s ++ ";\n")) := by
  have hline := @moves_line (margin level ++ s ++ ";") n
  simp only [indented_append, indented_of_unbroken unbroken_margin,
    indented_of_unbroken (by decide : Text.Unbroken ";")] at hline
  rw [margin_add]
  convert hline using 1
  · simp only [String.append_assoc]
    rfl
  · simp only [String.append_assoc]
    rfl

/-- What a member brings in has one line each. -/
def MemberUnbroken (m : Member TypeExpr) : Prop :=
  (∀ text ∈ patternTexts m.key, Text.Unbroken text) ∧ MemberObeys Unbroken m

/-- What does not go over several lines does not depend on the level. -/
theorem renderAt_of_unbroken {e : TypeExpr} (text : String) (h : ∀ level, renderAt level e = text)
    (htext : Text.Unbroken text) : renderAt (n + level) e = indented n (renderAt level e) := by
  rw [h, h, indented_of_unbroken htext]

mutual
/-- **An expression that is written deeper is the same text with deeper lines.** -/
theorem renderAt_add (n : Nat) : ∀ (e : TypeExpr) (level : Nat), Obeys Unbroken e →
    renderAt (n + level) e = indented n (renderAt level e)
  | primitive .string, _, _ => renderAt_of_unbroken "string" (fun _ => rfl) (by decide)
  | primitive .number, _, _ => renderAt_of_unbroken "number" (fun _ => rfl) (by decide)
  | primitive .boolean, _, _ => renderAt_of_unbroken "boolean" (fun _ => rfl) (by decide)
  | literal l, _, _ =>
    renderAt_of_unbroken (renderLiteral l) (fun _ => rfl) (unbroken_renderLiteral l)
  | reference p, _, h =>
    renderAt_of_unbroken p.indexChain (fun _ => rfl) (unbroken_indexChain (obeys_self h))
  | operation name, _, _ => by
    refine renderAt_of_unbroken ("operations[" ++ Text.quote name ++ "]") (fun _ => rfl) ?_
    rw [Text.unbroken_append, Text.unbroken_append]
    exact ⟨⟨by decide, unbroken_quote name⟩, by decide⟩
  | list element bounds readonly, level, h => by
    show renderList (renderAt (n + level) element) _ _ _ = indented n (renderList _ _ _ _)
    rw [renderAt_add n element level (obeys_list_iff.mp h).2, indented_renderList]
  | record r, level, h => renderRecord_add n r level h
  | union members, level, h => by
    show Text.join " | " (renderAll (n + level) members) = indented n (Text.join " | " _)
    rw [renderAll_add n members level (obeys_union_iff.mp h).2, indented_join,
      indented_of_unbroken (by decide : Text.Unbroken " | ")]
  | intersection members, level, h => by
    show Text.join " & " (renderConstituents (n + level) members)
      = indented n (Text.join " & " (renderConstituents level members))
    rw [renderConstituents_add n members level (obeys_intersection_iff.mp h).2, indented_join,
      indented_of_unbroken (by decide : Text.Unbroken " & ")]
  | pick group keys, _, h => by
    refine renderAt_of_unbroken ("Pick<NonNullable<" ++ group.indexChain ++ ">, "
      ++ Text.join " | " (keys.map Text.quote) ++ ">") (fun _ => rfl) ?_
    simp only [Text.unbroken_append]
    exact ⟨⟨⟨⟨by decide, unbroken_indexChain (obeys_self h)⟩, by decide⟩,
      Text.unbroken_join (by decide) (List.forall_mem_map.mpr fun key _ => unbroken_quote key)⟩,
      by decide⟩
  | withHeaders content headers, level, h => by
    obtain ⟨-, hcontent, hheaders⟩ := obeys_withHeaders_iff.mp h
    show "WithHeaders<" ++ renderAt (n + level) content ++ ", " ++ renderRecord (n + level) headers
      ++ ">" = indented n ("WithHeaders<" ++ renderAt level content ++ ", "
        ++ renderRecord level headers ++ ">")
    simp only [indented_append]
    rw [renderAt_add n content level hcontent, renderRecord_add n headers level hheaders,
      indented_of_unbroken (by decide : Text.Unbroken "WithHeaders<"),
      indented_of_unbroken (by decide : Text.Unbroken ", "),
      indented_of_unbroken (by decide : Text.Unbroken ">")]
  | never, _, _ => renderAt_of_unbroken "never" (fun _ => rfl) (by decide)
  | unknown, _, _ => renderAt_of_unbroken "unknown" (fun _ => rfl) (by decide)
  | void, _, _ => renderAt_of_unbroken "void" (fun _ => rfl) (by decide)

theorem renderAll_add (n : Nat) : ∀ (es : List TypeExpr) (level : Nat),
    (∀ e ∈ es, Obeys Unbroken e) →
    renderAll (n + level) es = (renderAll level es).map (indented n)
  | [], _, _ => rfl
  | e :: es, level, h => by
    rw [renderAll, renderAll, List.map_cons, renderAt_add n e level (h e List.mem_cons_self),
      renderAll_add n es level fun e' he' => h e' (List.mem_cons_of_mem e he')]

theorem renderConstituents_add (n : Nat) : ∀ (es : List TypeExpr) (level : Nat),
    (∀ e ∈ es, Obeys Unbroken e) →
    renderConstituents (n + level) es = (renderConstituents level es).map (indented n)
  | [], _, _ => rfl
  | e :: es, level, h => by
    have hrest := renderConstituents_add n es level fun e' he' => h e' (List.mem_cons_of_mem e he')
    have he := renderAt_add n e level (h e List.mem_cons_self)
    rw [renderConstituents.eq_def, renderConstituents.eq_def]
    simp only [List.map_cons]
    rw [hrest, he]
    split
    · simp only [indented_append]
      rw [indented_of_unbroken (by decide : Text.Unbroken "("),
        indented_of_unbroken (by decide : Text.Unbroken ")")]
    · rfl

theorem renderRecord_add (n : Nat) : ∀ (r : Record TypeExpr) (level : Nat),
    Obeys Unbroken (record r) → renderRecord (n + level) r = indented n (renderRecord level r)
  | ⟨members, catchAll, readonly⟩, level, h => by
    obtain ⟨hwords, hmembers, hcatchAll⟩ := obeys_record.mp h
    have hlines := (moves_renderMembers n members level fun m hm =>
        ⟨hwords m hm, hmembers m hm⟩).append
      (moves_renderCatchAll n catchAll level readonly hcatchAll)
    rw [renderRecord, renderRecord]
    split
    · exact (indented_of_unbroken (by decide)).symm
    · rw [Moves] at hlines
      -- The margin that the break brings in moves behind the lines.
      calc "\x7b\n" ++ renderMembers (n + level) members
            ++ renderCatchAll (n + level) readonly catchAll ++ margin (n + level) ++ "\x7d"
        _ = "\x7b\n" ++ (renderMembers (n + level) members
            ++ renderCatchAll (n + level) readonly catchAll ++ margin n) ++ margin level
            ++ "\x7d" := by simp only [margin_add, String.append_assoc]
        _ = "\x7b\n" ++ margin n ++ indented n (renderMembers level members
            ++ renderCatchAll level readonly catchAll) ++ margin level ++ "\x7d" := by
          simp only [← hlines, String.append_assoc]
        _ = indented n ("\x7b\n" ++ renderMembers level members
            ++ renderCatchAll level readonly catchAll ++ margin level ++ "\x7d") := by
          have hopen : indented n "\x7b\n" = "\x7b\n" ++ margin n := by
            rw [show "\x7b\n" = "\x7b" ++ "\n" from rfl, indented_append, indented_break,
              indented_of_unbroken (by decide : Text.Unbroken "\x7b"), String.append_assoc]
          simp only [indented_append]
          rw [hopen, indented_of_unbroken unbroken_margin,
            indented_of_unbroken (by decide : Text.Unbroken "\x7d")]
          simp only [String.append_assoc]

theorem moves_renderMembers (n : Nat) : ∀ (ms : List (Member TypeExpr)) (level : Nat),
    (∀ m ∈ ms, MemberUnbroken m) →
    Moves n (renderMembers level ms) (renderMembers (n + level) ms)
  | [], _, _ => moves_empty
  | m :: ms, level, h => by
    rw [renderMembers, renderMembers]
    exact (moves_renderMember n m level (h m List.mem_cons_self)).append
      (moves_renderMembers n ms level fun m' hm' => h m' (List.mem_cons_of_mem m hm'))

theorem moves_renderMember (n : Nat) : ∀ (m : Member TypeExpr) (level : Nat), MemberUnbroken m →
    Moves n (renderMember level m) (renderMember (n + level) m)
  | ⟨key, type, optional, readonly, doc⟩, level, h => by
    have hkey := renderKey_add n key level optional h.1 fun stretches hstretches => by
      subst hstretches
      exact fun e he x hx => h.2 x (List.mem_append_left _
        (mem_templateParts.mpr ⟨_, he, hx⟩))
    have htype := renderAt_add n type (level + 1) (obeys_of_memberObeys h.2)
    have hline := @moves_member n (level + 1) ((if readonly then "readonly " else "")
      ++ renderKey level optional key ++ ": " ++ renderAt (level + 1) type)
    have hmark : indented n (if readonly then "readonly " else "")
        = if readonly then "readonly " else "" :=
      indented_of_unbroken (by cases readonly <;> decide)
    simp only [indented_append, hmark, ← hkey, ← htype,
      indented_of_unbroken (by decide : Text.Unbroken ": "), String.append_assoc] at hline
    cases doc with
    | none =>
      rw [renderMember, renderMember]
      simp only [String.append_assoc]
      exact moves_empty.append hline
    | some text =>
      rw [renderMember, renderMember]
      simp only [String.append_assoc]
      refine Moves.append ?_ hline
      split
      · exact moves_empty
      · exact moves_renderDoc text n (level + 1)

theorem renderKey_add (n : Nat) : ∀ (key : MemberKey TypeExpr) (level : Nat) (optional : Bool),
    (∀ text ∈ patternTexts key, Text.Unbroken text) →
    (∀ stretches, key = .template stretches → ∀ e, .param e ∈ stretches → Obeys Unbroken e) →
    renderKey (n + level) optional key = indented n (renderKey level optional key)
  | .name name, level, optional, _, _ => by
    rw [renderKey, renderKey, indented_append, indented_of_unbroken (unbroken_propertyKey name),
      indented_of_unbroken (by cases optional <;> decide)]
  | .template stretches, level, optional, htexts, htypes => by
    rw [renderKey, renderKey, indented_append, indented_append,
      renderParts_add n stretches level (fun text ht => htexts text (mem_patternTexts.mpr ht))
        (htypes stretches rfl),
      indented_of_unbroken (by decide : Text.Unbroken "[path: \x60"),
      indented_of_unbroken (by decide : Text.Unbroken "\x60]")]

theorem renderParts_add (n : Nat) : ∀ (stretches : List (TemplatePart TypeExpr)) (level : Nat),
    (∀ text, .text text ∈ stretches → Text.Unbroken text) →
    (∀ e, .param e ∈ stretches → Obeys Unbroken e) →
    renderParts (n + level) stretches = indented n (renderParts level stretches)
  | [], _, _, _ => rfl
  | .text text :: stretches, level, htexts, htypes => by
    have hrest := renderParts_add n stretches level
      (fun t ht => htexts t (List.mem_cons_of_mem _ ht))
      fun e he => htypes e (List.mem_cons_of_mem _ he)
    have htext := unbroken_escapeTemplate (htexts text List.mem_cons_self)
    rw [renderParts, renderParts, indented_append, hrest, renderPart, renderPart,
      indented_of_unbroken htext]
  | .param type :: stretches, level, htexts, htypes => by
    have hrest := renderParts_add n stretches level
      (fun t ht => htexts t (List.mem_cons_of_mem _ ht))
      fun e he => htypes e (List.mem_cons_of_mem _ he)
    have htype := renderAt_add n type level (htypes type List.mem_cons_self)
    rw [renderParts, renderParts, indented_append, hrest, renderPart, renderPart, indented_append,
      indented_append, htype, indented_of_unbroken (by decide : Text.Unbroken "$\x7b"),
      indented_of_unbroken (by decide : Text.Unbroken "\x7d")]

theorem moves_renderCatchAll (n : Nat) : ∀ (catchAll : Option TypeExpr) (level : Nat)
    (readonly : Bool), (∀ e, catchAll = some e → Obeys Unbroken e) →
    Moves n (renderCatchAll level readonly catchAll) (renderCatchAll (n + level) readonly catchAll)
  | none, _, _, _ => moves_empty
  | some type, level, readonly, h => by
    have htype := renderAt_add n type (level + 1) (h type rfl)
    have hline := @moves_member n (level + 1) ((if readonly then "readonly " else "")
      ++ "[key: string]: " ++ renderAt (level + 1) type)
    have hmark : indented n (if readonly then "readonly " else "")
        = if readonly then "readonly " else "" :=
      indented_of_unbroken (by cases readonly <;> decide)
    simp only [indented_append, hmark, ← htype,
      indented_of_unbroken (by decide : Text.Unbroken "[key: string]: "),
      String.append_assoc] at hline
    rw [renderCatchAll, renderCatchAll]
    simp only [String.append_assoc]
    exact hline
end

end TypeExpr

end ApiTypes
