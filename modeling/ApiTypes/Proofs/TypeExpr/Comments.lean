/-
# Comments that hold their text

What a document says about a member is written as a block comment before it.  A comment ends with
the first star before a slash, so no such mark may stand in the text; nor may one arise where the
text is divided into lines, where a line is put behind a star, or where the block ends.

* `Text.KeepsOpen`: a text that does not end the comment that it stands in, and
  `TypeExpr.keepsOpen_escapeDoc`: escaped texts are such texts.
* `Text.readComment?` reads a comment.
* `TypeExpr.toList_renderDoc` and `TypeExpr.keepsOpen_said`: what a block is, and that it ends where
  it is meant to.
* `TypeExpr.comments_closed`: the comments of all texts, and where they stand in records.
-/
import ApiTypes.Proofs.Text.Pieces
import ApiTypes.TypeExpr.Render

namespace ApiTypes

/-! ## 1. Reading comments -/

namespace Text

/-- A text does not end the comment that it stands in. -/
def KeepsOpen (cs : List Char) : Prop := ¬ ['*', '/'] <:+: cs

/-- What stands before the first star before a slash, and what follows the slash. -/
def untilClosed : List Char → Option (List Char × List Char)
  | '*' :: '/' :: rest => some ([], rest)
  | c :: cs => (untilClosed cs).map fun (said, rest) => (c :: said, rest)
  | [] => none

/-- What the comment at the front of a text says, and what follows it. -/
def readComment? : List Char → Option (List Char × List Char)
  | '/' :: '*' :: cs => untilClosed cs
  | _ => none

variable {c : Char} {cs ds xs ys rest : List Char}

theorem keepsOpen_nil : KeepsOpen [] := by simp [KeepsOpen]

theorem keepsOpen_cons :
    KeepsOpen (c :: cs) ↔ ¬ (c = '*' ∧ cs.head? = some '/') ∧ KeepsOpen cs := by
  rw [KeepsOpen, List.infix_cons_iff, not_or, List.cons_prefix_cons,
    List.singleton_prefix_iff_head?_eq_some, eq_comm]
  rfl

theorem KeepsOpen.within (h : KeepsOpen cs) (hds : ds <:+: cs) : KeepsOpen ds :=
  fun hclosed => h (hclosed.trans hds)

/-- **A character that is neither a star nor a slash keeps apart what stands around it.** -/
theorem keepsOpen_append_cons (hstar : c ≠ '*') (hslash : c ≠ '/') :
    KeepsOpen (xs ++ c :: ys) ↔ KeepsOpen xs ∧ KeepsOpen ys := by
  induction xs with
  | nil => simp [keepsOpen_cons, keepsOpen_nil, hstar]
  | cons x xs ih =>
    have hhead : (xs ++ c :: ys).head? = some '/' ↔ xs.head? = some '/' := by
      cases xs with
      | nil => simp [hslash]
      | cons y xs => rfl
    rw [List.cons_append, keepsOpen_cons, keepsOpen_cons, hhead, ih, and_assoc]

/-- **What keeps a comment open is read to its end.** -/
theorem untilClosed_append (h : KeepsOpen (cs ++ ['*'])) (rest : List Char) :
    untilClosed (cs ++ '*' :: '/' :: rest) = some (cs, rest) := by
  induction cs with
  | nil => rfl
  | cons c cs ih =>
    obtain ⟨hfirst, hopen⟩ := keepsOpen_cons.mp h
    rw [List.cons_append, untilClosed, ih hopen]
    · rfl
    · intro rest' hc heq
      refine hfirst ⟨hc, ?_⟩
      cases cs with
      | nil => cases heq
      | cons d cs =>
        cases heq
        rfl

/-- **The mark that ends the comment is the only one.** -/
theorem eq_of_append_closer (h : KeepsOpen (cs ++ ['*'])) {before after : List Char}
    (hclosed : cs ++ ['*', '/', '\n'] = before ++ '*' :: '/' :: after) :
    before = cs ∧ after = ['\n'] := by
  rcases List.append_eq_append_iff.mp hclosed with ⟨as, rfl, has⟩ | ⟨bs, rfl, hbs⟩
  · match as, has with
    | [], has => simpa [eq_comm] using has
    | [_], has => simp at has
    | [_, _], has => simp at has
    | [_, _, _], has => simp at has
  · match bs, hbs with
    | [], hbs => simpa [eq_comm] using hbs
    | [_], hbs => simp at hbs
    | b :: b' :: bs, hbs =>
      obtain ⟨rfl, rfl, -⟩ : '*' = b ∧ '/' = b' ∧ _ := by simpa using hbs
      refine absurd ?_ h
      exact ⟨before, bs ++ ['*'], by simp⟩

end Text

namespace TypeExpr

open Text

/-! ## 2. Escaped texts -/

theorem head?_escapeDoc (cs : List Char) : (escapeDoc cs).head? = cs.head? := by
  fun_cases escapeDoc cs <;> rfl

/-- **An escaped text keeps a comment open.** -/
theorem keepsOpen_escapeDoc (cs : List Char) : KeepsOpen (escapeDoc cs) := by
  fun_induction escapeDoc cs with
  | case1 cs ih => simpa [keepsOpen_cons] using ih
  | case2 c cs hne ih =>
    refine keepsOpen_cons.mpr ⟨?_, ih⟩
    rintro ⟨rfl, hhead⟩
    rw [head?_escapeDoc] at hhead
    obtain ⟨rest, rfl⟩ : ∃ rest, cs = '/' :: rest := List.head?_eq_some_iff.mp hhead
    exact hne rest rfl rfl
  | case3 => exact keepsOpen_nil

/-! ## 3. Blocks -/

variable {text : String} {level : Nat}

/-- The lines of a comment, as far as they come from its text. -/
def docLines (text : String) : List (List Char) := lines (escapeDoc text.toList)

theorem of_mem_docLines {line : List Char} (h : line ∈ docLines text) :
    KeepsOpen line ∧ '\n' ∉ line := by
  obtain ⟨hline, hbreak⟩ := of_mem_lines h
  exact ⟨(keepsOpen_escapeDoc _).within hline, hbreak⟩

/-- A line of a block of several lines, without its margin. -/
def starred (line : List Char) : List Char :=
  if line = [] then [' ', '*'] else ' ' :: '*' :: ' ' :: line

/-- The characters of a margin. -/
def marginChars (level : Nat) : List Char := List.replicate (2 * level) ' '

theorem toList_margin (level : Nat) : (margin level).toList = marginChars level :=
  String.toList_ofList

/-- The lines of a block of several lines, but for the first and the last. -/
def starredLines (ls : List (List Char)) (level : Nat) : List (List Char) :=
  ls.map fun line => marginChars level ++ starred line

/-- What a comment says, with the margins of its lines. -/
def said (text : String) (level : Nat) : List Char :=
  match docLines text with
  | [line] => '*' :: ' ' :: (line ++ [' '])
  | ls => '*' :: '\n' :: (endLines (starredLines ls level) ++ (marginChars level ++ [' ']))

theorem toList_join_starred (ls : List (List Char)) (level : Nat) :
    (String.join ((ls.map String.ofList).map fun line =>
      if line = "" then margin level ++ " *\n" else margin level ++ " * " ++ line ++ "\n")).toList
      = endLines (starredLines ls level) := by
  induction ls with
  | nil => rfl
  | cons line ls ih =>
    have hfirst : (if String.ofList line = "" then margin level ++ " *\n"
        else margin level ++ " * " ++ String.ofList line ++ "\n").toList
        = marginChars level ++ (starred line ++ ['\n']) := by
      by_cases hline : line = []
      · simp [hline, starred, toList_margin]
      · simp [hline, starred, toList_margin]
    rw [List.map_cons, List.map_cons, String.join_cons, String.toList_append, hfirst, ih]
    simp [endLines, starredLines]

/-- **The block is one comment**, behind its margin and before the end of its last line. -/
theorem toList_renderDoc (text : String) (level : Nat) : (renderDoc text level).toList =
    marginChars level ++ '/' :: '*' :: (said text level ++ ['*', '/', '\n']) := by
  unfold renderDoc docBlock said docLines
  match lines (escapeDoc text.toList) with
  | [] => simp [endLines, starredLines, toList_margin]
  | [line] => simp [toList_margin]
  | line :: line' :: ls =>
    have hjoin := toList_join_starred (line :: line' :: ls) level
    simp only [List.map_cons, String.toList_append, toList_margin] at hjoin ⊢
    rw [hjoin]
    simp

@[simp] theorem keepsOpen_margin : KeepsOpen (marginChars level ++ cs) ↔ KeepsOpen cs := by
  unfold marginChars
  induction 2 * level with
  | zero => rfl
  | succ n ih => simpa [List.replicate_succ, keepsOpen_cons] using ih

theorem keepsOpen_starred {line : List Char} (h : KeepsOpen line) : KeepsOpen (starred line) := by
  unfold starred
  split
  · simp [keepsOpen_cons, keepsOpen_nil]
  · simpa [keepsOpen_cons] using h

theorem keepsOpen_starredLines {ls : List (List Char)} (h : ∀ line ∈ ls, KeepsOpen line)
    (hrest : KeepsOpen cs) : KeepsOpen (endLines (starredLines ls level) ++ cs) := by
  induction ls with
  | nil => exact hrest
  | cons line ls ih =>
    have hline : KeepsOpen line := h line List.mem_cons_self
    have hlines := ih fun line' hline' => h line' (List.mem_cons_of_mem line hline')
    have hsplit : endLines (starredLines (line :: ls) level) ++ cs = marginChars level
        ++ (starred line ++ '\n' :: (endLines (starredLines ls level) ++ cs)) := by
      simp [endLines, starredLines]
    rw [hsplit, keepsOpen_margin, keepsOpen_append_cons (by decide) (by decide)]
    exact ⟨keepsOpen_starred hline, hlines⟩

/-- **What a comment says keeps it open**, also before the star that ends it. -/
theorem keepsOpen_said (text : String) (level : Nat) : KeepsOpen (said text level ++ ['*']) := by
  have hopen : ∀ line ∈ docLines text, KeepsOpen line := fun _ hline => (of_mem_docLines hline).1
  unfold said
  split
  · rename_i line hlines
    have hline : KeepsOpen line := hopen line (by simp [hlines])
    simpa [keepsOpen_cons, keepsOpen_append_cons, keepsOpen_nil] using hline
  · have hlast : KeepsOpen (marginChars level ++ [' ', '*']) :=
      keepsOpen_margin.mpr (by simp [keepsOpen_cons, keepsOpen_nil])
    simpa [keepsOpen_cons] using keepsOpen_starredLines hopen hlast

theorem head?_said (text : String) (level : Nat) : (said text level).head? = some '*' := by
  unfold said
  split
  · rfl
  · rfl

/-- **The mark at the end of the block is the only one.** -/
theorem eq_of_renderDoc_closed {before after : List Char}
    (h : (renderDoc text level).toList = before ++ '*' :: '/' :: after) :
    before = marginChars level ++ '/' :: '*' :: said text level ∧ after = ['\n'] := by
  have hopen : KeepsOpen ((marginChars level ++ '/' :: '*' :: said text level) ++ ['*']) := by
    rw [List.append_assoc, keepsOpen_margin]
    refine keepsOpen_cons.mpr ⟨by simp, keepsOpen_cons.mpr ⟨?_, keepsOpen_said text level⟩⟩
    simp [head?_said]
  refine eq_of_append_closer hopen ?_
  rw [← h, toList_renderDoc]
  simp

/-- A comment says all lines of its text. -/
theorem infix_said {line : List Char} (h : line ∈ docLines text) : line <:+: said text level := by
  unfold said
  split
  · rename_i line' hlines
    obtain rfl : line = line' := by simpa [hlines] using h
    exact ⟨['*', ' '], [' '], rfl⟩
  · have hstarred : line <:+: starred line := by
      unfold starred
      split
      · rename_i hline
        exact hline ▸ List.nil_infix
      · exact ⟨[' ', '*', ' '], [], by simp⟩
    have hwritten : starred line <:+: endLines (starredLines (docLines text) level) := by
      obtain ⟨front, back, hsplit⟩ := List.append_of_mem h
      refine ⟨endLines (starredLines front level) ++ marginChars level,
        '\n' :: endLines (starredLines back level), ?_⟩
      simp [hsplit, endLines, starredLines]
    have hblock : endLines (starredLines (docLines text) level) <:+: '*' :: '\n' ::
        (endLines (starredLines (docLines text) level) ++ (marginChars level ++ [' '])) :=
      ⟨['*', '\n'], _, by simp; rfl⟩
    exact (hstarred.trans hwritten).trans hblock

/-! ## 4. The lines of a block -/

/-- The lines of a comment block. -/
def blockLines (text : String) (level : Nat) : List (List Char) :=
  match docLines text with
  | [line] => [marginChars level ++ '/' :: '*' :: '*' :: ' ' :: (line ++ [' ', '*', '/'])]
  | ls => (marginChars level ++ ['/', '*', '*']) :: (starredLines ls level
      ++ [marginChars level ++ [' ', '*', '/']])

theorem endLines_blockLines (text : String) (level : Nat) :
    endLines (blockLines text level) = (renderDoc text level).toList := by
  rw [toList_renderDoc]
  unfold blockLines said
  split
  · simp [endLines]
  · simp [endLines]

/-- **Each line of a block stands behind the margin**, and says something. -/
theorem of_mem_blockLines {line : List Char} (h : line ∈ blockLines text level) :
    '\n' ∉ line ∧ ∃ c cs, line = marginChars level ++ c :: cs := by
  have hmargin : '\n' ∉ marginChars level := by simp [marginChars]
  have hbreak : ∀ line ∈ docLines text, '\n' ∉ line := fun _ hline => (of_mem_docLines hline).2
  unfold blockLines at h
  split at h
  · rename_i said hsaid
    obtain rfl := List.mem_singleton.mp h
    have hsaid : '\n' ∉ said := hbreak said (by simp [hsaid])
    exact ⟨by simp [hmargin, hsaid], _, _, rfl⟩
  · simp only [starredLines, List.mem_cons, List.mem_append, List.mem_map, List.not_mem_nil,
      or_false] at h
    rcases h with rfl | ⟨said, hsaid, rfl⟩ | rfl
    · exact ⟨by simp [hmargin], _, _, rfl⟩
    · have hsaid := hbreak said hsaid
      unfold starred
      split
      · exact ⟨by simp [hmargin], _, _, rfl⟩
      · exact ⟨by simp [hmargin, hsaid], _, _, rfl⟩
    · exact ⟨by simp [hmargin], _, _, rfl⟩

/-- **The lines of a block are indented.** -/
theorem margin_prefix_of_mem_lines {line : List Char}
    (h : line ∈ lines (renderDoc text level).toList) : (margin level).toList <+: line := by
  rw [← endLines_blockLines, lines_endLines fun _ hline => (of_mem_blockLines hline).1] at h
  obtain ⟨written, hwritten, rfl⟩ := List.mem_map.mp h
  obtain ⟨-, c, cs, rfl⟩ := of_mem_blockLines hwritten
  rw [toList_margin]
  unfold withoutReturn
  split
  · rw [List.dropLast_append_cons]
    exact List.prefix_append _ _
  · exact List.prefix_append _ _

/-! ## 5. The comments of a record -/

variable {m : Member TypeExpr} {ms : List (Member TypeExpr)} {r : Record TypeExpr}

/-- A blank text is no comment. -/
theorem renderMember_blank (hdoc : m.doc = some text) (htext : Text.trim text = "") :
    renderMember level m = renderMember level { m with doc := none } := by
  obtain ⟨key, type, optional, readonly, doc⟩ := m
  obtain rfl : doc = some text := hdoc
  rw [renderMember, renderMember]
  simp [htext]

/-- **A member's comment stands right before the member.** -/
theorem renderMember_documented (hdoc : m.doc = some text) (htext : Text.trim text ≠ "") :
    renderMember level m
      = renderDoc text (level + 1) ++ renderMember level { m with doc := none } := by
  obtain ⟨key, type, optional, readonly, doc⟩ := m
  obtain rfl : doc = some text := hdoc
  rw [renderMember, renderMember]
  simp [htext, String.append_assoc]

/-- The lines of a member are ended. -/
theorem exists_renderMember (level : Nat) (m : Member TypeExpr) :
    ∃ cs, (renderMember level m).toList = cs ++ ['\n'] := by
  obtain ⟨key, type, optional, readonly, doc⟩ := m
  rw [← List.getLast?_eq_some_iff, renderMember.eq_def, String.toList_append, List.getLast?_append]
  rfl

/-- **The lines of a member begin a line** among those of all members. -/
theorem exists_renderMembers (level : Nat) (h : m ∈ ms) : ∃ before after,
    (renderMembers level ms).toList = before ++ ((renderMember level m).toList ++ after) ∧
    ('\n' :: before).getLast? = some '\n' := by
  induction ms with
  | nil => cases h
  | cons m' ms ih =>
    rw [renderMembers, String.toList_append]
    rcases List.mem_cons.mp h with rfl | h
    · exact ⟨[], _, rfl, rfl⟩
    · obtain ⟨before, after, hsplit, hends⟩ := ih h
      obtain ⟨cs, hcs⟩ := exists_renderMember level m'
      refine ⟨cs ++ '\n' :: before, after, ?_, ?_⟩
      · rw [hsplit, hcs, List.append_assoc, List.append_assoc, List.singleton_append,
          List.cons_append]
      · rw [← List.cons_append, List.getLast?_append, hends]
        rfl

/-- The lines of a member of a record begin a line of its text. -/
theorem exists_renderRecord (level : Nat) (h : m ∈ r.members) : ∃ before after,
    (renderRecord level r).toList = before ++ '\n' :: ((renderMember level m).toList ++ after) := by
  obtain ⟨members, catchAll, readonly⟩ := r
  obtain ⟨before, after, hsplit, hends⟩ := exists_renderMembers level h
  obtain ⟨front, hfront⟩ := List.getLast?_eq_some_iff.mp hends
  have hmembers : members.isEmpty = false := by
    rw [List.isEmpty_eq_false_iff]
    exact List.ne_nil_of_mem h
  rw [renderRecord, if_neg (by simp [hmembers])]
  refine ⟨'{' :: front, after ++ (renderCatchAll level readonly catchAll).toList
    ++ (margin level).toList ++ ['}'], ?_⟩
  have hopened : "\x7b\n".toList ++ before = '{' :: front ++ ['\n'] := congrArg ('{' :: ·) hfront
  simp only [String.toList_append, hsplit, List.append_assoc]
  rw [← List.append_assoc, hopened]
  simp

/-- **No text can end its comment.**  A comment block holds the mark that ends it once, right before
its last line end, and each of its lines is indented.  In the text of a record the comment of a
member begins a line, is read to where it is meant to end, right before the member, and says all
lines of its text; only a blank text is left out. -/
theorem comments_closed (text : String) (level : Nat) :
    (∃ before, (renderDoc text level).toList = before ++ ['*', '/', '\n'] ∧
      ∀ front back, (renderDoc text level).toList = front ++ '*' :: '/' :: back →
        front = before ∧ back = ['\n']) ∧
    (∀ line ∈ lines (renderDoc text level).toList, (margin level).toList <+: line) ∧
    ∀ (r : Record TypeExpr) (m : Member TypeExpr), m ∈ r.members → m.doc = some text →
      (Text.trim text = "" → renderMember level m = renderMember level { m with doc := none }) ∧
      (Text.trim text ≠ "" → ∃ before comment said after,
        (renderRecord level r).toList
          = before ++ '\n' :: ((margin (level + 1)).toList ++ comment) ∧
        readComment? comment = some (said, '\n' ::
          ((renderMember level { m with doc := none }).toList ++ after)) ∧
        ∀ line ∈ lines (escapeDoc text.toList), line <:+: said) := by
  refine ⟨⟨marginChars level ++ '/' :: '*' :: said text level, ?_, ?_⟩, ?_, ?_⟩
  · rw [toList_renderDoc]
    simp
  · intro front back hclosed
    exact eq_of_renderDoc_closed hclosed
  · intro line hline
    exact margin_prefix_of_mem_lines hline
  · intro r m hm hdoc
    refine ⟨renderMember_blank hdoc, fun htext => ?_⟩
    obtain ⟨before, after, hsplit⟩ := exists_renderRecord level hm
    rw [renderMember_documented hdoc htext, String.toList_append, toList_renderDoc] at hsplit
    refine ⟨before, '/' :: '*' :: (said text (level + 1) ++ '*' :: '/' :: _), said text (level + 1),
      after, ?_, untilClosed_append (keepsOpen_said text (level + 1)) _, ?_⟩
    · rw [hsplit, toList_margin]
      simp
    · intro line hline
      exact infix_said hline

/-- A member whose text would end its comment, and begins a line with a slash. -/
def commented : Member TypeExpr :=
  { key := .name "id", type := .primitive .string, doc := some "closes */\r\n/ and goes on *" }

/-- The comment of this member is closed after both of its lines. -/
theorem comments_closed_commented : Text.trim "closes */\r\n/ and goes on *" ≠ "" ∧
    ∃ before comment said after,
      (renderRecord 0 { members := [commented] }).toList
        = before ++ '\n' :: ((margin 1).toList ++ comment) ∧
      readComment? comment = some (said, '\n' ::
        ((renderMember 0 { commented with doc := none }).toList ++ after)) ∧
      "closes *\\/".toList <:+: said ∧ "/ and goes on *".toList <:+: said := by
  have htrim : Text.trim "closes */\r\n/ and goes on *" ≠ "" := by decide
  obtain ⟨before, comment, said, after, hsplit, hread, hsaid⟩ :=
    ((comments_closed "closes */\r\n/ and goes on *" 0).2.2 { members := [commented] } commented
      (List.mem_singleton.mpr rfl) rfl).2 htrim
  exact ⟨htrim, before, comment, said, after, hsplit, hread, hsaid _ (by decide),
    hsaid _ (by decide)⟩

end TypeExpr

end ApiTypes
