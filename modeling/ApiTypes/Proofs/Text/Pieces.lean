/-
# Pieces and lines

A text is cut at each separator, and its lines are the pieces between its line ends, without the
carriage returns that belong to these.

* `Text.intercalate_pieces` and `Text.separator_notMem_of_mem_pieces`: what the pieces are.
* `Text.pieces_append_separator`: a text is cut at a separator in its middle.
* `Text.of_mem_lines` and `Text.lines_endLines`: what a line is, and which lines are written.
-/
import ApiTypes.Text.Basic
import Mathlib.Data.List.Infix

namespace ApiTypes.Text

variable {separator : Char} {cs ds p : List Char}

/-- A piece has no separators in it. -/
theorem separator_notMem_of_mem_pieces (h : p ∈ pieces separator cs) : separator ∉ p := by
  induction cs generalizing p with
  | nil =>
    simp only [pieces, List.mem_singleton] at h
    simp [h]
  | cons c cs ih =>
    by_cases hc : c = separator
    · rw [pieces, if_pos hc] at h
      rcases List.mem_cons.mp h with rfl | h
      · simp
      · exact ih h
    · rw [pieces, if_neg hc] at h
      split at h
      · simp only [List.mem_singleton] at h
        simp [h, Ne.symm hc]
      · rename_i q ps hps
        rcases List.mem_cons.mp h with rfl | h
        · have hq : separator ∉ q := ih (hps ▸ List.mem_cons_self)
          simp [hq, Ne.symm hc]
        · exact ih (hps ▸ List.mem_cons_of_mem q h)

/-- **A text is cut at each separator**, also at one in its middle. -/
theorem pieces_append_separator (cs ds : List Char) :
    pieces separator (cs ++ separator :: ds) = pieces separator cs ++ pieces separator ds := by
  induction cs with
  | nil => simp [pieces]
  | cons c cs ih =>
    by_cases hc : c = separator
    · simp [pieces, hc, ih]
    · rw [List.cons_append, pieces, if_neg hc, pieces, if_neg hc, ih]
      cases h : pieces separator cs with
      | nil => exact absurd h (pieces_ne_nil separator cs)
      | cons p ps => rfl

/-- **The pieces with separators between them are the text.** -/
theorem intercalate_pieces (separator : Char) (cs : List Char) :
    List.intercalate [separator] (pieces separator cs) = cs := by
  induction cs with
  | nil => rfl
  | cons c cs ih =>
    by_cases hc : c = separator
    · rw [pieces, if_pos hc]
      cases h : pieces separator cs with
      | nil => exact absurd h (pieces_ne_nil separator cs)
      | cons p ps =>
        rw [List.intercalate_cons_cons, ← h, ih, hc]
        rfl
    · rw [pieces, if_neg hc]
      cases h : pieces separator cs with
      | nil => exact absurd h (pieces_ne_nil separator cs)
      | cons p ps =>
        rw [h] at ih
        cases ps with
        | nil => simpa using ih
        | cons q ps =>
          rw [List.intercalate_cons_cons] at ih ⊢
          rw [List.cons_append, List.cons_append, ih]

/-- A piece stands in the text. -/
theorem infix_of_mem_pieces (h : p ∈ pieces separator cs) : p <:+: cs := by
  have hinfix : p <:+: List.intercalate [separator] (pieces separator cs) := infix_intercalate h
  rwa [intercalate_pieces] at hinfix

/-- **A line stands in the text**, and it has no line feed in it. -/
theorem of_mem_lines {line : List Char} (h : line ∈ lines cs) : line <:+: cs ∧ '\n' ∉ line := by
  have hpiece : ∃ q ∈ pieces '\n' cs, line <+: q := by
    rw [lines, List.mem_append] at h
    rcases h with h | h
    · obtain ⟨q, hq, rfl⟩ := List.mem_map.mp h
      refine ⟨q, List.mem_of_mem_dropLast hq, ?_⟩
      unfold withoutReturn
      split
      · exact List.dropLast_prefix q
      · exact List.prefix_rfl
    · split at h
      · cases h
      · obtain rfl := List.mem_singleton.mp h
        obtain ⟨last, hlast⟩ := Option.isSome_iff_exists.mp
          (List.getLast?_isSome.mpr (pieces_ne_nil '\n' cs))
        rw [hlast, Option.getD_some]
        exact ⟨last, List.mem_of_getLast? hlast, List.prefix_rfl⟩
  obtain ⟨q, hq, hline⟩ := hpiece
  constructor
  · exact hline.isInfix.trans (infix_of_mem_pieces hq)
  · intro hmem
    exact separator_notMem_of_mem_pieces hq (hline.subset hmem)

/-- The text of some lines, each of which is ended. -/
def endLines (ls : List (List Char)) : List Char := ls.flatMap fun line => line ++ ['\n']

/-- **The lines that are written are read back**, but for the carriage returns at their ends. -/
theorem lines_endLines {ls : List (List Char)} (h : ∀ line ∈ ls, '\n' ∉ line) :
    lines (endLines ls) = ls.map withoutReturn := by
  have hpieces : pieces '\n' (endLines ls) = ls ++ [[]] := by
    induction ls with
    | nil => rfl
    | cons line ls ih =>
      obtain ⟨hline, hls⟩ := List.forall_mem_cons.mp h
      have hends : endLines (line :: ls) = line ++ '\n' :: endLines ls := by simp [endLines]
      rw [hends, pieces_append_separator, pieces_of_notMem hline, ih hls]
      rfl
  simp [lines, hpieces]

end ApiTypes.Text
