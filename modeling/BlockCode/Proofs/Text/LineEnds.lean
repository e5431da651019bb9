-- Lines as a reader of programs counts them. A newline ends a line, a carriage return ends
-- one, and both together end one; text is put before lines that end at newlines only. So what
-- stands behind a carriage return in a comment begins a line of the program, unmarked.
import BlockCode.Document.File
import BlockCode.Proofs.Text.Shown

namespace BlockCode.Text

/-! ## Physical lines -/

/-- The lines of a text when each sort of line end counts. -/
def physicalLines (cs : List Char) : List (List Char) := lines (Document.unifyLines cs)

/-- The lines that are not empty. -/
def filled (ls : List (List Char)) : List (List Char) := ls.filter (!·.isEmpty)

/-- The pieces of the lines of a text between carriage returns. -/
def pieces (cs : List Char) : List (List Char) := (lines cs).flatMap (splitAt '\r')

theorem pieces_newline (rest : List Char) : pieces ('\n' :: rest) = [] :: pieces rest := rfl

theorem pieces_return (rest : List Char) : pieces ('\r' :: rest) = [] :: pieces rest := by
  obtain ⟨first, others, hlines⟩ := exists_lines rest
  unfold pieces
  rw [lines_cons (by decide) hlines, hlines]
  rfl

theorem pieces_cons {c : Char} {cs first : List Char} {others : List (List Char)}
    (hnewline : (c == '\n') = false) (hreturn : (c == '\r') = false)
    (h : pieces cs = first :: others) : pieces (c :: cs) = (c :: first) :: others := by
  obtain ⟨line, later, hlines⟩ := exists_lines cs
  obtain ⟨piece, behind, hpieces⟩ := List.exists_cons_of_ne_nil (splitAt_ne_nil '\r' line)
  unfold pieces at h ⊢
  rw [hlines, List.flatMap_cons, hpieces] at h
  rw [lines_cons hnewline hlines, List.flatMap_cons, splitAt_cons hreturn hpieces]
  cases h
  rfl

/-- Two texts begin with one line, and show the same lines behind it. -/
def SameFilled (ls ls' : List (List Char)) : Prop :=
  ∃ first others others', ls = first :: others ∧ ls' = first :: others' ∧
    filled others = filled others'

namespace SameFilled

variable {ls ls' : List (List Char)}

theorem filled_eq (h : SameFilled ls ls') : filled ls = filled ls' := by
  obtain ⟨first, others, others', rfl, rfl, hsame⟩ := h
  unfold filled at hsame ⊢
  rw [List.filter_cons, List.filter_cons, hsame]

/-- An empty line that goes before both, or before one of them twice. -/
theorem empty (h : SameFilled ls ls') : SameFilled ([] :: ls) ([] :: ls') :=
  ⟨[], ls, ls', rfl, rfl, h.filled_eq⟩

theorem empty_twice (h : SameFilled ls ls') : SameFilled ([] :: ls) ([] :: [] :: ls') :=
  ⟨[], ls, [] :: ls', rfl, rfl, h.filled_eq⟩

end SameFilled

/-- The physical lines of a text are its lines cut at carriage returns, but for empty ones:
a newline right behind a carriage return ends no line of its own. -/
theorem physicalLines_pieces (cs : List Char) : SameFilled (physicalLines cs) (pieces cs) := by
  unfold physicalLines
  fun_induction Document.unifyLines cs with
  | case1 => exact ⟨[], [], [], rfl, rfl, rfl⟩
  | case2 rest ih =>
    rw [lines_newline, pieces_return, pieces_newline]
    exact ih.empty_twice
  | case3 rest _ ih =>
    rw [lines_newline, pieces_return]
    exact ih.empty
  | case4 c rest _ hreturn ih =>
    by_cases hnewline : c = '\n'
    · subst hnewline
      rw [lines_newline, pieces_newline]
      exact ih.empty
    · obtain ⟨first, others, others', hlines, hpieces, hsame⟩ := ih
      have hc : (c == '\n') = false := beq_eq_false_iff_ne.mpr hnewline
      have hr : (c == '\r') = false := beq_eq_false_iff_ne.mpr hreturn
      exact ⟨c :: first, others, others', lines_cons hc hlines, pieces_cons hc hr hpieces, hsame⟩

/-! ## Marked lines -/

/-- Every physical line of the text begins with the marker, or is empty. -/
def Covered (marker text : String) : Prop :=
  ∀ line ∈ physicalLines text.toList, line = [] ∨ marker.toList <+: line

/-- What stands behind a carriage return on a line begins with the marker, or is nothing. -/
def Guarded (marker text : String) : Prop :=
  ∀ line ∈ lines text.toList, ∀ piece ∈ (splitAt '\r' line).tail,
    piece = [] ∨ marker.toList <+: piece

instance (marker text : String) : Decidable (Covered marker text) :=
  inferInstanceAs (Decidable (∀ line ∈ _, _))

instance (marker text : String) : Decidable (Guarded marker text) :=
  inferInstanceAs (Decidable (∀ line ∈ _, ∀ piece ∈ _, _))

variable {marker : String}

theorem forall_filled {ls ls' : List (List Char)} (h : filled ls = filled ls')
    (P : List Char → Prop) : (∀ l ∈ ls, l = [] ∨ P l) ↔ ∀ l ∈ ls', l = [] ∨ P l := by
  have hfilled : ∀ ls : List (List Char), (∀ l ∈ ls, l = [] ∨ P l) ↔ ∀ l ∈ filled ls, P l := by
    intro ls
    unfold filled
    constructor
    · intro hall l hl
      obtain ⟨hmem, hne⟩ := List.mem_filter.mp hl
      exact (hall l hmem).resolve_left (by simpa using hne)
    · intro hall l hl
      by_cases hnone : l = []
      · exact Or.inl hnone
      · exact Or.inr (hall l (List.mem_filter.mpr ⟨hl, by simpa using hnone⟩))
  rw [hfilled, hfilled, h]

theorem covered_iff (text : String) :
    Covered marker text ↔ ∀ piece ∈ pieces text.toList, piece = [] ∨ marker.toList <+: piece :=
  forall_filled (physicalLines_pieces text.toList).filled_eq _

theorem pieces_led (hmarker : '\r' ∉ marker.toList) (line : List Char) :
    (∀ piece ∈ splitAt '\r' (marker.toList ++ line), piece = [] ∨ marker.toList <+: piece) ↔
      ∀ piece ∈ (splitAt '\r' line).tail, piece = [] ∨ marker.toList <+: piece := by
  obtain ⟨first, others, hpieces⟩ := List.exists_cons_of_ne_nil (splitAt_ne_nil '\r' line)
  rw [splitAt_behind hmarker hpieces, hpieces, List.forall_mem_cons, List.tail_cons]
  exact and_iff_right (Or.inr (List.prefix_append _ _))

/-- Text with the marker before its lines shows marked lines only, just when all that stands
behind a carriage return has the marker already. -/
theorem covered_leadLines (hnewline : '\n' ∉ marker.toList) (hreturn : '\r' ∉ marker.toList)
    (text : String) : Covered marker (leadLines marker text) ↔ Guarded marker text := by
  obtain ⟨first, others, hlines⟩ := exists_lines text.toList
  have hled : ∀ line, (∀ piece ∈ splitAt '\r' (led marker.toList line),
      piece = [] ∨ marker.toList <+: piece) ↔
        ∀ piece ∈ (splitAt '\r' line).tail, piece = [] ∨ marker.toList <+: piece := by
    intro line
    unfold led
    split
    · rename_i hempty
      rw [List.isEmpty_iff.mp hempty]
      simp [splitAt]
    · exact pieces_led hreturn line
  rw [covered_iff]
  unfold Guarded pieces
  rw [lines_leadLines hnewline hlines, hlines]
  simp only [List.flatMap_cons, List.forall_mem_append, List.forall_mem_flatMap,
    List.forall_mem_map, List.forall_mem_cons, pieces_led hreturn, hled]

theorem covered_newline (text : String) : Covered marker (text ++ "\n") ↔ Covered marker text := by
  rw [covered_iff, covered_iff]
  unfold pieces
  have hlines : lines (text ++ "\n").toList = lines text.toList ++ [[]] := by
    rw [String.toList_append]
    exact lines_append text.toList []
  rw [hlines, List.flatMap_append, List.forall_mem_append]
  exact and_iff_left (by simp [splitAt])

theorem covered_commentLines (hnewline : '\n' ∉ marker.toList) (hreturn : '\r' ∉ marker.toList)
    (text : String) : Covered marker (commentLines marker text) ↔ Guarded marker text := by
  unfold commentLines
  rw [covered_newline, covered_leadLines hnewline hreturn]

@[simp] theorem guarded_empty : Guarded marker "" := by
  simp [Guarded, lines, splitAt]

theorem guarded_append (front rest : String) :
    Guarded marker (front ++ "\n" ++ rest) ↔ Guarded marker front ∧ Guarded marker rest := by
  unfold Guarded
  have hlines : lines (front ++ "\n" ++ rest).toList = lines front.toList ++ lines rest.toList := by
    rw [← lines_append]
    simp
  rw [hlines, List.forall_mem_append]

end BlockCode.Text
