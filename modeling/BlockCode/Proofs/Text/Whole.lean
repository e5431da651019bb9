-- The whole lines of a text: those that do not end in white space. Each thing that is done to
-- text on its way into a program leaves them whole, whatever the other lines are: an indent is put
-- before them and nothing else, and cleaning takes nothing away from them.
import BlockCode.Proofs.Text.Margins

namespace BlockCode.Text

/-- Something other than white space stands at the end of the line. -/
def isWhole (line : List Char) : Bool := line.getLast?.any (!isBlank ·)

/-- The lines of a text that do not end in white space. -/
def wholeLines (text : String) : List (List Char) := (lines text.toList).filter isWhole

theorem wholeLines_sublist (text : String) : (wholeLines text).Sublist (lines text.toList) :=
  List.filter_sublist

theorem wholeLines_eq (text : String) : wholeLines text = gather (Option.guard isWhole) text := by
  unfold wholeLines gather
  rw [List.filterMap_eq_filter]

theorem isWhole_concat (line : List Char) (c : Char) : isWhole (line ++ [c]) = !isBlank c := by
  unfold isWhole
  rw [List.getLast?_concat]
  rfl

theorem isWhole_gaps {line : List Char} (h : ∀ c ∈ line, isGap c = true) :
    isWhole line = false := by
  rcases List.eq_nil_or_concat' line with rfl | ⟨front, c, rfl⟩
  · rfl
  · rw [isWhole_concat, isBlank_of_isGap (h c (by simp))]
    rfl

/-- Spaces and tabs before a line do not matter. -/
theorem isWhole_behind {gaps : List Char} (h : ∀ c ∈ gaps, isGap c = true) (line : List Char) :
    isWhole (gaps ++ line) = isWhole line := by
  rcases List.eq_nil_or_concat' line with rfl | ⟨front, c, rfl⟩
  · rw [List.append_nil, isWhole_gaps h]
    rfl
  · rw [← List.append_assoc, isWhole_concat, isWhole_concat]

/-! ## Putting texts together -/

theorem wholeLines_newline (front : String) : wholeLines (front ++ "\n") = wholeLines front := by
  rw [wholeLines_eq, wholeLines_eq]
  exact gather_newline rfl front

theorem wholeLines_append (front rest : String) :
    wholeLines (front ++ "\n" ++ rest) = wholeLines front ++ wholeLines rest := by
  simp only [wholeLines_eq]
  exact gather_append front rest

theorem Ended.wholeLines {text : String} (h : Ended text) (rest : String) :
    Text.wholeLines (text ++ rest) = Text.wholeLines text ++ Text.wholeLines rest := by
  simp only [wholeLines_eq]
  exact h.gather rfl rest

/-- An indent is put before every whole line. -/
theorem wholeLines_indented {indent : String} (h : ∀ c ∈ indent.toList, isGap c = true)
    (text : String) :
    wholeLines (leadLines indent text) = (wholeLines text).map (indent.toList ++ ·) := by
  have hnewline : '\n' ∉ indent.toList := fun hmem => absurd (h _ hmem) (by decide)
  have hbare : Option.guard isWhole indent.toList = none := by
    simp [Option.guard, isWhole_gaps h]
  rw [wholeLines_eq, wholeLines_eq, gather_leadLines hnewline rfl hbare]
  unfold gather
  rw [List.map_filterMap]
  refine List.filterMap_congr fun line _ => ?_
  simp only [Option.guard, isWhole_behind h]
  split <;> rfl

/-- A text on one line that ends in something is one whole line. -/
theorem wholeLines_firm {text : String} (hnewline : '\n' ∉ text.toList) (h : Firm text) :
    wholeLines text = [text.toList] := by
  have hline := lines_behind hnewline (rfl : lines [] = [[]])
  rw [List.append_nil] at hline
  unfold wholeLines
  rw [hline]
  exact List.filter_cons_of_pos h

/-! ## Cleaning -/

theorem trimmed_of_isWhole {line : List Char} (h : isWhole line = true) : trimmed line = line := by
  have hfirm : Firm (String.ofList line) := by
    unfold Firm
    rwa [String.toList_ofList]
  have htrimmed := hfirm.trimmed
  rwa [String.toList_ofList] at htrimmed

/-- White space at the end of a text ends no whole line. -/
theorem wholeLines_dropEnd (cs : List Char) :
    ((lines cs).filter isWhole).Sublist ((lines (dropEnd cs)).filter isWhole) := by
  induction cs using List.reverseRecOn with
  | nil => exact List.Sublist.refl _
  | append_singleton cs c ih =>
    rcases hblank : isBlank c with _ | _
    · rw [dropEnd_firm hblank]
    · rw [dropEnd_concat hblank]
      refine List.Sublist.trans ?_ ih
      rcases hc : c == '\n' with _ | _
      · have hsingle : lines [c] = [[c]] := lines_cons hc rfl
        obtain ⟨front, last, hlines, hlonger⟩ := lines_together cs hsingle
        have hbroken : [last ++ [c]].filter isWhole = [] := by
          rw [List.filter_singleton, isWhole_concat, hblank]
          rfl
        rw [hlines, hlonger, List.filter_append, List.filter_append, hbroken, List.append_nil]
        exact List.sublist_append_left _ _
      · rw [beq_iff_eq.mp hc, lines_append, List.filter_append]
        exact (List.append_nil _).symm ▸ List.Sublist.refl _

theorem wholeLines_trimLines (cs : List Char) :
    ((lines cs).filter isWhole).Sublist ((lines (trimLines (cs ++ ['\n']))).filter isWhole) := by
  rw [lines_trimLines, List.filter_append]
  refine List.Sublist.trans ?_ (List.sublist_append_left _ _)
  generalize lines cs = ls
  induction ls with
  | nil => exact List.Sublist.refl _
  | cons line rest ih =>
    rw [List.map_cons, List.filter_cons, List.filter_cons]
    split
    · rename_i hwhole
      rw [trimmed_of_isWhole hwhole, if_pos hwhole]
      exact ih.cons_cons line
    · split
      · exact ih.cons _
      · exact ih

/-- Cleaning a text takes nothing away from its whole lines. -/
theorem wholeLines_clean (text : String) : (wholeLines text).Sublist (wholeLines (clean text)) := by
  have hstart : (lines (dropBlankLines text.toList text.toList)).filter isWhole =
      wholeLines text := by
    have hblank : ∀ line, (∀ c ∈ line, isGap c = true) → Option.guard isWhole line = none := by
      intro line hgaps
      simp [Option.guard, isWhole_gaps hgaps]
    rw [wholeLines_eq, ← List.filterMap_eq_filter]
    exact gather_dropBlankLines hblank (List.forall_mem_nil _) rfl
  rw [← hstart]
  refine (wholeLines_dropEnd _).trans ?_
  unfold clean
  split
  · rename_i hnone
    rw [hnone]
    exact List.nil_sublist _
  · unfold wholeLines
    rw [String.toList_ofList]
    exact wholeLines_trimLines _

end BlockCode.Text
