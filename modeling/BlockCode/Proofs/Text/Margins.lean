-- The lines of a text that are not blank, and how far they are indented. An indent is put before
-- each of these lines as often as the text is nested, and nothing else moves them: a line that began
-- at the margin begins behind so many copies of the indent.
import BlockCode.Proofs.Text.Remarked

namespace BlockCode.Text

/-! ## Lines that are not blank -/

/-- The line, if there is more on it than spaces and tabs. -/
def inked? (line : List Char) : Option (List Char) := if line.all isGap then none else some line

/-- The lines of a program that are not blank. -/
def inked (text : String) : List (List Char) := gather inked? text

/-- The lines of a text that are not blank, when the spaces and tabs at the ends of lines are
gone. -/
def printed (text : String) : List (List Char) := gather (fun line => inked? (trimmed line)) text

theorem trimmed_all_gap {line : List Char} (h : (trimmed line).all isGap = true) :
    trimmed line = [] := by
  cases line with
  | nil => rfl
  | cons c rest =>
    rw [trimmed] at h ⊢
    split at h
    · rename_i hnone
      rw [if_pos hnone]
    · rename_i hsome
      rw [List.all_cons, Bool.and_eq_true] at h
      rw [h.1, Bool.true_and, List.isEmpty_iff] at hsome
      exact absurd (trimmed_all_gap h.2) hsome

theorem inked?_trimmed (line : List Char) :
    inked? (trimmed line) = if trimmed line = [] then none else some (trimmed line) := by
  unfold inked?
  by_cases h : trimmed line = []
  · rw [h]
    rfl
  · rw [if_neg fun hgaps => h (trimmed_all_gap hgaps), if_neg h]

theorem inked?_gaps {line : List Char} (h : ∀ c ∈ line, isGap c = true) :
    inked? (trimmed line) = none := by
  rw [trimmed_eq_nil.mpr (List.all_eq_true.mpr h)]
  rfl

theorem inked?_behind {gaps : List Char} (h : ∀ c ∈ gaps, isGap c = true) (line : List Char) :
    inked? (trimmed (gaps ++ line)) = (inked? (trimmed line)).map (gaps ++ ·) := by
  have htrimmed : trimmed (gaps ++ line) =
      if trimmed line = [] then [] else gaps ++ trimmed line := by
    induction gaps with
    | nil => split <;> simp [*]
    | cons c gaps ih =>
      obtain ⟨hc, hgaps⟩ := List.forall_mem_cons.mp h
      rw [List.cons_append, trimmed, ih hgaps, hc]
      split
      · simp
      · rename_i hsome
        simp [hsome]
  rw [inked?_trimmed, inked?_trimmed, htrimmed]
  split <;> simp [*]

theorem printed_newline (front : String) : printed (front ++ "\n") = printed front :=
  gather_newline rfl front

theorem Ended.printed {text : String} (h : Ended text) (rest : String) :
    Text.printed (text ++ rest) = Text.printed text ++ Text.printed rest := h.gather rfl rest

theorem printed_indented {indent : String} (h : ∀ c ∈ indent.toList, isGap c = true)
    (text : String) :
    printed (leadLines indent text) = (printed text).map (indent.toList ++ ·) := by
  have hnewline : '\n' ∉ indent.toList := fun hmem => absurd (h _ hmem) (by decide)
  unfold printed
  rw [gather_leadLines hnewline rfl (inked?_gaps h)]
  unfold gather
  rw [List.map_filterMap]
  exact List.filterMap_congr fun line _ => inked?_behind h line

theorem not_gap {c : Char} (h : isBlank c = false) : isGap c = false := by
  rw [Bool.eq_false_iff] at h ⊢
  exact fun hgap => h (isBlank_of_isGap hgap)

theorem exists_line_of_mem {c : Char} (hc : c ≠ '\n') {cs : List Char} (h : c ∈ cs) :
    ∃ line ∈ lines cs, c ∈ line := by
  induction cs with
  | nil => cases h
  | cons d rest ih =>
    rcases hd : d == '\n' with _ | _
    · obtain ⟨first, others, hlines⟩ := exists_lines rest
      rw [lines_cons hd hlines]
      rcases List.mem_cons.mp h with rfl | hrest
      · exact ⟨c :: first, List.mem_cons_self, List.mem_cons_self⟩
      · obtain ⟨line, hline, hmem⟩ := ih hrest
        rw [hlines] at hline
        rcases List.mem_cons.mp hline with rfl | hother
        · exact ⟨d :: line, List.mem_cons_self, List.mem_cons_of_mem d hmem⟩
        · exact ⟨line, List.mem_cons_of_mem _ hother, hmem⟩
    · have hne : c ≠ d := by rwa [beq_iff_eq.mp hd]
      obtain ⟨line, hline, hmem⟩ := ih ((List.mem_cons.mp h).resolve_left hne)
      rw [beq_iff_eq.mp hd, lines_newline]
      exact ⟨line, List.mem_cons_of_mem _ hline, hmem⟩

theorem Firm.trimmed {text : String} (h : Firm text) : Text.trimmed text.toList = text.toList := by
  obtain ⟨front, c, htext, hvisible⟩ := Firm.iff.mp h
  rw [htext]
  clear htext
  induction front with
  | nil => simp [Text.trimmed, not_gap hvisible]
  | cons d front ih =>
    rw [List.cons_append, Text.trimmed, ih]
    simp

theorem Firm.printed_ne_nil {text : String} (h : Firm text) : printed text ≠ [] := by
  obtain ⟨front, c, htext, hvisible⟩ := Firm.iff.mp h
  have hmem : c ∈ text.toList := by simp [htext]
  obtain ⟨line, hline, hc⟩ := exists_line_of_mem (beq_eq_false_iff_ne.mp (not_newline hvisible)) hmem
  intro hnone
  have hblank := List.filterMap_eq_nil_iff.mp hnone line hline
  rw [inked?_trimmed] at hblank
  split at hblank
  · rename_i htrimmed
    have hall := List.all_eq_true.mp (trimmed_eq_nil.mp htrimmed) c hc
    rw [not_gap hvisible] at hall
    cases hall
  · cases hblank

/-! ## Lines at the margin -/

/-- The line begins with something other than a space or a tab. -/
def Flush (line : List Char) : Prop := line.head?.any (!isGap ·) = true

instance (line : List Char) : Decidable (Flush line) := inferInstanceAs (Decidable (_ = true))

theorem Flush.cons {c : Char} (hc : isGap c = false) (rest : List Char) : Flush (c :: rest) := by
  simp [Flush, hc]

theorem Flush.trimmed {line : List Char} (h : Flush line) : Flush (Text.trimmed line) := by
  cases line with
  | nil => cases h
  | cons c rest =>
    have hc : isGap c = false := by simpa [Flush] using h
    rw [Text.trimmed, hc, Bool.false_and, if_neg Bool.false_ne_true]
    exact Flush.cons hc _

theorem Flush.append {line : List Char} (h : Flush line) (rest : List Char) :
    Flush (line ++ rest) := by
  cases line with
  | nil => cases h
  | cons c cs => exact h

theorem Inline.flush {text : String} (h : Inline text) : Flush text.toList := by
  obtain ⟨c, cs, htext, hgap, -⟩ := h.head
  rw [htext]
  exact Flush.cons hgap cs

theorem Inline.printed {text : String} (h : Inline text) : Text.printed text = [text.toList] := by
  have hsome : text.toList ≠ [] := by
    intro hnil
    have hflush := h.flush
    rw [hnil] at hflush
    cases hflush
  unfold Text.printed gather
  rw [h.lines]
  simp [inked?_trimmed, h.firm.trimmed, hsome]

/-- Text that marks comments begins with something other than a space or a tab, and has no
newline. -/
structure Fronts (marker : String) : Prop where
  flush : Flush marker.toList
  newline : '\n' ∉ marker.toList

theorem Fronts.flush_lines {marker : String} (h : Fronts marker) (text : String) :
    ∀ line ∈ printed (leadLines marker text), Flush line := by
  obtain ⟨first, others, hlines⟩ := exists_lines text.toList
  have hled : ∀ line, Flush (marker.toList ++ line) := h.flush.append
  intro line hline
  unfold printed gather at hline
  rw [lines_leadLines h.newline hlines, List.mem_filterMap] at hline
  obtain ⟨source, hsource, hinked⟩ := hline
  rw [inked?_trimmed] at hinked
  split at hinked
  · cases hinked
  · rename_i hsome
    cases hinked
    rcases List.mem_cons.mp hsource with rfl | hsource
    · exact (hled first).trimmed
    · obtain ⟨other, -, rfl⟩ := List.mem_map.mp hsource
      unfold led at hsome ⊢
      split at hsome
      · exact absurd rfl hsome
      · rename_i hne
        rw [if_neg hne]
        exact (hled other).trimmed

/-! ## Levels -/

/-- The line is so many copies of the indent, and then a line that begins at the margin. -/
def AtLevel (indent : String) (level : Nat) (line : List Char) : Prop :=
  ∃ rest, line = (List.replicate level indent.toList).flatten ++ rest ∧ Flush rest

/-- The spaces and tabs before a line that begins at the margin end where it begins. -/
theorem takeWhile_flush {gaps line : List Char} (hgaps : ∀ c ∈ gaps, isGap c = true)
    (hline : Flush line) : (gaps ++ line).takeWhile isGap = gaps := by
  cases line with
  | nil => cases hline
  | cons c rest =>
    have hc : isGap c = false := by simpa [Flush] using hline
    rw [List.takeWhile_append_of_pos hgaps, List.takeWhile_cons_of_neg (by simp [hc]),
      List.append_nil]

/-- What is put before a line one level further in is one more copy of the indent just when it is
the indent. -/
theorem atLevel_behind_iff {indent : String} {level : Nat} {gaps : List Char} {line : List Char}
    (hindent : ∀ c ∈ indent.toList, isGap c = true) (hgaps : ∀ c ∈ gaps, isGap c = true)
    (hline : Flush line) :
    AtLevel indent (level + 1) ((List.replicate level indent.toList).flatten ++ (gaps ++ line)) ↔
      gaps = indent.toList := by
  have hcopies : (List.replicate (level + 1) indent.toList).flatten =
      (List.replicate level indent.toList).flatten ++ indent.toList := by
    rw [List.replicate_succ', List.flatten_append, List.flatten_singleton]
  constructor
  · rintro ⟨rest, heq, hrest⟩
    rw [hcopies, List.append_assoc, List.append_cancel_left_eq] at heq
    rw [← takeWhile_flush hgaps hline, heq, takeWhile_flush hindent hrest]
  · rintro rfl
    exact ⟨line, by rw [hcopies, List.append_assoc], hline⟩

end BlockCode.Text
