-- Text with something new in every place of something old. The places are found from left to
-- right and none overlaps another. What is replaced has no newline in it, so each line can be
-- read on its own.
import BlockCode.Proofs.Text.Within

namespace BlockCode.Text

/-- The second text is the first one with the new in every place of the old. A place begins
where none before it is still to be passed over. -/
inductive Replaced (old new : List Char) : List Char → List Char → Prop
  | nil : Replaced old new [] []
  | place {rest shown : List Char} :
      Replaced old new rest shown → Replaced old new (old ++ rest) (new ++ shown)
  | other {c : Char} {rest shown : List Char} : ¬ old <+: c :: rest →
      Replaced old new rest shown → Replaced old new (c :: rest) (c :: shown)

section Lists

variable {old new text shown : List Char}

theorem replaced_replaceFrom (hold : old ≠ []) (new text : List Char) :
    Replaced old new text (replaceFrom old new 0 text) := by
  obtain ⟨c, cs, rfl⟩ := List.exists_cons_of_ne_nil hold
  -- A place may be as long as all that is left, so the induction is on the length.
  induction hlength : text.length using Nat.strongRecOn generalizing text with
  | ind length ih =>
    by_cases hplace : c :: cs <+: text
    · obtain ⟨rest, rfl⟩ := hplace
      rw [replaceFrom_place]
      apply Replaced.place
      apply ih rest.length _ rest rfl
      simp at hlength
      omega
    · cases text with
      | nil => exact .nil
      | cons d rest =>
        have hnot : ¬ (c :: cs).isPrefixOf (d :: rest) = true := by simpa using hplace
        rw [replaceFrom, if_neg hnot]
        apply Replaced.other hplace
        apply ih rest.length _ rest rfl
        simp at hlength
        omega

theorem Replaced.eq (h : Replaced old new text shown) (hold : old ≠ []) :
    shown = replaceFrom old new 0 text := by
  obtain ⟨c, cs, rfl⟩ := List.exists_cons_of_ne_nil hold
  induction h with
  | nil => rfl
  | place _ ih => rw [ih, replaceFrom_place]
  | @other d rest shown hplace _ ih =>
    have hnot : ¬ (c :: cs).isPrefixOf (d :: rest) = true := by simpa using hplace
    rw [ih, replaceFrom, if_neg hnot]

theorem prefix_of_line {front rest : List Char} (hline : '\n' ∉ old)
    (h : old <+: front ++ '\n' :: rest) : old <+: front := by
  obtain ⟨behind, heq⟩ := h
  rcases List.append_eq_append_iff.mp heq with ⟨more, rfl, -⟩ | ⟨_ | ⟨c, more⟩, hold, hrest⟩
  · exact List.prefix_append old more
  · rw [hold, List.append_nil]
  · rw [hold, ← (List.cons.inj hrest).1] at hline
    simp at hline

/-- No place goes on behind a newline. -/
theorem Replaced.append (h : Replaced old new text shown) (hold : old ≠ []) (hline : '\n' ∉ old)
    {rest shown' : List Char} (h' : Replaced old new rest shown') :
    Replaced old new (text ++ '\n' :: rest) (shown ++ '\n' :: shown') := by
  induction h with
  | nil =>
    apply Replaced.other _ h'
    intro hplace
    obtain ⟨c, cs, rfl⟩ := List.exists_cons_of_ne_nil hold
    rw [List.cons_prefix_cons] at hplace
    simp [hplace.1] at hline
  | place _ ih =>
    rw [List.append_assoc, List.append_assoc]
    exact .place ih
  | @other c front shown hplace _ ih =>
    rw [List.cons_append, List.cons_append]
    apply Replaced.other _ ih
    intro hlonger
    exact hplace (prefix_of_line hline hlonger)

/-- Where a character only begins places, and is not in what is put there, it is gone. -/
theorem Replaced.not_mem {c : Char} (h : Replaced old new text shown) (hnew : c ∉ new)
    (hopens : ∀ front rest, text = front ++ c :: rest → old <+: c :: rest) : c ∉ shown := by
  induction h with
  | nil => simp
  | place _ ih =>
    rw [List.mem_append, not_or]
    refine ⟨hnew, ih ?_⟩
    intro front rest heq
    exact hopens (old ++ front) rest (by rw [heq, List.append_assoc])
  | @other d rest shown hplace _ ih =>
    rw [List.mem_cons, not_or]
    constructor
    · rintro rfl
      exact hplace (hopens [] rest rfl)
    · apply ih
      intro front behind heq
      exact hopens (d :: front) behind (by rw [heq]; rfl)

end Lists

/-- Replacing is the one thing that makes such a text. -/
theorem replaced_iff {old : String} (hold : old.toList ≠ []) (new text shown : String) :
    Replaced old.toList new.toList text.toList shown.toList ↔ replaceAll old new text = shown := by
  unfold replaceAll
  rw [← String.toList_inj, String.toList_ofList]
  constructor
  · exact fun h => (h.eq hold).symm
  · intro heq
    rw [← heq]
    exact replaced_replaceFrom hold _ _

theorem replaceAll_joinLines {old : String} (hold : old.toList ≠ []) (hline : '\n' ∉ old.toList)
    (new : String) (texts : List String) :
    replaceAll old new (joinLines texts) = joinLines (texts.map (replaceAll old new)) := by
  unfold joinLines
  induction texts with
  | nil => rfl
  | cons text rest ih =>
    by_cases hrest : rest = []
    · simp [hrest]
    · have hmap : rest.map (replaceAll old new) ≠ [] := by simpa using hrest
      rw [List.map_cons, String.intercalate_cons_of_ne_nil hrest,
        String.intercalate_cons_of_ne_nil hmap, ← ih, ← replaced_iff hold]
      have happend := Replaced.append ((replaced_iff hold new text _).mpr rfl) hold hline
        ((replaced_iff hold new ("\n".intercalate rest) _).mpr rfl)
      simpa [String.toList_append] using happend

end BlockCode.Text
