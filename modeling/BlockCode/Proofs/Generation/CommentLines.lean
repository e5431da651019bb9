-- Comments as they stand in a program. Each line of a comment gets the marker before it, so a
-- comment cannot become code, as long as no carriage return in it begins a line unmarked.
import BlockCode.Proofs.Generation.Remarks
import BlockCode.Proofs.Text.LineEnds

namespace BlockCode

open BlockCode.Text

variable {marker : String}

/-! ## Comments of several blocks -/

theorem guarded_said {blocks : List Block} {comments : String} (h : said blocks = .ok comments) :
    Guarded marker comments ↔ ∀ b ∈ blocks, ∀ text, b.commentOf = .ok text → Guarded marker text := by
  induction blocks generalizing comments with
  | nil =>
    cases h
    exact iff_of_true guarded_empty (List.forall_mem_nil _)
  | cons b rest ih =>
    rw [said_cons] at h
    rcases hown : b.commentOf with fault | own
    · rw [hown] at h
      cases h
    · rcases hrest : said rest with fault | others
      · rw [hown, hrest] at h
        cases h
      · rw [hown, hrest] at h
        cases h
        have hfirst : (∀ text, b.commentOf = .ok text → Guarded marker text) ↔ Guarded marker own := by
          rw [hown]
          constructor
          · intro hall
            exact hall own rfl
          · rintro hguarded text htext
            cases htext
            exact hguarded
        rw [List.forall_mem_cons, hfirst, ← ih hrest]
        split
        · rename_i hnone
          rw [beq_iff_eq.mp hnone, String.empty_append]
          exact (and_iff_right guarded_empty).symm
        · exact guarded_append own others

/-! ## Marked lines -/

/-- When the marker has no line end, a comment shows marked lines only just when whatever
stands behind a carriage return in it has the marker already; and so do the comments of all
blocks of a tree, just when this holds of each of them. -/
theorem comment_marked_iff (hnewline : '\n' ∉ marker.toList) (hreturn : '\r' ∉ marker.toList) :
    (∀ text, Covered marker (commentLines marker text) ↔ Guarded marker text) ∧
      ∀ target : Chain, ∀ comments, target.comments = .ok comments →
        (Covered marker (leadLines marker comments) ↔
          ∀ b ∈ target.blocks, ∀ text, b.commentOf = .ok text → Guarded marker text) := by
  refine ⟨covered_commentLines hnewline hreturn, ?_⟩
  intro target comments hcomments
  rw [covered_leadLines hnewline hreturn]
  rw [comments_eq] at hcomments
  exact guarded_said hcomments

/-- Each newline of a comment is covered, and a carriage return before a marker. -/
theorem threeLines_marked :
    ('\n' ∉ "# ".toList ∧ '\r' ∉ "# ".toList ∧ Guarded "# " "one\ntwo\r# three") ∧
      Covered "# " (commentLines "# " "one\ntwo\r# three") := by
  have hguarded : Guarded "# " "one\ntwo\r# three" := by decide
  refine ⟨⟨by decide, by decide, hguarded⟩, ?_⟩
  exact ((comment_marked_iff (by decide) (by decide)).1 _).mpr hguarded

/-- What stands behind a lone carriage return in a comment is a line without the marker. -/
theorem carriage_return_unmarked : ¬ ∀ marker text : String, '\n' ∉ marker.toList →
    '\r' ∉ marker.toList → Covered marker (commentLines marker text) := by
  intro h
  exact absurd (h "# " "a\rb" (by decide) (by decide)) (by decide)

end BlockCode
