-- The comment lines of a text. What a comment says on each of its lines is found again behind
-- the marker, in whatever depth the text is indented and however it is cleaned; a line that a
-- rule writes begins with a character of its own, and is no comment line.
import BlockCode.Proofs.Text.Shown

namespace BlockCode.Text

/-! ## Comment lines -/

/-- What a line shows behind its indent, if it begins a comment there that is not bare. -/
def remark? (line : List Char) : Option (List Char) :=
  let shown := line.dropWhile isGap
  if shown.head? = some '#' ∧ shown ≠ ['#'] then some shown else none

/-- The comment lines of a program, without their indents and without bare ones. -/
def remarks (text : String) : List (List Char) := gather remark? text

/-- The comment lines of a text, when the spaces and tabs at the ends of lines are gone. -/
def noted (text : String) : List (List Char) := gather (fun line => remark? (trimmed line)) text

/-- A line of a comment as it shows in a program. A line of spaces and tabs shows nothing. -/
def saying? (line : List Char) : Option (List Char) :=
  if line.all isGap then none else some ('#' :: ' ' :: trimmed line)

/-- The lines of a comment as they show in a program. -/
def sayings (comment : String) : List (List Char) := gather saying? comment

theorem trimmed_eq_nil {line : List Char} : trimmed line = [] ↔ line.all isGap = true := by
  induction line with
  | nil => simp [trimmed]
  | cons c rest ih =>
    rw [trimmed, List.all_cons]
    by_cases hc : isGap c = true
    · simp [hc, ih]
    · simp [hc]

theorem remark?_gap {c : Char} (hc : isGap c = true) (line : List Char) :
    remark? (c :: line) = remark? line := by
  unfold remark?
  rw [List.dropWhile_cons_of_pos hc]

theorem remark?_behind {gaps : List Char} (h : ∀ c ∈ gaps, isGap c = true) (line : List Char) :
    remark? (trimmed (gaps ++ line)) = remark? (trimmed line) := by
  induction gaps with
  | nil => rfl
  | cons c gaps ih =>
    obtain ⟨hc, hgaps⟩ := List.forall_mem_cons.mp h
    rw [List.cons_append, trimmed, ← ih hgaps]
    split
    · rename_i hnone
      rw [hc, Bool.true_and, List.isEmpty_iff] at hnone
      rw [hnone]
    · exact remark?_gap hc _

theorem remark?_blank (line : List Char) (h : ∀ c ∈ line, isGap c = true) :
    remark? (trimmed line) = none := by
  rw [trimmed_eq_nil.mpr (List.all_eq_true.mpr h)]
  rfl

theorem remark?_marked (line : List Char) :
    remark? (trimmed ("# ".toList ++ line)) = saying? line := by
  show remark? (trimmed ('#' :: ' ' :: line)) = saying? line
  unfold saying?
  by_cases hline : line.all isGap = true
  · rw [if_pos hline, trimmed, trimmed, trimmed_eq_nil.mpr hline]
    rfl
  · have hne : trimmed line ≠ [] := fun hnil => hline (trimmed_eq_nil.mp hnil)
    rw [if_neg hline, trimmed, trimmed]
    simp [hne, remark?, isGap]

/-! ## Texts with comment lines -/

theorem noted_newline (front : String) : noted (front ++ "\n") = noted front :=
  gather_newline rfl front

theorem Ended.noted {text : String} (h : Ended text) (rest : String) :
    Text.noted (text ++ rest) = Text.noted text ++ Text.noted rest := h.gather rfl rest

theorem noted_indented {indent : String} (h : ∀ c ∈ indent.toList, isGap c = true)
    (text : String) : noted (leadLines indent text) = noted text := by
  have hnewline : '\n' ∉ indent.toList := fun hmem => absurd (h _ hmem) (by decide)
  unfold noted
  rw [gather_leadLines hnewline rfl (remark?_blank _ h)]
  simp only [remark?_behind h]

theorem noted_marked (comment : String) : noted (leadLines "# " comment) = sayings comment := by
  unfold noted
  rw [gather_leadLines (by decide) rfl (by decide)]
  simp only [remark?_marked]
  rfl

theorem noted_commentLines (comment : String) : noted (commentLines "# " comment) = sayings comment := by
  unfold commentLines
  rw [noted_newline, noted_marked]

/-! ## Lines that rules write -/

/-- One line that begins with a character of its own, not with a comment, and ends in one. -/
structure Inline (text : String) : Prop where
  newline : '\n' ∉ text.toList
  opens : text.toList.head?.any (fun c => !isGap c && c != '#') = true
  firm : Firm text

instance (text : String) : Decidable (Inline text) :=
  decidable_of_iff ('\n' ∉ text.toList ∧
      text.toList.head?.any (fun c => !isGap c && c != '#') = true ∧ Firm text)
    ⟨fun h => ⟨h.1, h.2.1, h.2.2⟩, fun h => ⟨h.newline, h.opens, h.firm⟩⟩

namespace Inline

variable {text rest : String}

theorem head (h : Inline text) :
    ∃ c cs, text.toList = c :: cs ∧ isGap c = false ∧ c ≠ '#' := by
  obtain ⟨c, hc, hopens⟩ := Option.any_eq_true .. |>.mp h.opens
  obtain ⟨cs, hcs⟩ := List.head?_eq_some_iff.mp hc
  refine ⟨c, cs, hcs, ?_⟩
  simpa using hopens

theorem before (h : Inline text) (hnewline : '\n' ∉ rest.toList) (hfirm : Firm rest) :
    Inline (text ++ rest) := by
  obtain ⟨c, cs, htext, hgap, hhash⟩ := h.head
  refine ⟨?_, ?_, hfirm.behind text⟩
  · rw [String.toList_append, List.mem_append]
    exact fun hmem => hmem.elim h.newline hnewline
  · rw [String.toList_append, htext]
    simp [hgap, hhash]

theorem append (h : Inline text) (h' : Inline rest) : Inline (text ++ rest) :=
  h.before h'.newline h'.firm

theorem around (h : Inline text) {between : String} (hnewline : '\n' ∉ between.toList)
    (h' : Inline rest) : Inline (text ++ between ++ rest) := by
  rw [String.append_assoc]
  refine h.before ?_ (h'.firm.behind between)
  rw [String.toList_append, List.mem_append]
  exact fun hmem => hmem.elim hnewline h'.newline

theorem lines (h : Inline text) : Text.lines text.toList = [text.toList] := by
  have hline := lines_behind h.newline (rfl : Text.lines [] = [[]])
  rwa [List.append_nil] at hline

theorem noted (h : Inline text) : Text.noted text = [] := by
  obtain ⟨c, cs, htext, hgap, hhash⟩ := h.head
  have hnone : remark? (trimmed text.toList) = none := by
    rw [htext, trimmed, if_neg (by simp [hgap])]
    simp [remark?, hgap, hhash]
  unfold Text.noted gather
  rw [h.lines]
  simp [hnone]

theorem noted_behind (h : Inline text) (rest : String) :
    Text.noted (text ++ "\n" ++ rest) = Text.noted rest := by
  rw [(Ended.newline text).noted, noted_newline, h.noted, List.nil_append]

end Inline

end BlockCode.Text
