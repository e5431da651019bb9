-- The lines of a text, and what is read off them one by one: so the lines that show code, which
-- are not blank and begin no comment. Each thing that is done to text on its way into a program
-- does one and the same thing to every line, whatever stands between them.
import BlockCode.Proofs.Text.Within
import Mathlib.Data.List.TakeWhile

namespace BlockCode.Text

/-! ## Lines -/

/-- The lines of a text. The empty text is one line. -/
def lines (cs : List Char) : List (List Char) := splitAt '\n' cs

theorem exists_lines (cs : List Char) : ∃ first others, lines cs = first :: others :=
  List.exists_cons_of_ne_nil (splitAt_ne_nil '\n' cs)

theorem lines_newline (rest : List Char) : lines ('\n' :: rest) = [] :: lines rest := rfl

variable {separator : Char} {cs first : List Char} {others : List (List Char)}

theorem splitAt_cons {c : Char} (hc : (c == separator) = false)
    (h : splitAt separator cs = first :: others) :
    splitAt separator (c :: cs) = (c :: first) :: others := by
  rw [splitAt, hc, h]
  rfl

theorem splitAt_behind {lead : List Char} (hlead : separator ∉ lead)
    (h : splitAt separator cs = first :: others) :
    splitAt separator (lead ++ cs) = (lead ++ first) :: others := by
  induction lead with
  | nil => exact h
  | cons c lead ih =>
    have hc : (c == separator) = false := beq_eq_false_iff_ne.mpr fun hc => hlead (by simp [hc])
    exact splitAt_cons hc (ih fun hmem => hlead (List.mem_cons_of_mem c hmem))

theorem lines_cons {c : Char} (hc : (c == '\n') = false) (h : lines cs = first :: others) :
    lines (c :: cs) = (c :: first) :: others := splitAt_cons hc h

theorem lines_behind {lead : List Char} (hlead : '\n' ∉ lead) (h : lines cs = first :: others) :
    lines (lead ++ cs) = (lead ++ first) :: others := splitAt_behind hlead h

theorem lines_append (front rest : List Char) :
    lines (front ++ '\n' :: rest) = lines front ++ lines rest := by
  induction front with
  | nil => rfl
  | cons c front ih =>
    rw [List.cons_append]
    rcases hc : c == '\n' with _ | _
    · obtain ⟨first, others, hlines⟩ := exists_lines front
      rw [lines_cons hc hlines]
      rw [hlines, List.cons_append] at ih
      rw [lines_cons hc ih]
      rfl
    · rw [beq_iff_eq.mp hc, lines_newline, lines_newline, ih]
      rfl

/-- The last line of one text and the first line of the next are one line when nothing is
between them. -/
theorem lines_together (cs : List Char) {more first : List Char} {others : List (List Char)}
    (hmore : lines more = first :: others) :
    ∃ front last, lines cs = front ++ [last] ∧
      lines (cs ++ more) = front ++ (last ++ first) :: others := by
  induction cs with
  | nil => exact ⟨[], [], rfl, hmore⟩
  | cons c rest ih =>
    obtain ⟨front, last, hlines, htogether⟩ := ih
    rw [List.cons_append]
    rcases hc : c == '\n' with _ | _
    · rcases front with _ | ⟨line, front⟩
      · exact ⟨[], c :: last, lines_cons hc hlines, lines_cons hc htogether⟩
      · exact ⟨(c :: line) :: front, last, lines_cons hc hlines, lines_cons hc htogether⟩
    · rw [beq_iff_eq.mp hc, lines_newline, lines_newline, hlines, htogether]
      exact ⟨[] :: front, last, rfl, rfl⟩

/-! ## Reading line by line -/

/-- What is read off the lines of a text, one after the other. -/
def gather {α : Type} (read : List Char → Option α) (text : String) : List α :=
  (lines text.toList).filterMap read

/-- The text is made of lines that have ended. -/
def Ended (text : String) : Prop := text = "" ∨ ∃ front, text = front ++ "\n"

section Gather

variable {α : Type} {read : List Char → Option α}

theorem gather_empty (hnone : read [] = none) : gather read "" = [] :=
  List.filterMap_cons_none hnone

theorem gather_append (front rest : String) :
    gather read (front ++ "\n" ++ rest) = gather read front ++ gather read rest := by
  unfold gather
  rw [← List.filterMap_append, ← lines_append]
  simp

theorem gather_newline (hnone : read [] = none) (front : String) :
    gather read (front ++ "\n") = gather read front := by
  have h : gather read (front ++ "\n" ++ "") = gather read front ++ gather read "" :=
    gather_append front ""
  rwa [String.append_empty, gather_empty hnone, List.append_nil] at h

theorem Ended.empty : Ended "" := Or.inl rfl

theorem Ended.newline (front : String) : Ended (front ++ "\n") := Or.inr ⟨front, rfl⟩

theorem Ended.behind {text : String} (h : Ended text) (hne : text ≠ "") (front : String) :
    Ended (front ++ text) := by
  obtain ⟨lines, rfl⟩ := h.resolve_left hne
  exact Or.inr ⟨front ++ lines, String.append_assoc.symm⟩

theorem Ended.append {text rest : String} (h : Ended text) (h' : Ended rest) :
    Ended (text ++ rest) := by
  rcases h' with rfl | ⟨front, rfl⟩
  · rwa [String.append_empty]
  · rw [← String.append_assoc]
    exact newline _

theorem Ended.gather {text : String} (h : Ended text) (hnone : read [] = none) (rest : String) :
    Text.gather read (text ++ rest) = Text.gather read text ++ Text.gather read rest := by
  rcases h with rfl | ⟨front, rfl⟩
  · rw [String.empty_append, gather_empty hnone, List.nil_append]
  · rw [gather_append, gather_newline hnone]

end Gather

/-! ## Lines of code -/

/-- Behind spaces and tabs something stands on the line that begins no comment. -/
def isCodeLine (line : List Char) : Bool := (line.dropWhile isGap).head?.any (· != '#')

/-- The lines of a text that are not blank and begin no comment. -/
def codeLines (text : String) : List (List Char) := (lines text.toList).filter isCodeLine

theorem codeLines_eq (text : String) : codeLines text = gather (Option.guard isCodeLine) text := by
  unfold codeLines gather
  rw [List.filterMap_eq_filter]

theorem isCodeLine_gaps {line : List Char} (h : ∀ c ∈ line, isGap c = true) :
    isCodeLine line = false := by
  unfold isCodeLine
  rw [List.dropWhile_eq_nil_iff.mpr h]
  rfl

/-- Spaces and tabs before a line do not matter. -/
theorem isCodeLine_behind {gaps : List Char} (h : ∀ c ∈ gaps, isGap c = true) (line : List Char) :
    isCodeLine (gaps ++ line) = isCodeLine line := by
  unfold isCodeLine
  rw [List.dropWhile_append_of_pos h]

theorem codeLines_newline (front : String) : codeLines (front ++ "\n") = codeLines front := by
  rw [codeLines_eq, codeLines_eq]
  exact gather_newline rfl front

theorem Ended.codeLines {text : String} (h : Ended text) (rest : String) :
    Text.codeLines (text ++ rest) = Text.codeLines text ++ Text.codeLines rest := by
  rw [codeLines_eq, codeLines_eq, codeLines_eq]
  exact h.gather rfl rest

/-! ## Text before lines -/

/-- A line with text before it. An empty line stays empty. -/
def led (lead line : List Char) : List Char := if line.isEmpty then [] else lead ++ line

theorem startsLine_iff (h : lines cs = first :: others) : startsLine cs = !first.isEmpty := by
  cases cs with
  | nil =>
    cases h
    rfl
  | cons c rest =>
    unfold startsLine
    rcases hc : c == '\n' with _ | _
    · obtain ⟨next, more, hlines⟩ := exists_lines rest
      rw [lines_cons hc hlines] at h
      cases h
      simp [bne, hc]
    · rw [beq_iff_eq.mp hc, lines_newline] at h
      cases h
      simp [bne, hc]

theorem lines_leadRest {lead : List Char} (hlead : '\n' ∉ lead) (h : lines cs = first :: others) :
    lines (leadRest lead cs) = first :: others.map (led lead) := by
  induction cs generalizing first others with
  | nil =>
    cases h
    rfl
  | cons c rest ih =>
    obtain ⟨next, more, hlines⟩ := exists_lines rest
    rw [leadRest]
    rcases hc : c == '\n' with _ | _
    · rw [lines_cons hc hlines] at h
      cases h
      rw [Bool.false_and, if_neg Bool.false_ne_true]
      exact lines_cons hc (ih hlines)
    · rw [beq_iff_eq.mp hc, lines_newline, hlines] at h
      cases h
      rw [startsLine_iff hlines, beq_iff_eq.mp hc]
      rcases hnext : next.isEmpty with _ | _
      · rw [if_pos (by simp), lines_newline, lines_behind hlead (ih hlines), List.map_cons, led,
          if_neg (by simp [hnext])]
      · rw [if_neg (by simp), lines_newline, ih hlines, List.map_cons, led, if_pos hnext,
          List.isEmpty_iff.mp hnext]

theorem lines_leadLines {lead text : String} (hlead : '\n' ∉ lead.toList)
    (h : lines text.toList = first :: others) :
    lines (leadLines lead text).toList = (lead.toList ++ first) :: others.map (led lead.toList) := by
  unfold leadLines
  rw [String.toList_append, String.toList_ofList]
  exact lines_behind hlead (lines_leadRest hlead h)

/-- Off text with something before its lines the same is read as off each line behind it. -/
theorem gather_leadLines {α : Type} {read : List Char → Option α} {lead : String}
    (hlead : '\n' ∉ lead.toList) (hnone : read [] = none) (hbare : read lead.toList = none)
    (text : String) :
    gather read (leadLines lead text) = gather (fun line => read (lead.toList ++ line)) text := by
  obtain ⟨first, others, hlines⟩ := exists_lines text.toList
  unfold gather
  rw [lines_leadLines hlead hlines, hlines]
  have hled : ∀ line, read (led lead.toList line) = read (lead.toList ++ line) := by
    intro line
    unfold led
    split
    · rename_i hempty
      rw [List.isEmpty_iff.mp hempty, List.append_nil, hnone, hbare]
    · rfl
  have hothers : (others.map (led lead.toList)).filterMap read =
      others.filterMap fun line => read (lead.toList ++ line) := by
    rw [List.filterMap_map]
    exact congrArg (List.filterMap · others) (funext hled)
  rw [List.filterMap_cons, List.filterMap_cons, hothers]

/-- An indent is put before every line of code. -/
theorem codeLines_indented {indent : String} (h : ∀ c ∈ indent.toList, isGap c = true)
    (text : String) :
    codeLines (leadLines indent text) = (codeLines text).map (indent.toList ++ ·) := by
  have hnewline : '\n' ∉ indent.toList := fun hmem => absurd (h _ hmem) (by decide)
  have hbare : Option.guard isCodeLine indent.toList = none := by
    simp [Option.guard, isCodeLine_gaps h]
  rw [codeLines_eq, codeLines_eq, gather_leadLines hnewline rfl hbare]
  unfold gather
  rw [List.map_filterMap]
  refine List.filterMap_congr fun line _ => ?_
  simp only [Option.guard, isCodeLine_behind h]
  split <;> rfl

/-- A text that marks comments: it begins with a hash and has no newline. -/
structure Marks (marker : String) : Prop where
  hash : marker.toList.head? = some '#'
  newline : '\n' ∉ marker.toList

/-- No code is shown behind a marker. -/
theorem Marks.not_code {marker : String} (h : Marks marker) (line : List Char) :
    isCodeLine (marker.toList ++ line) = false := by
  obtain ⟨rest, hrest⟩ := List.head?_eq_some_iff.mp h.hash
  unfold isCodeLine
  rw [hrest, List.cons_append, List.dropWhile_cons_of_neg (by decide)]
  rfl

theorem Marks.codeLines {marker : String} (h : Marks marker) (text : String) :
    Text.codeLines (leadLines marker text) = [] := by
  have hnone : ∀ line, Option.guard isCodeLine (marker.toList ++ line) = none := by
    intro line
    simp [Option.guard, h.not_code line]
  have hbare : Option.guard isCodeLine marker.toList = none := by
    simpa using hnone []
  rw [codeLines_eq, gather_leadLines h.newline rfl hbare]
  exact List.filterMap_eq_nil_iff.mpr fun line _ => hnone line

/-- The end of a text is still its end. -/
theorem ended_leadLines {lead text : String} (h : Ended text) (hne : text ≠ "") :
    Ended (leadLines lead text) := by
  obtain ⟨front, rfl⟩ := h.resolve_left hne
  obtain ⟨shown, hshown⟩ := leadRest_suffix lead.toList front.toList ['\n']
  refine Or.inr ⟨lead ++ String.ofList shown, ?_⟩
  unfold leadLines
  rw [String.toList_append, show "\n".toList = ['\n'] from rfl, ← hshown, String.ofList_append,
    String.append_assoc]
  rfl

/-! ## Texts that end in something -/

/-- What comes last in the text is no white space. -/
def Firm (text : String) : Prop := text.toList.getLast?.any (!isBlank ·) = true

instance (text : String) : Decidable (Firm text) := inferInstanceAs (Decidable (_ = true))

namespace Firm

variable {text : String}

theorem iff : Firm text ↔ ∃ front c, text.toList = front ++ [c] ∧ isBlank c = false := by
  unfold Firm
  rw [Option.any_eq_true]
  constructor
  · rintro ⟨c, hc, hvisible⟩
    obtain ⟨front, hfront⟩ := List.getLast?_eq_some_iff.mp hc
    exact ⟨front, c, hfront, by simpa using hvisible⟩
  · rintro ⟨front, c, htext, hvisible⟩
    exact ⟨c, by rw [htext, List.getLast?_concat], by simp [hvisible]⟩

theorem ne_empty (h : Firm text) : text ≠ "" := by
  rintro rfl
  cases h

theorem behind (h : Firm text) (front : String) : Firm (front ++ text) := by
  obtain ⟨start, c, htext, hvisible⟩ := iff.mp h
  refine iff.mpr ⟨front.toList ++ start, c, ?_, hvisible⟩
  rw [String.toList_append, htext, List.append_assoc]

end Firm

theorem Solid.firm {word : String} (h : Solid word) : Firm word := by
  obtain ⟨front, c, hword⟩ := (List.eq_nil_or_concat' word.toList).resolve_left h.ne_nil
  exact Firm.iff.mpr ⟨front, c, hword, h.visible c (by simp [hword])⟩

/-! ## Cleaning -/

/-- A line without the spaces and tabs at its end. -/
def trimmed : List Char → List Char
  | [] => []
  | c :: rest => if isGap c && (trimmed rest).isEmpty then [] else c :: trimmed rest

theorem isCodeLine_trimmed (line : List Char) : isCodeLine (trimmed line) = isCodeLine line := by
  induction line with
  | nil => rfl
  | cons c rest ih =>
    rw [trimmed]
    rcases hc : isGap c with _ | _
    · rw [if_neg (by simp)]
      unfold isCodeLine
      rw [List.dropWhile_cons_of_neg (by simp [hc]), List.dropWhile_cons_of_neg (by simp [hc])]
      rfl
    · have hgap : ∀ d ∈ [c], isGap d = true := by simpa using hc
      have hrest : isCodeLine (c :: rest) = isCodeLine rest := isCodeLine_behind hgap rest
      rw [hrest, ← ih]
      split
      · rename_i hnone
        rw [Bool.true_and, List.isEmpty_iff] at hnone
        rw [hnone]
      · exact isCodeLine_behind hgap (trimmed rest)

theorem lines_trimLines (cs : List Char) :
    lines (trimLines (cs ++ ['\n'])) = (lines cs).map trimmed ++ [[]] := by
  induction cs with
  | nil => rfl
  | cons c rest ih =>
    obtain ⟨first, others, hlines⟩ := exists_lines rest
    rw [hlines] at ih
    rw [List.cons_append, trimLines]
    rcases hc : c == '\n' with _ | _
    · rw [lines_cons hc hlines, List.map_cons, trimmed]
      -- What is left of the line is empty just when the newline comes next.
      have hhead : ((trimLines (rest ++ ['\n'])).head? == some '\n') = (trimmed first).isEmpty := by
        have hstarts := startsLine_iff ih
        generalize trimLines (rest ++ ['\n']) = shown at ih hstarts
        cases shown with
        | nil => simp [lines, splitAt] at ih
        | cons d more =>
          unfold startsLine at hstarts
          rw [List.head?_cons, Option.some_beq_some]
          have hnot := congrArg (!·) hstarts
          simpa [bne] using hnot
      rw [hhead]
      split
      · rename_i hgap
        rw [Bool.and_eq_true, List.isEmpty_iff] at hgap
        rw [ih, List.map_cons, hgap.2]
      · exact lines_cons hc ih
    · obtain rfl := beq_iff_eq.mp hc
      rw [show isGap '\n' = false from by decide, Bool.false_and, if_neg Bool.false_ne_true,
        lines_newline, lines_newline, ih, hlines]
      rfl

/-- Nothing is read off the blank lines at the start. -/
theorem gather_dropBlankLines {α : Type} {read : List Char → Option α}
    (hnone : ∀ line, (∀ c ∈ line, isGap c = true) → read line = none)
    {line gaps rest : List Char} (hgaps : ∀ c ∈ gaps, isGap c = true) (hline : line = gaps ++ rest) :
    (lines (dropBlankLines line rest)).filterMap read = (lines line).filterMap read := by
  induction rest generalizing line gaps with
  | nil => rfl
  | cons c rest ih =>
    rw [dropBlankLines]
    split
    · rename_i hc
      rw [beq_iff_eq.mp hc] at hline
      have hnewline : '\n' ∉ gaps := fun hmem => absurd (hgaps _ hmem) (by decide)
      have hblank : lines gaps = [gaps] := by
        have h := lines_behind hnewline (rfl : lines [] = [[]])
        rwa [List.append_nil] at h
      have hrest : (lines (dropBlankLines rest rest)).filterMap read = (lines rest).filterMap read :=
        ih (List.forall_mem_nil _) rfl
      rw [hrest, hline, lines_append, List.filterMap_append, hblank,
        List.filterMap_cons_none (hnone gaps hgaps)]
      rfl
    · split
      · rename_i hgap
        have hmoved : line = (gaps ++ [c]) ++ rest := by rw [hline, List.append_assoc]; rfl
        exact ih (List.forall_mem_append.mpr ⟨hgaps, List.forall_mem_singleton.mpr hgap⟩) hmoved
      · rfl

theorem dropBlankLines_suffix {line rest : List Char} (h : rest <:+ line) :
    dropBlankLines line rest <:+ line := by
  induction rest generalizing line with
  | nil => exact List.suffix_rfl
  | cons c rest ih =>
    have hrest : rest <:+ line := (List.suffix_cons c rest).trans h
    rw [dropBlankLines]
    split
    · exact (ih List.suffix_rfl).trans hrest
    · split
      · exact ih hrest
      · exact List.suffix_rfl

/-- White space is dropped at the end only as far as nothing else comes last. -/
theorem dropEnd_firm {front : List Char} {c : Char} (h : isBlank c = false) :
    dropEnd (front ++ [c]) = front ++ [c] := by
  induction front with
  | nil => simp [dropEnd, h]
  | cons d front ih =>
    rw [List.cons_append, dropEnd, ih]
    simp

/-- A blank at the end is dropped. -/
theorem dropEnd_concat {c : Char} (hc : isBlank c = true) (cs : List Char) :
    dropEnd (cs ++ [c]) = dropEnd cs := by
  induction cs with
  | nil => simp [dropEnd, hc]
  | cons d cs ih =>
    rw [List.cons_append, dropEnd, dropEnd, ih]

theorem dropEnd_gaps {gaps : List Char} (h : ∀ c ∈ gaps, isGap c = true) : dropEnd gaps = [] := by
  induction gaps with
  | nil => rfl
  | cons c gaps ih =>
    obtain ⟨hc, hgaps⟩ := List.forall_mem_cons.mp h
    rw [dropEnd, ih hgaps]
    simp [isBlank_of_isGap hc]

theorem dropBlankLines_newline {line gaps rest : List Char} (hgaps : ∀ c ∈ gaps, isGap c = true)
    (hline : line = gaps ++ rest) :
    dropEnd (dropBlankLines (line ++ ['\n']) (rest ++ ['\n'])) = dropEnd (dropBlankLines line rest) := by
  induction rest generalizing line gaps with
  | nil =>
    rw [List.append_nil] at hline
    rw [dropBlankLines, hline, dropEnd_gaps hgaps]
    rfl
  | cons c rest ih =>
    rw [List.cons_append, dropBlankLines, dropBlankLines]
    split
    · exact ih (List.forall_mem_nil _) rfl
    · split
      · rename_i hgap
        have hmoved : line = (gaps ++ [c]) ++ rest := by rw [hline, List.append_assoc]; rfl
        exact ih (List.forall_mem_append.mpr ⟨hgaps, List.forall_mem_singleton.mpr hgap⟩) hmoved
      · exact dropEnd_concat (by decide) line

/-- A newline at the end makes no difference to a clean program. -/
theorem clean_newline (text : String) : clean (text ++ "\n") = clean text := by
  have hdropped : dropEnd (dropBlankLines (text.toList ++ ['\n']) (text.toList ++ ['\n'])) =
      dropEnd (dropBlankLines text.toList text.toList) :=
    dropBlankLines_newline (List.forall_mem_nil _) rfl
  unfold clean
  rw [String.toList_append, show "\n".toList = ['\n'] from rfl, hdropped]

/-- Off a cleaned text that ends in something the same is read as off the lines without the
spaces and tabs at their ends. -/
theorem gather_clean {α : Type} {read : List Char → Option α} (hnone : read [] = none)
    (hblank : ∀ line, (∀ c ∈ line, isGap c = true) → read (trimmed line) = none) {text : String}
    (h : Firm text) : gather read (clean text) = gather (fun line => read (trimmed line)) text := by
  obtain ⟨front, c, htext, hvisible⟩ := Firm.iff.mp h
  have hbody : dropEnd (dropBlankLines text.toList text.toList) =
      dropBlankLines text.toList text.toList := by
    have hsuffix := dropBlankLines_suffix (List.suffix_refl text.toList)
    generalize dropBlankLines text.toList text.toList = body at hsuffix ⊢
    rw [htext] at hsuffix
    rcases List.suffix_concat_iff.mp hsuffix with rfl | ⟨start, rfl, -⟩
    · rfl
    · exact dropEnd_firm hvisible
  have hsame : (lines (dropBlankLines text.toList text.toList)).filterMap
      (fun line => read (trimmed line)) = gather (fun line => read (trimmed line)) text :=
    gather_dropBlankLines hblank (List.forall_mem_nil _) rfl
  unfold clean
  rw [hbody, ← hsame]
  split
  · rename_i hnil
    have hempty : [[]].filterMap (fun line => read (trimmed line)) = [] := by
      simp [trimmed, hnone]
    rw [hnil, gather_empty hnone]
    exact hempty.symm
  · unfold gather
    rw [String.toList_ofList, lines_trimLines, List.filterMap_append, List.filterMap_map,
      List.filterMap_cons_none hnone]
    exact List.append_nil _

/-- Cleaning a text that ends in something only trims the lines of code. -/
theorem codeLines_clean {text : String} (h : Firm text) :
    codeLines (clean text) = (codeLines text).map trimmed := by
  have hblank : ∀ line, (∀ c ∈ line, isGap c = true) →
      Option.guard isCodeLine (trimmed line) = none := by
    intro line hgaps
    simp [Option.guard, isCodeLine_trimmed, isCodeLine_gaps hgaps]
  rw [codeLines_eq, codeLines_eq, gather_clean rfl hblank h]
  unfold gather
  rw [List.map_filterMap]
  refine List.filterMap_congr fun line _ => ?_
  simp only [Option.guard, isCodeLine_trimmed]
  split <;> rfl

/-! ## Joining -/

theorem dropNewline_newline (front : String) : dropNewline (front ++ "\n") = front := by
  unfold dropNewline
  rw [String.toList_append, show "\n".toList = ['\n'] from rfl, List.reverse_append,
    List.reverse_singleton, List.singleton_append]
  simp

theorem dropNewline_concat {text : String} {front : List Char} {c : Char}
    (htext : text.toList = front ++ [c]) (hc : c ≠ '\n') : dropNewline text = text := by
  unfold dropNewline
  rw [htext, List.reverse_append, List.reverse_singleton, List.singleton_append]
  split
  · rename_i heq
    exact absurd (List.cons.inj heq).1 hc
  · rfl

theorem dropNewline_firm {text : String} (h : Firm text) : dropNewline text = text := by
  obtain ⟨front, c, htext, hvisible⟩ := Firm.iff.mp h
  refine dropNewline_concat htext ?_
  rintro rfl
  cases hvisible

/-- What stands before a text keeps its newlines. -/
theorem dropNewline_behind {rest : String} (hne : rest ≠ "") (front : String) :
    dropNewline (front ++ rest) = front ++ dropNewline rest := by
  obtain ⟨cs, c, hrest⟩ := (List.eq_nil_or_concat' rest.toList).resolve_left
    fun hnil => hne (String.toList_eq_nil_iff.mp hnil)
  by_cases hc : c = '\n'
  · have hline : rest = String.ofList cs ++ "\n" := by
      rw [← String.toList_inj, hrest, hc, String.toList_append, String.toList_ofList]
      rfl
    rw [hline, ← String.append_assoc, dropNewline_newline, dropNewline_newline]
  · have hwhole : (front ++ rest).toList = (front.toList ++ cs) ++ [c] := by
      rw [String.toList_append, hrest, List.append_assoc]
    rw [dropNewline_concat hwhole hc, dropNewline_concat hrest hc]

section Gather

variable {α : Type} {read : List Char → Option α}

theorem gather_dropNewline (hnone : read [] = none) (text : String) :
    gather read (dropNewline text) = gather read text := by
  unfold dropNewline
  split
  · rename_i rest hrest
    have htext : text = String.ofList rest.reverse ++ "\n" := by
      rw [← String.toList_inj, ← List.reverse_reverse text.toList, hrest, List.reverse_cons,
        String.toList_append, String.toList_ofList]
      rfl
    rw [htext, gather_newline hnone]
  · rfl

theorem gather_joinLines (hnone : read [] = none) (texts : List String) :
    gather read (joinLines texts) = texts.flatMap (gather read) := by
  unfold joinLines
  induction texts with
  | nil => exact gather_empty hnone
  | cons text rest ih =>
    rw [List.flatMap_cons]
    rcases rest with _ | ⟨next, more⟩
    · rw [String.intercalate_singleton, List.flatMap_nil, List.append_nil]
    · rw [String.intercalate_cons_of_ne_nil (List.cons_ne_nil _ _), gather_append, ih]

end Gather

theorem firm_intercalate (separator : String) {texts : List String} (hne : texts ≠ [])
    (h : ∀ text ∈ texts, Firm text) : Firm (separator.intercalate texts) := by
  induction texts with
  | nil => exact absurd rfl hne
  | cons text rest ih =>
    rcases rest with _ | ⟨next, more⟩
    · rw [String.intercalate_singleton]
      exact h text List.mem_cons_self
    · rw [String.intercalate_cons_of_ne_nil (List.cons_ne_nil _ _)]
      exact (ih (List.cons_ne_nil _ _) fun t ht => h t (List.mem_cons_of_mem text ht)).behind _

theorem firm_joinLines {texts : List String} (hne : texts ≠ []) (h : ∀ text ∈ texts, Firm text) :
    Firm (joinLines texts) := firm_intercalate "\n" hne h

/-- Two texts that are neighbours among those that are joined may be one text. -/
theorem joinLines_merge (front back : List String) (text rest : String) :
    joinLines (front ++ (text ++ "\n" ++ rest) :: back) =
      joinLines (front ++ text :: rest :: back) := by
  unfold joinLines
  induction front with
  | nil =>
    rw [List.nil_append, List.nil_append, String.intercalate_cons_of_ne_nil (List.cons_ne_nil _ _)]
    cases back with
    | nil => rw [String.intercalate_singleton, String.intercalate_singleton]
    | cons next more =>
      rw [String.intercalate_cons_of_ne_nil (List.cons_ne_nil _ _),
        String.intercalate_cons_of_ne_nil (List.cons_ne_nil _ _)]
      simp only [String.append_assoc]
  | cons first others ih =>
    rw [List.cons_append, List.cons_append, String.intercalate_cons_of_ne_nil (by simp),
      String.intercalate_cons_of_ne_nil (by simp), ih]

end BlockCode.Text
