-- The normal form of a program text, told line by line. Cleaning reads single characters in
-- three rounds, with two kinds of white space; what comes out is what one gets by looking at
-- whole lines, whatever stands between them. A clean text has nothing more to clean.
import BlockCode.Proofs.Text.Margins
import Mathlib.Data.List.DropRight

namespace BlockCode.Text

/-! ## The reference -/

/-- The lines, without those at the start that have ended and show nothing but spaces and
tabs. The last line has not ended. -/
def withoutBlank : List (List Char) → List (List Char)
  | line :: next :: rest =>
    if line.all isGap then withoutBlank (next :: rest) else line :: next :: rest
  | ls => ls

/-- The lines as one text, with a newline between each two. -/
def joined (ls : List (List Char)) : List Char := ['\n'].intercalate ls

/-- The text from its first line that is kept to the last character that is no white space. -/
def kept (cs : List Char) : List Char := (joined (withoutBlank (lines cs))).rdropWhile isBlank

/-- What is kept, with no spaces or tabs at the end of any line, and one newline behind. -/
def normal (cs : List Char) : List Char :=
  joined ((lines (kept cs)).map (·.rdropWhile isGap)) ++ ['\n']

/-! ## Lines and their text -/

theorem lines_eq_splitOn (cs : List Char) : lines cs = cs.splitOn '\n' := by
  induction cs with
  | nil => rfl
  | cons c rest ih =>
    obtain ⟨first, others, hlines⟩ := exists_lines rest
    unfold List.splitOn at ih ⊢
    rw [List.splitOnP_cons_eq_if_modifyHead, ← ih, hlines]
    rcases hc : c == '\n' with _ | _
    · exact lines_cons hc hlines
    · rw [beq_iff_eq.mp hc, lines_newline, hlines]
      rfl

theorem joined_lines (cs : List Char) : joined (lines cs) = cs := by
  rw [lines_eq_splitOn]
  exact List.intercalate_splitOn '\n'

theorem lines_joined {ls : List (List Char)} (hne : ls ≠ []) (h : ∀ line ∈ ls, '\n' ∉ line) :
    lines (joined ls) = ls := by
  rw [lines_eq_splitOn]
  exact List.splitOn_intercalate '\n' h hne

theorem joined_newline {ls : List (List Char)} (hne : ls ≠ []) :
    joined (ls ++ [[]]) = joined ls ++ ['\n'] := by
  unfold joined
  induction ls with
  | nil => exact absurd rfl hne
  | cons line rest ih =>
    by_cases hrest : rest = []
    · simp [hrest]
    · rw [List.cons_append, List.intercalate_cons_of_ne_nil (by simp),
        List.intercalate_cons_of_ne_nil hrest, ih hrest, ← List.append_assoc]

theorem lines_ne_nil (cs : List Char) : lines cs ≠ [] := splitAt_ne_nil '\n' cs

theorem mem_of_line {cs line : List Char} (h : line ∈ lines cs) :
    ∀ c ∈ line, c ∈ cs ∧ c ≠ '\n' := by
  induction cs generalizing line with
  | nil =>
    rw [List.mem_singleton.mp h]
    exact List.forall_mem_nil _
  | cons d rest ih =>
    have hlater : ∀ line ∈ lines rest, ∀ c ∈ line, c ∈ d :: rest ∧ c ≠ '\n' := by
      intro line hline c hc
      exact ⟨List.mem_cons_of_mem d (ih hline c hc).1, (ih hline c hc).2⟩
    obtain ⟨first, others, hlines⟩ := exists_lines rest
    rw [hlines] at hlater
    rcases hd : d == '\n' with _ | _
    · rw [lines_cons hd hlines] at h
      rcases List.mem_cons.mp h with rfl | hother
      · intro c hc
        rcases List.mem_cons.mp hc with rfl | hc
        · exact ⟨List.mem_cons_self, beq_eq_false_iff_ne.mp hd⟩
        · exact hlater first List.mem_cons_self c hc
      · exact hlater line (List.mem_cons_of_mem _ hother)
    · rw [beq_iff_eq.mp hd, lines_newline, hlines] at h
      rcases List.mem_cons.mp h with rfl | hother
      · exact List.forall_mem_nil _
      · exact hlater line hother

theorem joined_append {front rest : List (List Char)} (hne : rest ≠ []) :
    joined (front ++ rest) = front.flatMap (· ++ ['\n']) ++ joined rest := by
  induction front with
  | nil => rfl
  | cons line front ih =>
    unfold joined at ih ⊢
    rw [List.cons_append, List.intercalate_cons_of_ne_nil (by simp [hne]), ih, List.flatMap_cons,
      ← List.append_assoc]

/-! ## What each round of cleaning does -/

theorem withoutBlank_of_gaps {line : List Char} {rest : List (List Char)} (hne : rest ≠ [])
    (h : line.all isGap = true) : withoutBlank (line :: rest) = withoutBlank rest := by
  obtain ⟨next, more, rfl⟩ := List.exists_cons_of_ne_nil hne
  rw [withoutBlank, if_pos h]

theorem withoutBlank_of_not {line : List Char} (rest : List (List Char))
    (h : ¬ line.all isGap = true) : withoutBlank (line :: rest) = line :: rest := by
  cases rest with
  | nil => rfl
  | cons next more => rw [withoutBlank, if_neg h]

theorem dropBlankLines_eq {line gaps rest : List Char} (hgaps : ∀ c ∈ gaps, isGap c = true)
    (hline : line = gaps ++ rest) :
    dropBlankLines line rest = joined (withoutBlank (lines line)) := by
  have hnewline : '\n' ∉ gaps := fun hmem => absurd (hgaps _ hmem) (by decide)
  induction rest generalizing line gaps with
  | nil =>
    have hlast : lines line = [gaps] := by
      rw [hline]
      simpa using lines_behind hnewline (rfl : lines [] = [[]])
    have hone := joined_lines line
    rw [hlast] at hone
    rw [dropBlankLines, hlast]
    exact hone.symm
  | cons c rest ih =>
    rw [dropBlankLines]
    split
    · rename_i hc
      have hlines : lines line = gaps :: lines rest := by
        rw [hline, beq_iff_eq.mp hc]
        simpa using lines_behind hnewline (lines_newline rest)
      rw [hlines, withoutBlank_of_gaps (lines_ne_nil rest) (List.all_eq_true.mpr hgaps)]
      exact ih (List.forall_mem_nil _) rfl (by simp)
    · rename_i hc
      split
      · rename_i hgap
        have hmoved : line = (gaps ++ [c]) ++ rest := by rw [hline, List.append_assoc]; rfl
        have hmore : ∀ d ∈ gaps ++ [c], isGap d = true :=
          List.forall_mem_append.mpr ⟨hgaps, List.forall_mem_singleton.mpr hgap⟩
        exact ih hmore hmoved fun hmem => absurd (hmore _ hmem) (by decide)
      · rename_i hgap
        obtain ⟨first, others, hrest⟩ := exists_lines rest
        have hc' : (c == '\n') = false := by simpa using hc
        have hlines : lines line = (gaps ++ c :: first) :: others := by
          rw [hline]
          exact lines_behind hnewline (lines_cons hc' hrest)
        have hshown : ¬ (gaps ++ c :: first).all isGap = true := by simp [hgap]
        rw [hlines, withoutBlank_of_not _ hshown, ← hlines, joined_lines]

theorem rdropWhile_cons (p : Char → Bool) (c : Char) (rest : List Char) :
    (c :: rest).rdropWhile p =
      if p c && (rest.rdropWhile p).isEmpty then [] else c :: rest.rdropWhile p := by
  unfold List.rdropWhile
  rw [List.reverse_cons, List.dropWhile_append, List.isEmpty_reverse]
  by_cases hrest : (rest.reverse.dropWhile p).isEmpty = true
  · rw [if_pos hrest, hrest, List.isEmpty_iff.mp hrest]
    by_cases hc : p c = true
    · simp [hc]
    · simp [hc]
  · rw [if_neg hrest]
    simp [hrest]

theorem dropEnd_eq (cs : List Char) : dropEnd cs = cs.rdropWhile isBlank := by
  induction cs with
  | nil => rfl
  | cons c rest ih => rw [dropEnd, rdropWhile_cons, ih]

theorem trimmed_eq (line : List Char) : trimmed line = line.rdropWhile isGap := by
  induction line with
  | nil => rfl
  | cons c rest ih => rw [trimmed, rdropWhile_cons, ih]

theorem trimLines_eq (cs : List Char) :
    trimLines (cs ++ ['\n']) = joined ((lines cs).map (·.rdropWhile isGap)) ++ ['\n'] := by
  have hmap : (lines cs).map (·.rdropWhile isGap) ≠ [] := by simpa using lines_ne_nil cs
  have htrimmed : trimmed = (·.rdropWhile isGap) := funext trimmed_eq
  rw [← joined_lines (trimLines (cs ++ ['\n'])), lines_trimLines, htrimmed, joined_newline hmap]

theorem clean_eq (code : String) :
    (kept code.toList = [] ∧ clean code = "") ∨
      (kept code.toList ≠ [] ∧ (clean code).toList = normal code.toList) := by
  have hstart : dropBlankLines code.toList code.toList =
      joined (withoutBlank (lines code.toList)) := dropBlankLines_eq (List.forall_mem_nil _) rfl
  have hkept : dropEnd (dropBlankLines code.toList code.toList) = kept code.toList := by
    rw [dropEnd_eq, hstart]
    rfl
  unfold clean
  rw [hkept]
  split
  · rename_i hnone
    exact Or.inl ⟨hnone, rfl⟩
  · rename_i hsome
    refine Or.inr ⟨hsome, ?_⟩
    rw [String.toList_ofList, trimLines_eq]
    rfl

/-! ## Which lines are kept -/

/-- Only lines of spaces and tabs are dropped, and the first line that stays is none of them,
unless it is the last. -/
theorem withoutBlank_spec {ls : List (List Char)} (hne : ls ≠ []) :
    ∃ skipped first rest, ls = skipped ++ withoutBlank ls ∧ withoutBlank ls = first :: rest ∧
      (∀ line ∈ skipped, ∀ c ∈ line, isGap c = true) ∧
      (rest ≠ [] → ∃ c ∈ first, isGap c = false) := by
  induction ls with
  | nil => exact absurd rfl hne
  | cons line rest ih =>
    by_cases hrest : rest = []
    · subst hrest
      exact ⟨[], line, [], rfl, rfl, List.forall_mem_nil _, fun h => absurd rfl h⟩
    · by_cases hgaps : line.all isGap = true
      · obtain ⟨skipped, first, more, heq, hkept, hskipped, hfirst⟩ := ih hrest
        rw [withoutBlank_of_gaps hrest hgaps]
        refine ⟨line :: skipped, first, more, ?_, hkept, ?_, hfirst⟩
        · rw [List.cons_append, ← heq]
        · exact List.forall_mem_cons.mpr ⟨List.all_eq_true.mp hgaps, hskipped⟩
      · rw [withoutBlank_of_not rest hgaps]
        refine ⟨[], line, rest, rfl, rfl, List.forall_mem_nil _, ?_⟩
        intro _
        simpa using hgaps

theorem rdropWhile_append_of_forall {p : Char → Bool} {more : List Char}
    (h : ∀ c ∈ more, p c = true) (cs : List Char) : (cs ++ more).rdropWhile p = cs.rdropWhile p := by
  unfold List.rdropWhile
  rw [List.reverse_append, List.dropWhile_append_of_pos]
  simpa using h

/-- The lines of a text, and what becomes of them. Those at the start that show nothing but spaces
and tabs go, and so does the white space at the end. All lines between stay, each where
it is, without the spaces and tabs at its end. -/
structure Tidies (cs shown : List Char) (skipped inner : List (List Char)) (last : List Char)
    (rest : List (List Char)) : Prop where
  lines : Text.lines cs = skipped ++ (inner ++ [last]) ++ rest
  gone : ∀ line ∈ skipped, ∀ c ∈ line, isGap c = true
  opens : ∀ line ∈ (inner ++ [last]).head?, ∃ c ∈ line, isGap c = false
  closes : ∃ c ∈ last, isBlank c = false
  behind : ∀ line ∈ rest, ∀ c ∈ line, isBlank c = true
  shown : Text.lines shown = inner.map (·.rdropWhile isGap) ++ [last.rdropWhile isBlank, []]

/-- A text is the lines at its start that are dropped, what is kept, and white space. -/
theorem exists_kept (cs : List Char) :
    ∃ skipped first more tail, lines cs = skipped ++ first :: more ∧
      (∀ line ∈ skipped, ∀ c ∈ line, isGap c = true) ∧
      (more ≠ [] → ∃ c ∈ first, isGap c = false) ∧
      lines (kept cs ++ tail) = first :: more ∧ ∀ c ∈ tail, isBlank c = true := by
  obtain ⟨skipped, first, more, heq, hstays, hskipped, hfirst⟩ :=
    withoutBlank_spec (lines_ne_nil cs)
  refine ⟨skipped, first, more, (joined (withoutBlank (lines cs))).rtakeWhile isBlank, ?_, hskipped,
    hfirst, ?_, fun c hc => List.mem_rtakeWhile_imp hc⟩
  · rw [← hstays, ← heq]
  · unfold kept
    rw [List.rdropWhile_append_rtakeWhile, hstays, lines_joined (List.cons_ne_nil _ _)]
    intro line hline hnewline
    have hmem : line ∈ lines cs := by
      rw [heq, hstays]
      exact List.mem_append_right _ hline
    exact (mem_of_line hmem _ hnewline).2 rfl

theorem kept_closes {cs : List Char} (h : kept cs ≠ []) :
    ∃ front c, kept cs = front ++ [c] ∧ isBlank c = false := by
  obtain ⟨front, c, hkept⟩ := (List.eq_nil_or_concat' (kept cs)).resolve_left h
  have hlast := List.rdropWhile_last_not isBlank _ h
  refine ⟨front, c, hkept, ?_⟩
  unfold kept at hkept
  simpa [hkept] using hlast

theorem kept_eq_nil_iff (cs : List Char) : kept cs = [] ↔ ∀ c ∈ cs, isBlank c = true := by
  obtain ⟨skipped, first, more, tail, hlines, hskipped, -, hkept, htail⟩ := exists_kept cs
  have hcs : cs = skipped.flatMap (· ++ ['\n']) ++ (kept cs ++ tail) := by
    rw [← joined_lines (kept cs ++ tail), hkept, ← joined_append (List.cons_ne_nil _ _), ← hlines,
      joined_lines]
  constructor
  · intro hnone c hc
    rw [hcs, hnone, List.nil_append, List.mem_append, List.mem_flatMap] at hc
    rcases hc with ⟨line, hline, hc⟩ | hc
    · rcases List.mem_append.mp hc with hc | hc
      · exact isBlank_of_isGap (hskipped line hline c hc)
      · rw [List.mem_singleton.mp hc]
        decide
    · exact htail c hc
  · intro hblank
    by_contra hsome
    obtain ⟨front, c, hend, hc⟩ := kept_closes hsome
    have hmem : c ∈ cs := by
      rw [hcs, hend]
      simp
    rw [hblank c hmem] at hc
    cases hc

theorem lines_normal (cs : List Char) :
    lines (normal cs) = (lines (kept cs)).map (·.rdropWhile isGap) ++ [[]] := by
  unfold normal
  rw [lines_append, lines_joined]
  · rfl
  · simpa using lines_ne_nil (kept cs)
  · intro line hline hnewline
    obtain ⟨whole, hwhole, rfl⟩ := List.mem_map.mp hline
    exact (mem_of_line hwhole _ ((List.rdropWhile_prefix isGap _).subset hnewline)).2 rfl

theorem exists_tidies {cs : List Char} (h : kept cs ≠ []) :
    ∃ skipped inner last rest, Tidies cs (normal cs) skipped inner last rest := by
  obtain ⟨skipped, first, more, tail, hlines, hskipped, hfirst, hkept, htail⟩ := exists_kept cs
  obtain ⟨front, c, hend, hc⟩ := kept_closes h
  obtain ⟨t, rest, hrest⟩ := exists_lines tail
  obtain ⟨inner, last, hinner, htogether⟩ := lines_together (kept cs) hrest
  have hsingle : lines [c] = [[c]] := lines_cons (not_newline hc) rfl
  obtain ⟨inner', line, -, hlonger⟩ := lines_together front hsingle
  have hbehind : ∀ line ∈ t :: rest, ∀ c ∈ line, isBlank c = true := by
    intro line hline c hc
    rw [← hrest] at hline
    exact htail c (mem_of_line hline c hc).1
  -- The last line that is kept ends where what is kept ends.
  obtain ⟨rfl, rfl⟩ : inner = inner' ∧ last = line ++ [c] := by
    rw [hend, hlonger] at hinner
    obtain ⟨hfront, hlast⟩ := List.append_inj' hinner rfl
    exact ⟨hfront.symm, (List.cons.inj hlast).1.symm⟩
  have hlast : (line ++ [c] ++ t).rdropWhile isBlank = line ++ [c] := by
    rw [rdropWhile_append_of_forall (hbehind t List.mem_cons_self)]
    exact List.rdropWhile_concat_neg isBlank line c (by simp [hc])
  have hall : first :: more = inner ++ (line ++ [c] ++ t) :: rest := by rw [← hkept, htogether]
  refine ⟨skipped, inner, line ++ [c] ++ t, rest, ?_, hskipped, ?_, ⟨c, by simp, hc⟩, ?_, ?_⟩
  · rw [hlines, hall]
    simp
  · rcases inner with _ | ⟨line', inner⟩
    · rintro line' hline'
      cases hline'
      exact ⟨c, by simp, not_gap hc⟩
    · obtain ⟨rfl, rfl⟩ := List.cons.inj hall
      rintro line' hline'
      cases hline'
      exact hfirst (by simp)
  · intro line hline
    exact hbehind line (List.mem_cons_of_mem _ hline)
  · rw [lines_normal, hinner, hlast, List.map_append, List.append_assoc]
    have hsame : (line ++ [c]).rdropWhile isGap = line ++ [c] :=
      List.rdropWhile_concat_neg isGap line c (by simp [not_gap hc])
    simp [hsame]

/-! ## What a tidy text looks like -/

theorem exists_not_gap_rdropWhile {line : List Char} (h : ∃ c ∈ line, isGap c = false) :
    ∃ c ∈ line.rdropWhile isGap, isGap c = false := by
  by_contra hnone
  have hempty : line.rdropWhile isGap = [] := by
    by_contra hsome
    apply hnone
    exact ⟨_, List.getLast_mem hsome, by simpa using List.rdropWhile_last_not isGap line hsome⟩
  obtain ⟨c, hc, hink⟩ := h
  rw [List.rdropWhile_eq_nil_iff] at hempty
  rw [hempty c hc] at hink
  cases hink

theorem takeWhile_gaps {line more : List Char} (h : ∃ c ∈ line, isGap c = false) :
    (line ++ more).takeWhile isGap = line.takeWhile isGap := by
  rw [List.takeWhile_append, if_neg]
  intro hlength
  have hall := (List.takeWhile_prefix isGap).eq_of_length hlength
  obtain ⟨c, hc, hink⟩ := h
  rw [← hall] at hc
  rw [List.mem_takeWhile_imp hc] at hink
  cases hink

namespace Tidies

variable {cs shown : List Char} {skipped inner rest : List (List Char)} {last : List Char}

theorem last_closes (h : Tidies cs shown skipped inner last rest) :
    ∃ front c, last.rdropWhile isBlank = front ++ [c] ∧ isBlank c = false := by
  have hsome : last.rdropWhile isBlank ≠ [] := by
    intro hnone
    obtain ⟨c, hc, hink⟩ := h.closes
    rw [List.rdropWhile_eq_nil_iff] at hnone
    rw [hnone c hc] at hink
    cases hink
  obtain ⟨front, c, hend⟩ := (List.eq_nil_or_concat' _).resolve_left hsome
  have hlast := List.rdropWhile_last_not isBlank _ hsome
  refine ⟨front, c, hend, ?_⟩
  simpa [hend] using hlast

/-- The first line shows something, and begins with the spaces and tabs that it began with. -/
theorem first_shown (h : Tidies cs shown skipped inner last rest) :
    ∃ first line, (Text.lines shown).head? = some line ∧ (inner ++ [last]).head? = some first ∧
      (∃ c ∈ line, isGap c = false) ∧ line.takeWhile isGap = first.takeWhile isGap := by
  have hopens := h.opens
  rw [h.shown]
  rcases inner with _ | ⟨first, inner⟩
  · obtain ⟨front, c, hend, hc⟩ := h.last_closes
    have hink : ∃ c ∈ last.rdropWhile isBlank, isGap c = false :=
      ⟨c, by simp [hend], not_gap hc⟩
    refine ⟨last, last.rdropWhile isBlank, rfl, rfl, hink, ?_⟩
    rw [← takeWhile_gaps hink, List.rdropWhile_append_rtakeWhile]
  · have hink := exists_not_gap_rdropWhile (hopens first rfl)
    refine ⟨first, first.rdropWhile isGap, rfl, rfl, hink, ?_⟩
    rw [← takeWhile_gaps hink, List.rdropWhile_append_rtakeWhile]

theorem line_closes (h : Tidies cs shown skipped inner last rest) :
    ∀ line ∈ Text.lines shown, line.rdropWhile isGap = line := by
  obtain ⟨front, c, hend, hc⟩ := h.last_closes
  intro line hline
  rw [h.shown] at hline
  simp only [List.mem_append, List.mem_map, List.mem_cons, List.not_mem_nil, or_false] at hline
  rcases hline with ⟨whole, -, rfl⟩ | rfl | rfl
  · exact List.rdropWhile_idempotent isGap whole
  · rw [hend]
    exact List.rdropWhile_concat_neg isGap front c (by simp [not_gap hc])
  · rfl

theorem kept_newline (h : Tidies cs shown skipped inner last rest) :
    shown = kept shown ++ ['\n'] ∧ kept shown ≠ [] := by
  obtain ⟨first, line, hline, -, ⟨d, hd, hink⟩, -⟩ := h.first_shown
  obtain ⟨front, c, hend, hc⟩ := h.last_closes
  have hshown : shown = (inner.map (·.rdropWhile isGap)).flatMap (· ++ ['\n']) ++ (front ++ [c]) ++
      ['\n'] := by
    rw [← joined_lines shown, h.shown, joined_append (List.cons_ne_nil _ _), hend]
    simp [joined]
  have hfirst : withoutBlank (Text.lines shown) = Text.lines shown := by
    obtain ⟨others, heq⟩ := List.head?_eq_some_iff.mp hline
    have hnot : ¬ line.all isGap = true := by
      intro hall
      rw [List.all_eq_true.mp hall d hd] at hink
      cases hink
    rw [heq]
    exact withoutBlank_of_not others hnot
  have hkept : kept shown =
      (inner.map (·.rdropWhile isGap)).flatMap (· ++ ['\n']) ++ (front ++ [c]) := by
    unfold kept
    rw [hfirst, joined_lines, hshown, List.rdropWhile_concat_pos isBlank _ _ (by decide),
      ← List.append_assoc]
    exact List.rdropWhile_concat_neg isBlank _ c (by simp [hc])
  rw [hkept]
  exact ⟨hshown, by simp⟩

/-- A tidy text is its own normal form. -/
theorem normal_eq (h : Tidies cs shown skipped inner last rest) : normal shown = shown := by
  obtain ⟨hnewline, -⟩ := h.kept_newline
  have hlines : Text.lines shown = Text.lines (kept shown) ++ [[]] := by
    have hend := lines_append (kept shown) []
    rw [← hnewline] at hend
    exact hend
  have hsame : (Text.lines (kept shown)).map (·.rdropWhile isGap) = Text.lines (kept shown) := by
    apply (List.map_congr_left _).trans (List.map_id _)
    intro line hline
    apply h.line_closes
    rw [hlines]
    exact List.mem_append_left _ hline
  unfold normal
  rw [hsame, joined_lines, ← hnewline]

end Tidies

/-! ## The law of clean texts -/

/-- Cleaning leaves nothing of white space only. Every other text it brings into the normal
form, line by line: there is one newline at the end and something other than white space
before it, and no line ends in spaces or tabs. The lines that are blank at the start are gone, and
the white space at the end. Every line between stays where it is, blank or not; the first of them
shows something and has its indentation. What is clean stays as it is. -/
theorem clean_is_normal (code : String) :
    (clean code = "" ↔ ∀ c ∈ code.toList, isBlank c = true) ∧
    (clean code ≠ "" →
      (clean code).toList = normal code.toList ∧
      (∃ front c, (clean code).toList = front ++ [c, '\n'] ∧ isBlank c = false) ∧
      (∀ line ∈ lines (clean code).toList, ∀ c ∈ line.getLast?, isGap c = false) ∧
      ∃ skipped inner last rest,
        Tidies code.toList (clean code).toList skipped inner last rest ∧
        ∃ first line, (lines (clean code).toList).head? = some line ∧
          (inner ++ [last]).head? = some first ∧ (∃ c ∈ line, isGap c = false) ∧
          line.takeWhile isGap = first.takeWhile isGap) ∧
    clean (clean code) = clean code := by
  rcases clean_eq code with ⟨hnone, hclean⟩ | ⟨hsome, hclean⟩
  · rw [hclean]
    refine ⟨?_, fun hne => absurd rfl hne, rfl⟩
    rw [← kept_eq_nil_iff, hnone]
    simp
  · obtain ⟨skipped, inner, last, rest, htidies⟩ := exists_tidies hsome
    rw [← hclean] at htidies
    obtain ⟨hnewline, hkept⟩ := htidies.kept_newline
    have hne : clean code ≠ "" := by
      intro hempty
      rw [hempty] at hnewline
      simp at hnewline
    refine ⟨?_, fun _ => ⟨hclean, ?_, ?_, skipped, inner, last, rest, htidies,
      htidies.first_shown⟩, ?_⟩
    · rw [← kept_eq_nil_iff]
      simp [hne, hsome]
    · obtain ⟨front, c, hend, hc⟩ := kept_closes hkept
      refine ⟨front, c, ?_, hc⟩
      rw [hnewline, hend, List.append_assoc]
      rfl
    · intro line hline c hc
      have hsame := htidies.line_closes line hline
      rw [List.rdropWhile_eq_self_iff] at hsame
      obtain ⟨hsome, rfl⟩ := List.mem_getLast?_eq_getLast hc
      simpa using hsame hsome
    · rcases clean_eq (clean code) with ⟨hnone, -⟩ | ⟨-, hagain⟩
      · exact absurd hnone hkept
      · rw [← String.toList_inj, hagain, htidies.normal_eq]

/-- A page break alone is a line that stays, and so does a space that does not break. -/
example : clean " \n\t\n  a \t\n \n\x0c\n\u00a0b \r\n \x0b" = "  a\n\n\x0c\n\u00a0b\n" := by
  decide +kernel

end BlockCode.Text
