-- The laws of putting text before lines. The first line gets it, and so does every other line that
-- is not empty; nothing else changes. So what is put before lines twice is put before them once, as
-- one text, and lines can be put one behind the other before this or after it.
import BlockCode.Proofs.Text.Normal

namespace BlockCode.Text

variable {c : Char} {lead cs rest first : List Char} {others : List (List Char)}

/-! ## Character by character -/

theorem leadRest_cons (hc : c ≠ '\n') : leadRest lead (c :: rest) = c :: leadRest lead rest := by
  rw [leadRest, if_neg (by simp [hc])]

theorem leadRest_starts (h : startsLine rest = true) :
    leadRest lead ('\n' :: rest) = '\n' :: (lead ++ leadRest lead rest) := by
  rw [leadRest, if_pos (by simp [h])]

theorem leadRest_blank (h : startsLine rest = false) :
    leadRest lead ('\n' :: rest) = '\n' :: leadRest lead rest := by
  rw [leadRest, if_neg (by simp [h])]

theorem startsLine_cons (c : Char) (rest : List Char) : startsLine (c :: rest) = (c != '\n') := rfl

@[simp] theorem startsLine_leadRest (lead cs : List Char) :
    startsLine (leadRest lead cs) = startsLine cs := by
  cases cs with
  | nil => rfl
  | cons c rest =>
    rw [leadRest]
    split <;> rfl

theorem leadRest_behind {front : List Char} (hfront : '\n' ∉ front) (lead cs : List Char) :
    leadRest lead (front ++ cs) = front ++ leadRest lead cs := by
  induction front with
  | nil => rfl
  | cons c front ih =>
    obtain ⟨hc, hfront⟩ : c ≠ '\n' ∧ '\n' ∉ front := by simpa [eq_comm] using hfront
    rw [List.cons_append, leadRest_cons hc, ih hfront, List.cons_append]

/-- With text without newlines before it, a line still does not begin with one. -/
theorem startsLine_behind {front : List Char} (hfront : '\n' ∉ front) (h : startsLine cs = true) :
    startsLine (front ++ cs) = true := by
  cases front with
  | nil => exact h
  | cons c front =>
    obtain ⟨hc, -⟩ : c ≠ '\n' ∧ '\n' ∉ front := by simpa [eq_comm] using hfront
    simp [startsLine_cons, hc]

/-! ## Line by line -/

/-- The lines with text before the first, even an empty one, and before every other that is
not empty. -/
def ledLines (lead : List Char) : List (List Char) → List (List Char)
  | [] => []
  | first :: others => (lead ++ first) :: others.map (led lead)

theorem joined_behind (front line : List Char) (ls : List (List Char)) :
    joined ((front ++ line) :: ls) = front ++ joined (line :: ls) := by
  cases ls <;> simp [joined, List.intercalate]

theorem joined_nil_cons (line : List Char) (ls : List (List Char)) :
    joined ([] :: line :: ls) = '\n' :: joined (line :: ls) := by
  simp [joined, List.intercalate]

/-- The text may have newlines of its own: they end no line of `cs`. The lines of what comes of it,
as `lines_leadRest` tells them, are then others, so the law is told of the lines of `cs`. -/
theorem leadRest_eq_joined (h : lines cs = first :: others) :
    leadRest lead cs = joined (first :: others.map (led lead)) := by
  induction cs generalizing first others with
  | nil =>
    cases h
    rfl
  | cons c rest ih =>
    obtain ⟨next, later, hlines⟩ := exists_lines rest
    have hrest := ih hlines
    by_cases hc : c = '\n'
    · rw [hc, lines_newline, hlines] at h
      obtain ⟨rfl, rfl⟩ := List.cons.inj h
      rw [hc, List.map_cons, joined_nil_cons]
      by_cases hnext : next = []
      · have hblank : startsLine rest = false := by simp [startsLine_iff hlines, hnext]
        rw [leadRest_blank hblank, hrest, hnext]
        rfl
      · have hstarts : startsLine rest = true := by simp [startsLine_iff hlines, hnext]
        rw [leadRest_starts hstarts, hrest, led, if_neg (by simpa using hnext), joined_behind]
    · rw [lines_cons (beq_false_of_ne hc) hlines] at h
      obtain ⟨rfl, rfl⟩ := List.cons.inj h
      rw [leadRest_cons hc, hrest]
      exact (joined_behind [c] next _).symm

theorem leadLines_eq_joined (lead text : String) :
    (leadLines lead text).toList = joined (ledLines lead.toList (lines text.toList)) := by
  obtain ⟨first, others, hlines⟩ := exists_lines text.toList
  unfold leadLines
  rw [String.toList_append, String.toList_ofList, leadRest_eq_joined hlines, hlines, ledLines,
    joined_behind]

/-! ## Place by place -/

/-- The text with `lead` put into every place. A place is a newline and the character behind it,
when that is no newline. Places are found from left to right, and both characters of a place
are passed over before the next is looked for. -/
def putBetween (lead : List Char) : List Char → List Char
  | c :: d :: rest =>
    if c == '\n' && d != '\n' then c :: (lead ++ d :: putBetween lead rest)
    else c :: putBetween lead (d :: rest)
  | cs => cs

/-- The second character of a place is no newline, so it begins no other place. -/
theorem leadRest_eq_putBetween (lead cs : List Char) : leadRest lead cs = putBetween lead cs := by
  fun_induction putBetween lead cs with
  | case1 c d rest hplace ih =>
    obtain ⟨rfl, hd⟩ : c = '\n' ∧ d ≠ '\n' := by simpa using hplace
    rw [leadRest_starts (by simp [startsLine_cons, hd]), leadRest_cons hd, ih]
  | case2 c d rest hplace ih =>
    rw [leadRest, startsLine_cons, if_neg hplace, ih]
  | case3 cs hshort =>
    rcases cs with _ | ⟨c, _ | ⟨d, rest⟩⟩
    · rfl
    · simp [leadRest, startsLine]
    · exact absurd rfl (hshort c d rest)

/-! ## Twice -/

theorem leadRest_leadRest (hlead : '\n' ∉ lead) (more cs : List Char) :
    leadRest more (leadRest lead cs) = leadRest (more ++ lead) cs := by
  induction cs with
  | nil => rfl
  | cons c rest ih =>
    by_cases hc : c = '\n'
    · subst hc
      rcases hrest : startsLine rest with _ | _
      · rw [leadRest_blank hrest, leadRest_blank (by simpa using hrest), leadRest_blank hrest, ih]
      · have hstarts : startsLine (lead ++ leadRest lead rest) = true :=
          startsLine_behind hlead (by simpa using hrest)
        rw [leadRest_starts hrest, leadRest_starts hstarts, leadRest_behind hlead, ih,
          leadRest_starts hrest, List.append_assoc]
    · rw [leadRest_cons hc, leadRest_cons hc, leadRest_cons hc, ih]

@[simp] theorem leadLines_empty (text : String) : leadLines "" text = text := by
  have hrest : ∀ cs, leadRest [] cs = cs := by
    intro cs
    induction cs with
    | nil => rfl
    | cons c rest ih =>
      rw [leadRest, List.nil_append, ih]
      split <;> rfl
  unfold leadLines
  rw [String.toList_empty, hrest, String.ofList_toList, String.empty_append]

/-- Text before lines that have text before them is one text before the lines. -/
theorem leadLines_leadLines {lead : String} (hlead : '\n' ∉ lead.toList) (more text : String) :
    leadLines more (leadLines lead text) = leadLines (more ++ lead) text := by
  unfold leadLines
  rw [String.toList_append, String.toList_ofList, leadRest_behind hlead, leadRest_leadRest hlead,
    String.toList_append, String.ofList_append, String.ofList_toList, String.append_assoc]

/-- Copies of a text, one behind the other. -/
def copies (text : String) (count : Nat) : String := String.join (List.replicate count text)

theorem copies_succ (text : String) (count : Nat) :
    copies text (count + 1) = text ++ copies text count := by
  unfold copies
  rw [List.replicate_succ, String.join_cons]

theorem newline_copies {text : String} (h : '\n' ∉ text.toList) (count : Nat) :
    '\n' ∉ (copies text count).toList := by
  induction count with
  | zero => simp [copies]
  | succ count ih =>
    rw [copies_succ, String.toList_append, List.mem_append]
    exact not_or.mpr ⟨h, ih⟩

theorem leadLines_copies {lead : String} (hlead : '\n' ∉ lead.toList) (count : Nat)
    (text : String) :
    leadLines lead (leadLines (copies lead count) text) =
      leadLines (copies lead (count + 1)) text := by
  rw [leadLines_leadLines (newline_copies hlead count), copies_succ]

/-! ## One behind the other -/

theorem leadRest_append (lead front : List Char) (h : startsLine rest = true) :
    leadRest lead (front ++ '\n' :: rest) =
      leadRest lead (front ++ ['\n']) ++ (lead ++ leadRest lead rest) := by
  induction front with
  | nil =>
    rw [List.nil_append, List.nil_append, leadRest_starts h, leadRest_blank rfl]
    rfl
  | cons c front ih =>
    have hsame : startsLine (front ++ '\n' :: rest) = startsLine (front ++ ['\n']) := by
      cases front <;> rfl
    rw [List.cons_append, List.cons_append, leadRest, leadRest, hsame, ih]
    split <;> simp

theorem ends_iff (text : String) :
    text.toList.getLast? = some '\n' ↔ ∃ front, text = front ++ "\n" := by
  rw [List.getLast?_eq_some_iff]
  constructor
  · rintro ⟨front, hfront⟩
    refine ⟨String.ofList front, ?_⟩
    rw [← String.toList_inj, hfront]
    simp
  · rintro ⟨front, rfl⟩
    exact ⟨front.toList, by simp⟩

theorem startsLine_iff_head (text : String) :
    startsLine text.toList = true ↔ text ≠ "" ∧ text.toList.head? ≠ some '\n' := by
  rw [← String.toList_inj.ne]
  cases text.toList <;> simp [startsLine]

/-- Lines that have ended, and a text behind them that begins with a line that is not empty. -/
theorem leadLines_append (lead : String) {front text : String}
    (hfront : front.toList.getLast? = some '\n') (htext : startsLine text.toList = true) :
    leadLines lead (front ++ text) = leadLines lead front ++ leadLines lead text := by
  obtain ⟨lines, rfl⟩ := (ends_iff front).mp hfront
  apply String.toList_inj.mp
  unfold leadLines
  simpa using leadRest_append lead.toList lines.toList htext

/-! ## Chains -/

/-- Lines that other lines can stand behind: they have ended, and the first is not empty. Or there
are none. -/
def Stackable (text : String) : Prop :=
  text = "" ∨ (text.toList.getLast? = some '\n' ∧ startsLine text.toList = true)

/-- Lines with text before them, if there are any. -/
def ledIfAny (lead text : String) : String := if text == "" then "" else leadLines lead text

namespace Stackable

variable {text behind : String}

theorem append (h : Stackable text) (h' : Stackable behind) : Stackable (text ++ behind) := by
  rcases h with rfl | ⟨hlast, hstarts⟩
  · rwa [String.empty_append]
  · rcases h' with rfl | ⟨hlast', -⟩
    · rw [String.append_empty]
      exact Or.inr ⟨hlast, hstarts⟩
    · refine Or.inr ⟨?_, ?_⟩
      · rw [String.toList_append, List.getLast?_append, hlast', Option.some_or]
      · rw [String.toList_append]
        cases htext : text.toList with
        | nil => simp [htext] at hlast
        | cons c rest => rwa [htext] at hstarts

theorem led {lead : String} (hlead : '\n' ∉ lead.toList) (hlast : text.toList.getLast? = some '\n')
    (hstarts : startsLine text.toList = true) :
    leadLines lead text ≠ "" ∧ Stackable (leadLines lead text) := by
  obtain ⟨hne, -⟩ := (startsLine_iff_head text).mp hstarts
  have hled : startsLine (leadLines lead text).toList = true := by
    unfold leadLines
    rw [String.toList_append, String.toList_ofList]
    exact startsLine_behind hlead (by rwa [startsLine_leadRest])
  obtain ⟨hled_ne, -⟩ := (startsLine_iff_head _).mp hled
  have hended : Ended (leadLines lead text) :=
    ended_leadLines (Or.inr ((ends_iff text).mp hlast)) hne
  exact ⟨hled_ne, Or.inr ⟨(ends_iff _).mpr (hended.resolve_left hled_ne), hled⟩⟩

/-- To put text before all lines of a chain is to put it before those of each part. -/
theorem ledIfAny_append (lead : String) (h : Stackable text) (h' : Stackable behind) :
    ledIfAny lead (text ++ behind) = ledIfAny lead text ++ ledIfAny lead behind := by
  by_cases hne : text = ""
  · simp [hne, ledIfAny]
  · by_cases hne' : behind = ""
    · simp [hne', ledIfAny]
    · have htogether := leadLines_append lead (h.resolve_left hne).1 (h'.resolve_left hne').2
      simp [ledIfAny, hne, hne', htogether]

end Stackable

end BlockCode.Text
