-- Texts that stand within others. A word without white space survives whatever is done to
-- the text around it: text is put before lines, blanks are dropped, lines are joined.
import BlockCode.Text.Lines
import Mathlib.Data.List.Infix
import Mathlib.Data.List.Sublists

namespace BlockCode.Text

/-- The part stands somewhere in the whole. -/
def Within (part whole : String) : Prop := part.toList <:+: whole.toList

/-- A text with no white space in it, and not empty. -/
structure Solid (word : String) : Prop where
  ne_nil : word.toList ≠ []
  visible : ∀ c ∈ word.toList, isBlank c = false

/-! ## Texts side by side -/

namespace Within

variable {part whole : String}

theorem refl (text : String) : Within text text := List.infix_rfl

theorem trans {middle : String} (h : Within part middle) (h' : Within middle whole) :
    Within part whole := List.IsInfix.trans h h'

theorem empty (whole : String) : Within "" whole := List.nil_infix

theorem before (h : Within part whole) (text : String) : Within part (whole ++ text) := by
  unfold Within
  rw [String.toList_append]
  exact List.IsInfix.trans h (List.prefix_append _ _).isInfix

theorem behind (h : Within part whole) (text : String) : Within part (text ++ whole) := by
  unfold Within
  rw [String.toList_append]
  exact List.IsInfix.trans h (List.suffix_append _ _).isInfix

/-- A text holds no more texts than can be cut out of it. -/
theorem mem_sublists (h : Within part whole) : part.toList ∈ whole.toList.sublists :=
  List.mem_sublists.mpr h.sublist

end Within

theorem Solid.not_within_empty {word : String} (h : Solid word) : ¬ Within word "" := by
  intro hwithin
  exact h.ne_nil (List.eq_nil_of_infix_nil hwithin)

/-! ## Text before lines -/

theorem not_newline {c : Char} (h : isBlank c = false) : (c == '\n') = false := by
  rw [beq_eq_false_iff_ne]
  rintro rfl
  revert h
  decide

/-- What is behind a place in a text is still behind it. -/
theorem leadRest_suffix (lead front rest : List Char) :
    leadRest lead rest <:+ leadRest lead (front ++ rest) := by
  induction front with
  | nil => exact List.suffix_rfl
  | cons c front ih =>
    rw [List.cons_append, leadRest]
    split
    · exact ih.trans ((List.suffix_append lead _).trans (List.suffix_cons c _))
    · exact ih.trans (List.suffix_cons c _)

/-- Nothing is put into a word. -/
theorem leadRest_word (lead rest : List Char) {word : List Char}
    (h : ∀ c ∈ word, isBlank c = false) : leadRest lead (word ++ rest) = word ++ leadRest lead rest := by
  induction word with
  | nil => rfl
  | cons c word ih =>
    have hc := not_newline (h c List.mem_cons_self)
    rw [List.cons_append, leadRest, if_neg (by simp [hc]),
      ih fun d hd => h d (List.mem_cons_of_mem c hd)]
    rfl

theorem within_leadLines {word text : String} (hword : Solid word) (h : Within word text)
    (lead : String) : Within word (leadLines lead text) := by
  refine Within.behind ?_ lead
  obtain ⟨front, rest, htext⟩ := h
  unfold Within
  rw [String.toList_ofList, ← htext, List.append_assoc]
  have hrest : word.toList <+: leadRest lead.toList (word.toList ++ rest) := by
    rw [leadRest_word _ _ hword.visible]
    exact List.prefix_append _ _
  exact hrest.isInfix.trans (leadRest_suffix lead.toList front _).isInfix

/-! ## Blanks that are dropped -/

/-- The characters behind a character are dropped with it, or are as they would be without
it; and what is no blank is never dropped. -/
structure DropsBlanks (f : List Char → List Char) : Prop where
  visible : ∀ c rest, isBlank c = false → f (c :: rest) = c :: f rest
  behind : ∀ c rest, f rest = [] ∨ f rest <:+ f (c :: rest)

namespace DropsBlanks

variable {f : List Char → List Char} {word : List Char}

theorem keeps_prefix (h : DropsBlanks f) (hword : ∀ c ∈ word, isBlank c = false)
    (rest : List Char) : word <+: f (word ++ rest) := by
  induction word with
  | nil => exact List.nil_prefix
  | cons c word ih =>
    rw [List.cons_append, h.visible c _ (hword c List.mem_cons_self)]
    exact List.prefix_cons_inj c |>.mpr (ih fun d hd => hword d (List.mem_cons_of_mem c hd))

theorem keeps (h : DropsBlanks f) (hne : word ≠ []) (hword : ∀ c ∈ word, isBlank c = false)
    {text : List Char} (hwithin : word <:+: text) : word <:+: f text := by
  induction text with
  | nil => exact absurd (List.eq_nil_of_infix_nil hwithin) hne
  | cons c rest ih =>
    rcases List.infix_cons_iff.mp hwithin with ⟨tail, hprefix⟩ | hlater
    · rw [← hprefix]
      exact (h.keeps_prefix hword tail).isInfix
    · have hkept := ih hlater
      rcases h.behind c rest with hnone | hsuffix
      · rw [hnone] at hkept
        exact absurd (List.eq_nil_of_infix_nil hkept) hne
      · exact hkept.trans hsuffix.isInfix

end DropsBlanks

theorem dropsBlanks_dropEnd : DropsBlanks dropEnd where
  visible := by
    intro c rest hc
    rw [dropEnd]
    simp [hc]
  behind := by
    intro c rest
    rw [dropEnd]
    by_cases hkept : dropEnd rest = []
    · exact Or.inl hkept
    · right
      rw [if_neg (by simp [hkept])]
      exact List.suffix_cons c _

theorem dropsBlanks_trimLines : DropsBlanks trimLines where
  visible := by
    intro c rest hc
    have hgap : isGap c = false := by
      rw [Bool.eq_false_iff]
      intro hgap
      rw [isBlank_of_isGap hgap] at hc
      cases hc
    rw [trimLines]
    simp [hgap]
  behind := by
    intro c rest
    right
    rw [trimLines]
    split
    · exact List.suffix_rfl
    · exact List.suffix_cons c _

/-- A word is not in the blanks before it. -/
theorem infix_of_blanks {word blanks rest : List Char} (hne : word ≠ [])
    (hword : ∀ c ∈ word, isBlank c = false) (hblanks : ∀ c ∈ blanks, isBlank c = true)
    (h : word <:+: blanks ++ rest) : word <:+: rest := by
  induction blanks with
  | nil => exact h
  | cons c blanks ih =>
    rcases List.infix_cons_iff.mp h with hprefix | hlater
    · obtain ⟨d, word', rfl⟩ := List.exists_cons_of_ne_nil hne
      obtain ⟨rfl, -⟩ := List.cons_prefix_cons.mp hprefix
      have hvisible := hword d List.mem_cons_self
      rw [hblanks d List.mem_cons_self] at hvisible
      cases hvisible
    · exact ih (fun d hd => hblanks d (List.mem_cons_of_mem c hd)) hlater

theorem keeps_dropBlankLines {word line : List Char} (hne : word ≠ [])
    (hword : ∀ c ∈ word, isBlank c = false) {gaps rest : List Char}
    (hgaps : ∀ c ∈ gaps, isBlank c = true) (hline : line = gaps ++ rest)
    (h : word <:+: line) : word <:+: dropBlankLines line rest := by
  induction rest generalizing line gaps with
  | nil => exact h
  | cons c rest ih =>
    have hone : ∀ d, isBlank d = true → ∀ e ∈ gaps ++ [d], isBlank e = true := by
      intro d hd e he
      rcases List.mem_append.mp he with he | he
      · exact hgaps e he
      · rw [List.mem_singleton.mp he]
        exact hd
    have hmoved : line = (gaps ++ [c]) ++ rest := by rw [hline, List.append_assoc]; rfl
    rw [dropBlankLines]
    split
    · rename_i hnewline
      have hc : isBlank c = true := by
        rw [beq_iff_eq.mp hnewline]
        decide
      refine ih (List.forall_mem_nil _) rfl ?_
      rw [hmoved] at h
      exact infix_of_blanks hne hword (hone c hc) h
    · split
      · rename_i hgap
        exact ih (hone c (isBlank_of_isGap hgap)) hmoved h
      · exact h

/-- Cleaning a program leaves its words. -/
theorem within_clean {word code : String} (hword : Solid word) (h : Within word code) :
    Within word (clean code) := by
  have hbody : word.toList <:+: dropEnd (dropBlankLines code.toList code.toList) :=
    dropsBlanks_dropEnd.keeps hword.ne_nil hword.visible
      (keeps_dropBlankLines hword.ne_nil hword.visible (List.forall_mem_nil _) rfl h)
  unfold clean
  split
  · rename_i hnone
    rw [hnone] at hbody
    exact absurd (List.eq_nil_of_infix_nil hbody) hword.ne_nil
  · unfold Within
    rw [String.toList_ofList]
    exact dropsBlanks_trimLines.keeps hword.ne_nil hword.visible
      (hbody.trans (List.prefix_append _ _).isInfix)

/-! ## Lines that are joined -/

theorem within_dropNewline {word text : String} (hword : Solid word) (h : Within word text) :
    Within word (dropNewline text) := by
  unfold dropNewline
  split
  · rename_i rest hrest
    have htext : text.toList = rest.reverse ++ ['\n'] := by
      rw [← List.reverse_reverse text.toList, hrest, List.reverse_cons]
    unfold Within at h ⊢
    rw [htext] at h
    rw [String.toList_ofList]
    rcases List.infix_concat_iff.mp h with hsuffix | hbefore
    · -- A word does not end in a newline.
      have hlast : '\n' ∈ word.toList := by
        rcases List.suffix_concat_iff.mp hsuffix with hnil | ⟨front, hfront, -⟩
        · exact absurd hnil hword.ne_nil
        · rw [hfront]
          exact List.mem_append_right front List.mem_cons_self
      exact absurd (hword.visible _ hlast) (by decide)
    · exact hbefore
  · exact h

theorem within_joinLines {word text : String} {texts : List String} (htext : text ∈ texts)
    (h : Within word text) : Within word (joinLines texts) := by
  unfold joinLines
  induction texts with
  | nil => cases htext
  | cons first rest ih =>
    by_cases hrest : rest = []
    · rw [hrest, List.mem_singleton] at htext
      rw [hrest, String.intercalate_singleton, ← htext]
      exact h
    · rw [String.intercalate_cons_of_ne_nil hrest]
      rcases List.mem_cons.mp htext with rfl | hlater
      · exact (h.before _).before _
      · exact (ih hlater).behind _

theorem not_mem_joinLines {c : Char} (hc : c ≠ '\n') {texts : List String}
    (h : ∀ text ∈ texts, c ∉ text.toList) : c ∉ (joinLines texts).toList := by
  unfold joinLines
  induction texts with
  | nil => exact List.not_mem_nil
  | cons text rest ih =>
    obtain ⟨htext, hrest⟩ := List.forall_mem_cons.mp h
    rcases rest with _ | ⟨next, more⟩
    · rwa [String.intercalate_singleton]
    · rw [String.intercalate_cons_of_ne_nil (List.cons_ne_nil _ _)]
      have hlater := ih hrest
      simp only [String.toList_append, List.mem_append, not_or]
      exact ⟨⟨htext, by simpa using hc⟩, hlater⟩

/-! ## Places that are filled -/

/-- Nothing is put into text without the first character of what is replaced. -/
theorem replaceFrom_without {c : Char} {old new front : List Char} (h : c ∉ front)
    (rest : List Char) :
    replaceFrom (c :: old) new 0 (front ++ rest) = front ++ replaceFrom (c :: old) new 0 rest := by
  induction front with
  | nil => rfl
  | cons d front ih =>
    have hd : c ≠ d := fun heq => h (by simp [heq])
    have hfront : c ∉ front := fun hmem => h (List.mem_cons_of_mem d hmem)
    rw [List.cons_append, replaceFrom, if_neg (by simp [hd]), ih hfront]
    rfl

/-- What is still to be passed over is dropped. -/
theorem replaceFrom_skip (old new passed rest : List Char) :
    replaceFrom old new passed.length (passed ++ rest) = replaceFrom old new 0 rest := by
  induction passed with
  | nil => rfl
  | cons c passed ih => exact ih

theorem replaceFrom_place (c : Char) (old new rest : List Char) :
    replaceFrom (c :: old) new 0 (c :: old ++ rest) = new ++ replaceFrom (c :: old) new 0 rest := by
  have hprefix : (c :: old).isPrefixOf (c :: (old ++ rest)) = true := by simp
  rw [List.cons_append, replaceFrom, if_pos hprefix, List.length_cons, Nat.add_sub_cancel,
    replaceFrom_skip]

/-- A place between texts without the first character of what is replaced. -/
theorem replaceAll_place {c : Char} {cs : List Char} {place front rest : String}
    (hplace : place.toList = c :: cs) (hfront : c ∉ front.toList) (hrest : c ∉ rest.toList)
    (new : String) : replaceAll place new (front ++ place ++ rest) = front ++ new ++ rest := by
  have hend : replaceFrom (c :: cs) new.toList 0 (rest.toList ++ []) = rest.toList ++ [] :=
    replaceFrom_without hrest []
  unfold replaceAll
  rw [← String.toList_inj, String.toList_ofList, String.toList_append, String.toList_append, hplace,
    List.append_assoc, replaceFrom_without hfront, replaceFrom_place]
  rw [List.append_nil] at hend
  rw [hend]
  simp [String.toList_append]

end BlockCode.Text
