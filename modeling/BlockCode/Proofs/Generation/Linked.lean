-- Programs of chains that are linked. The code of one chain with another behind it is the code of
-- the one and then that of the other; and when both stand at the top, their two sections come to
-- the same lines of the program as the one section that they make together.
import BlockCode.Proofs.Generation.Remarked
import BlockCode.Proofs.Generation.Twins
import BlockCode.Proofs.Workspace.Linking

namespace BlockCode

open BlockCode.Language
open BlockCode.Text (Ended)

/-! ## Sections that are joined -/

theorem joinSections_merge {text rest : String} (hended : Ended text) (hne : text ≠ "")
    (hrest : rest ≠ "") (front back : List String) :
    joinSections (front ++ (text ++ rest) :: back) = joinSections (front ++ text :: rest :: back) := by
  obtain ⟨lines, rfl⟩ := hended.resolve_left hne
  unfold joinSections
  simp only [List.map_append, List.map_cons]
  rw [Text.dropNewline_behind hrest, Text.dropNewline_newline, Text.joinLines_merge]

theorem Chain.GivesNone.append {c tail : Chain} (hc : c.GivesNone) (htail : tail.GivesNone) :
    (c.append tail).GivesNone := by
  cases c with
  | nil => exact htail
  | cons b inputs next => exact Chain.givesNone_cons.mpr (Chain.givesNone_cons.mp hc)

namespace Language

variable {L : Language} {nested : Workspace → Action String} {alone : Bool} {c tail : Chain}
  {s between s' : Session} {text rest : String}

/-! ## The code of two chains -/

/-- When both chains come to statements, the one with the other behind it comes to those of the one
and then those of the other. -/
theorem codeOf_append (htail : tail.GivesNone)
    (hc : L.codeOf nested alone c s = (.ok (.statements text), between))
    (hrest : L.codeOf nested false tail between = (.ok (.statements rest), s')) :
    L.codeOf nested alone (c.append tail) s = (.ok (.statements (text ++ rest)), s') := by
  induction c using Chain.inductionOn generalizing alone s text with
  | nil =>
    cases hc
    rw [Chain.append, codeOf_alone htail, String.empty_append]
    exact hrest
  | cons b inputs next _ ih =>
    rw [Chain.append]
    rcases hb : b.isDisabled with _ | _
    · obtain ⟨rule, result, after, before, behind, hrule, hresult, hbefore, hnext, hcode⟩ :=
        (codeOf_iff hb).mp hc
      refine (codeOf_iff hb).mpr ⟨rule, result, after, before, behind ++ rest, hrule, hresult,
        hbefore, ih hnext, ?_⟩
      cases result with
      | code made =>
        cases hcode
        simp only [RuleResult.between, String.append_assoc]
      | expression made order => cases hcode
      | other v => cases hcode
    · rw [codeOf_disabled hb] at hc ⊢
      exact ih hc

/-- Statements that have ended. -/
def Concludes (code : Code) : Prop := ∃ text, code = .statements text ∧ Ended text

theorem sectionOf_none {top : Chain} (hnone : top.GivesNone) (text : String) :
    L.sectionOf top text = .ok (if text == "" then none else some text) := by
  unfold sectionOf
  rw [hnone.any]
  split <;> rfl

theorem statements_of_section {top : Chain} (hnone : top.GivesNone) {made : Option String}
    (h : Yields (fun _ => True) Concludes (L.codeOf nested true top))
    (hmade : L.section? nested top s = (.ok made, s')) : ∃ text, Ended text ∧
      L.codeOf nested true top s = (.ok (.statements text), s') ∧
      made = if text == "" then none else some text := by
  obtain ⟨code, hcode, hmade⟩ := section_iff.mp hmade
  obtain ⟨-, text, rfl, hended⟩ := h s code s' trivial hcode
  rw [sectionOf_none hnone] at hmade
  exact ⟨text, hended, hcode, (Except.ok.inj hmade).symm⟩

theorem written_cons_iff {top : Chain} {rest : List Chain} {texts : List String} :
    L.written nested (top :: rest) s = (.ok texts, s') ↔ ∃ made between others,
      L.section? nested top s = (.ok made, between) ∧
        L.written nested rest between = (.ok others, s') ∧ texts = made.toList ++ others := by
  rw [written_cons, Effect.bind_ok_iff]
  simp only [Effect.bind_ok_iff]
  constructor
  · rintro ⟨made, between, hmade, others, last, hothers, hdone⟩
    cases hdone
    exact ⟨made, between, others, hmade, hothers, rfl⟩
  · rintro ⟨made, between, others, hmade, hothers, rfl⟩
    exact ⟨made, between, hmade, others, s', hothers, rfl⟩

theorem written_append_iff {tops more : List Chain} {texts : List String} :
    L.written nested (tops ++ more) s = (.ok texts, s') ↔ ∃ front between back,
      L.written nested tops s = (.ok front, between) ∧
        L.written nested more between = (.ok back, s') ∧ texts = front ++ back := by
  induction tops generalizing s texts with
  | nil =>
    constructor
    · exact fun h => ⟨[], s, texts, rfl, h, rfl⟩
    · rintro ⟨front, between, back, hfront, hback, rfl⟩
      cases hfront
      exact hback
  | cons top rest ih =>
    rw [List.cons_append, written_cons_iff]
    simp only [ih, written_cons_iff]
    constructor
    · rintro ⟨made, first, _, hmade, ⟨front, between, back, hfront, hback, rfl⟩, rfl⟩
      exact ⟨_, between, back, ⟨made, first, front, hmade, hfront, rfl⟩, hback,
        (List.append_assoc _ _ _).symm⟩
    · rintro ⟨_, between, back, ⟨made, first, front, hmade, hfront, rfl⟩, hback, rfl⟩
      exact ⟨made, first, _, hmade, ⟨front, between, back, hfront, hback, rfl⟩,
        List.append_assoc _ _ _⟩

/-- The sections of two chains of statements come to the same lines as the section of both. -/
theorem written_link {before after : List Chain} {first second : Chain} {texts : List String}
    (hfirst : first.GivesNone) (hsecond : second.GivesNone)
    (hcodes : ∀ top ∈ [first, second], Yields (fun _ => True) Concludes (L.codeOf nested true top))
    (h : L.written nested (before ++ first :: second :: after) s = (.ok texts, s')) :
    ∃ texts', L.written nested (before ++ first.append second :: after) s = (.ok texts', s') ∧
      joinSections texts' = joinSections texts := by
  obtain ⟨front, s₁, back, hfront, hback, rfl⟩ := written_append_iff.mp h
  obtain ⟨_, s₂, _, hone, hmore, rfl⟩ := written_cons_iff.mp hback
  obtain ⟨_, s₃, others, htwo, hothers, rfl⟩ := written_cons_iff.mp hmore
  obtain ⟨text, hended, hcode, rfl⟩ :=
    statements_of_section hfirst (hcodes first (by simp)) hone
  obtain ⟨rest, -, hrest, rfl⟩ := statements_of_section hsecond (hcodes second (by simp)) htwo
  rw [codeOf_alone hsecond] at hrest
  have hsection : L.section? nested (first.append second) s₁ =
      (.ok (if text ++ rest == "" then none else some (text ++ rest)), s₃) :=
    section_iff.mpr ⟨_, codeOf_append hsecond hcode hrest, sectionOf_none (hfirst.append hsecond) _⟩
  refine ⟨_, written_append_iff.mpr ⟨front, s₁, _, hfront,
    written_cons_iff.mpr ⟨_, s₃, others, hsection, hothers, rfl⟩, rfl⟩, ?_⟩
  by_cases hnone : text = ""
  · simp [hnone]
  · by_cases hrestnone : rest = ""
    · simp [hrestnone]
    · simpa [hnone, hrestnone] using joinSections_merge hended hnone hrestnone front others

end Language
end BlockCode
