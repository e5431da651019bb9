-- Statements inside statements. The statements in an input are indented as a whole, together with
-- all that is inside them, so a line is indented once more for each input that it is in. What
-- comes of this is known from the lines alone: each statement stands behind one copy of the indent
-- for each statement that it is inside, and chains need not be looked at as wholes.
import BlockCode.Language.Python
import BlockCode.Proofs.Generation.Outcome
import BlockCode.Proofs.Text.Leading

namespace BlockCode

open BlockCode.Text

/-- Statements: the lines of the first one itself, the statements inside it, and those behind
it. -/
inductive Statements where
  | nothing
  | statement (own : String) (inside behind : Statements)

namespace Statements

/-- The text as it is made. What is inside a statement is made first, and then put into it. -/
def made (L : Language) : Statements → Except Fault String
  | nothing => return ""
  | statement own inside behind => do
    let body ← L.nest (← inside.made L)
    return own ++ body ++ (← behind.made L)

/-- The lines of every statement by itself, with copies of the indent before them: `depth` copies,
and one for each statement that it is inside. -/
def laid (indent : String) (depth : Nat) : Statements → String
  | nothing => ""
  | statement own inside behind =>
    leadLines (copies indent depth) own ++ inside.laid indent (depth + 1) ++
      behind.laid indent depth

/-- The lines of every statement have ended, and the first is not empty. -/
def Whole : Statements → Prop
  | nothing => True
  | statement own inside behind =>
    (own.toList.getLast? = some '\n' ∧ startsLine own.toList = true) ∧ inside.Whole ∧ behind.Whole

variable {L : Language} {indent own : String} {st inside behind : Statements}

theorem Whole.own_led (h : (statement own inside behind).Whole) (hindent : '\n' ∉ indent.toList)
    (depth : Nat) :
    leadLines (copies indent depth) own ≠ "" ∧ Stackable (leadLines (copies indent depth) own) :=
  Stackable.led (newline_copies hindent depth) h.1.1 h.1.2

theorem Whole.stackable (h : st.Whole) (hindent : '\n' ∉ indent.toList) (depth : Nat) :
    Stackable (st.laid indent depth) := by
  induction st generalizing depth with
  | nothing => exact Or.inl rfl
  | statement own inside behind inside_ih behind_ih =>
    obtain ⟨-, hown⟩ := h.own_led hindent depth
    exact (hown.append (inside_ih h.2.1 _)).append (behind_ih h.2.2 _)

/-- One more indent before all lines is one more copy before each statement. -/
theorem Whole.ledIfAny_laid (h : st.Whole) (hindent : '\n' ∉ indent.toList) (depth : Nat) :
    ledIfAny indent (st.laid indent depth) = st.laid indent (depth + 1) := by
  induction st generalizing depth with
  | nothing => rfl
  | statement own inside behind inside_ih behind_ih =>
    obtain ⟨hne, hown⟩ := h.own_led hindent depth
    have hinside := Whole.stackable h.2.1 hindent (depth + 1)
    have hbehind := Whole.stackable h.2.2 hindent depth
    have hfirst : ledIfAny indent (leadLines (copies indent depth) own) =
        leadLines (copies indent (depth + 1)) own := by
      rw [ledIfAny, if_neg (by simpa using hne), leadLines_copies hindent]
    rw [laid, (hown.append hinside).ledIfAny_append indent hbehind,
      hown.ledIfAny_append indent hinside, hfirst, inside_ih h.2.1, behind_ih h.2.2, laid]

theorem nest_eq (hL : L.config.indent = .str indent) (text : String) :
    L.nest text = .ok (ledIfAny indent text) := by
  unfold Language.nest Config.indented ledIfAny
  rw [hL]
  split <;> rfl

/-- A statement stands behind one copy of the indent for each statement that it is inside. -/
theorem Whole.made (h : st.Whole) (hL : L.config.indent = .str indent)
    (hindent : '\n' ∉ indent.toList) : st.made L = .ok (st.laid indent 0) := by
  induction st with
  | nothing => rfl
  | statement own inside behind inside_ih behind_ih =>
    have hbody : L.nest (inside.laid indent 0) = .ok (inside.laid indent 1) := by
      rw [nest_eq hL, Whole.ledIfAny_laid h.2.1 hindent]
    have hown : leadLines (copies indent 0) own = own := leadLines_empty own
    rw [Statements.made, inside_ih h.2.1, behind_ih h.2.2, laid, hown]
    show (do return own ++ (← L.nest (inside.laid indent 0)) ++ behind.laid indent 0) = _
    rw [hbody]
    rfl

end Statements

/-- Text is put before the first line, even an empty one, and before every other line that is
not empty: that is what comes of finding the newlines with a character behind them from left to
right. Text without newlines that is put before lines twice is put before them once, as one
text, and so it is with several copies of it. Lines that have ended get it by themselves,
whatever begins a line behind them. So all statements of a program text, however they are nested,
stand behind one copy of the indent for each statement that they are inside. -/
theorem led_lines_compose (text lead more : String) :
    (leadLines lead text).toList = joined (ledLines lead.toList (lines text.toList)) ∧
    leadLines lead text = lead ++ String.ofList (putBetween lead.toList text.toList) ∧
    ('\n' ∉ lead.toList →
      leadLines more (leadLines lead text) = leadLines (more ++ lead) text ∧
      ∀ depth, (leadLines lead)^[depth] text = leadLines (copies lead depth) text) ∧
    (∀ front behind : String, front.toList.getLast? = some '\n' → behind ≠ "" →
      behind.toList.head? ≠ some '\n' →
      leadLines lead (front ++ behind) = leadLines lead front ++ leadLines lead behind) ∧
    ∀ L : Language, L.config.indent = .str lead → '\n' ∉ lead.toList → ∀ st : Statements, st.Whole →
      st.made L = .ok (st.laid lead 0) := by
  refine ⟨leadLines_eq_joined lead text, ?_, ?_, ?_, ?_⟩
  · rw [← leadRest_eq_putBetween]
    rfl
  · intro hlead
    refine ⟨leadLines_leadLines hlead more text, ?_⟩
    intro depth
    induction depth with
    | zero => exact (leadLines_empty text).symm
    | succ depth ih => rw [Function.iterate_succ_apply', ih, leadLines_copies hlead]
  · intro front behind hfront hne hbehind
    exact leadLines_append lead hfront ((startsLine_iff_head behind).mpr ⟨hne, hbehind⟩)
  · intro L hL hlead st hst
    exact hst.made hL hlead

/-- A loop with a branch in it, an empty line in the branch, and a statement behind each. -/
def branchInLoop : Statements :=
  .statement "while a:\n"
    (.statement "if b:\n\n# c\n" (.statement "d\n" .nothing .nothing)
      (.statement "e\n" .nothing .nothing))
    (.statement "f\n" .nothing .nothing)

theorem branchInLoop_whole : branchInLoop.Whole := by
  simp [branchInLoop, Statements.Whole, startsLine]

/-- The first line is empty, and so is one of the others. -/
theorem branchInLoop_composes :
    '\n' ∉ "\t".toList ∧ "x\n\n".toList.getLast? = some '\n' ∧ " y" ≠ "" ∧
      " y".toList.head? ≠ some '\n' ∧
      (Language.python { indent := .str "\t" }).config.indent = .str "\t" ∧ branchInLoop.Whole ∧
      leadLines "\n#" (leadLines "\t" "\n\na\n") = leadLines "\n#\t" "\n\na\n" ∧
      (leadLines "\t")^[2] "\n\na\n" = "\t\t\n\n\t\ta\n" ∧
      leadLines "\t" ("x\n\n" ++ " y") = "\tx\n\n\t y" ∧
      branchInLoop.made (Language.python { indent := .str "\t" }) =
        .ok "while a:\n\tif b:\n\n\t# c\n\t\td\n\te\nf\n" := by
  have hlead : '\n' ∉ "\t".toList := by decide
  have hfront : "x\n\n".toList.getLast? = some '\n' := by decide
  have hbehind : " y".toList.head? ≠ some '\n' := by decide
  obtain ⟨-, -, htwice, happend, hmade⟩ := led_lines_compose "\n\na\n" "\t" "\n#"
  obtain ⟨honce, hcopies⟩ := htwice hlead
  refine ⟨hlead, hfront, by decide, hbehind, rfl, branchInLoop_whole, honce, ?_, ?_, ?_⟩
  · rw [hcopies 2]
    rfl
  · rw [happend _ _ hfront (by decide) hbehind]
    rfl
  · rw [hmade _ rfl hlead _ branchInLoop_whole]
    rfl

end BlockCode
