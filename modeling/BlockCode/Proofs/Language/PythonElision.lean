-- Blocks that are disabled and what they leave in a program. One that gives no value leaves no
-- trace: it may be taken out with all that is plugged into it. One that gives a value leaves
-- its comment, and the comments of all that hangs on it, but nothing else.
import BlockCode.Proofs.Generation.Unplugged
import BlockCode.Proofs.Language.PythonPasses
import BlockCode.Proofs.Language.PythonPrecedence
import BlockCode.Proofs.Workspace.Bypass
import BlockCode.Proofs.Workspace.Lost

namespace BlockCode

open BlockCode.Language

/-! ## Wired trees without the blocks that are skipped -/

/-- What stands at the head of a chain in which no block gives a value gives none. -/
theorem Chain.GivesNone.cleared {c : Chain} (h : c.GivesNone) (hall : c.All Wired) :
    c.cleared.GivesNone := by
  induction c using Chain.inductionOn with
  | nil => exact Chain.givesNone_nil
  | cons b inputs next _ hnext =>
    obtain ⟨hb, -, hbehind⟩ := Chain.all_cons.mp hall
    rw [Chain.cleared]
    split
    · exact hnext hb.behind hbehind
    · exact Chain.givesNone_cons.mpr (Chain.givesNone_cons.mp h)

theorem Chain.head?_cleared {c : Chain} (hall : c.All Wired) :
    c.cleared.head?.any (·.givesValue) = c.head?.any (·.givesValue) := by
  cases c with
  | nil => rfl
  | cons b inputs next =>
    obtain ⟨hb, -, hbehind⟩ := Chain.all_cons.mp hall
    rw [Chain.cleared]
    split
    · rename_i hskips
      simp only [Block.isSkipped, Bool.and_eq_true, Bool.not_eq_true'] at hskips
      rw [(hb.behind.cleared hbehind).any]
      exact hskips.2.symm
    · rfl

/-- In what is plugged into inputs for values nothing is skipped. -/
theorem Chain.GivesValue.cleared {c : Chain} (h : c.GivesValue) (hall : c.All Wired) :
    c.cleared = c := by
  induction c using Chain.inductionOn with
  | nil => rfl
  | cons b inputs next hin _ =>
    obtain ⟨hb, hinputs, -⟩ := Chain.all_cons.mp hall
    have hgives := Chain.givesValue_cons.mp h
    have hslots : inputs.cleared = inputs := by
      rw [Inputs.cleared_eq]
      refine Inputs.map_same fun kind c hc => ?_
      cases kind with
      | value => exact hin.of_targets c hc (hb.values c hc) (hinputs.of_targets c hc)
      | statement =>
        rw [hb.holds hgives c hc]
        rfl
    have hskips : b.isSkipped = false := by simp [Block.isSkipped, hgives]
    rw [Chain.cleared, if_neg (by simp [hskips]), hb.ends hgives, hslots]
    rfl

theorem Inputs.target_cleared (inputs : Inputs) (name : Value) :
    inputs.cleared.target name = (inputs.target name).cleared := by
  rw [Inputs.cleared_eq, Inputs.target_map rfl]

theorem Inputs.targets_cleared {inputs : Inputs} (hall : inputs.All Wired)
    (hvalues : ∀ c ∈ inputs.targets .value, c.GivesValue) :
    inputs.cleared.targets .value = inputs.targets .value := by
  rw [Inputs.cleared_eq, Inputs.targets_map]
  refine (List.map_congr_left fun c hc => ?_).trans (List.map_id _)
  exact (hvalues c hc).cleared (hall.of_targets c hc)

namespace Python

variable {config : Config} {nested : Workspace → Action String} {b : Block} {inputs : Inputs}

/-! ## What rules look at -/

theorem looksAtNames (config : Config) : (Language.python config).LooksAtNames := by
  intro b rule hrule inputs inputs' hnames
  obtain ⟨name, -, hof⟩ := ruleOf_of_ruleFor hrule
  cases hof with
  | branch =>
    unfold ifRule
    rw [hnames]
  | _ => rfl

/-! ## Runs without the blocks that are skipped -/

/-- Code that is made is made again when nothing is skipped any more. -/
def Transparent (config : Config) (nested : Workspace → Action String) (c : Chain) : Prop :=
  c.All Wired → ∀ alone, LeadsTo (fun _ => True) Eq ((Language.python config).codeOf nested alone c)
    ((Language.python config).codeOf nested alone c.cleared)

theorem answer_cleared (hin : inputs.Every (Transparent config nested)) (hall : inputs.All Wired)
    (b : Block) {r : Request} (hr : Asked b r) :
    LeadsTo (fun _ => True) Eq (answers config nested b inputs r)
      (answers config nested b inputs.cleared r) := by
  have htarget : ∀ name, LeadsTo (fun _ => True) Eq
      ((Language.python config).codeOf nested false (inputs.target name))
      ((Language.python config).codeOf nested false (inputs.cleared.target name)) := by
    intro name
    rw [inputs.target_cleared]
    have hnil : Transparent config nested .nil := fun _ _ => LeadsTo.pure rfl
    exact hin.of_target hnil name (hall.of_target name) false
  have hsame : ∀ x : Action String, LeadsTo (fun _ => True) Eq x x :=
    fun x s a s' hgood hrun => ⟨hgood, a, hrun, rfl⟩
  cases hr with
  | value input order =>
    intro s text s' _ hrun
    obtain ⟨horder, name, code, hname, hcode, hgives⟩ := plugged_iff.mp hrun
    obtain ⟨-, _, hcode, rfl⟩ := htarget name s code s' trivial hcode
    exact ⟨trivial, text, plugged_iff.mpr ⟨horder, name, code, hname, hcode, hgives⟩, rfl⟩
  | statements input =>
    intro s text s' _ hrun
    obtain ⟨name, made, hname, hcode, htext⟩ := nestedStatements_iff.mp hrun
    obtain ⟨-, _, hcode, rfl⟩ := htarget name s _ s' trivial hcode
    exact ⟨trivial, text, nestedStatements_iff.mpr ⟨name, made, hname, hcode, htext⟩, rfl⟩
  | identifier hb hname => exact hsame _
  | prime hb => exact hsame _
  | counter hb => exact hsame _

theorem transparent (c : Chain) : Transparent config nested c := by
  induction c using Chain.inductionOn with
  | nil => exact fun _ _ => LeadsTo.pure rfl
  | cons b inputs next hin hnext =>
    intro hall alone
    obtain ⟨hb, hinputs, hbehind⟩ := Chain.all_cons.mp hall
    rw [Chain.cleared]
    rcases hdisabled : b.isDisabled with _ | _
    · have hskips : b.isSkipped = false := by simp [Block.isSkipped, hdisabled]
      rw [if_neg (by simp [hskips])]
      intro s code s' _ hrun
      obtain ⟨rule, result, after, before, behind, hrule, hresult, hbefore, hchain, hcode⟩ :=
        (codeOf_iff hdisabled).mp hrun
      obtain ⟨-, _, hresult, rfl⟩ := ((plain config).strict b rule hrule inputs).leads
        (fun r => answer_cleared hin hinputs b) (asks_of_ruleFor b hrule inputs) _ _ _ trivial hresult
      obtain ⟨-, _, hchain, rfl⟩ := hnext hbehind false after _ s' trivial hchain
      refine ⟨trivial, code, (codeOf_iff hdisabled).mpr ⟨rule, result, after, before, behind, hrule,
        ?_, ?_, hchain, hcode⟩, rfl⟩
      · rw [looksAtNames config b rule hrule inputs _ fun name => by
          rw [Inputs.cleared_eq, Inputs.has_map]]
        exact hresult
      · rw [← hbefore]
        unfold remarks
        rw [commentsBefore_eq, commentsBefore_eq, Inputs.targets_cleared hinputs hb.values]
    · rw [codeOf_disabled hdisabled]
      split
      · rw [codeOf_alone (hb.behind.cleared hbehind)]
        exact hnext hbehind false
      · rw [codeOf_disabled hdisabled]
        exact hnext hbehind false

theorem section_cleared {top : Chain} (hall : top.All Wired) :
    LeadsTo (fun _ => True) Eq ((Language.python config).section? nested top)
      ((Language.python config).section? nested top.cleared) := by
  rw [section_eq, section_eq]
  refine (transparent top hall true).bind ?_
  rintro code _ rfl
  unfold sectionOf
  rw [Chain.head?_cleared hall]
  exact LeadsTo.lift fun made hmade => ⟨made, hmade, rfl⟩

/-! ## Programs without the blocks that are skipped -/

/-- When a program is made, the same program is made without the blocks that are skipped. The
pass gathers the same names and helpers on its way. -/
theorem skipped_blocks_leave_no_trace {w : Workspace} (hac : w.Acyclic) (hs : w.Rooted)
    (hw : w.All Wired) {s : Session} (hidle : s.running = false) {program : String}
    (h : ((Language.python config).pass w s).1 = .ok program) :
    ((Language.python config).pass w.withoutSkipped s).1 = .ok program ∧
      ((Language.python config).pass w.withoutSkipped s).2.pass =
        ((Language.python config).pass w s).2.pass := by
  refine (inward config).unreserving.same_program hidle (fun texts after hwritten => ?_) h
  refine ⟨texts, ?_, rfl⟩
  rw [← written_filter, hac.trees_withoutSkipped hs, written_filter]
  unfold written at hwritten ⊢
  obtain ⟨made, between, hmade, hdone⟩ := Effect.bind_ok_iff.mp hwritten
  have hsections : LeadsTo (fun _ => True) Eq
      (w.trees.mapM ((Language.python config).section? fun _ => (Language.python config).refuse))
      ((w.trees.map Chain.cleared).mapM
        ((Language.python config).section? fun _ => (Language.python config).refuse)) :=
    LeadsTo.mapM fun top htop => section_cleared (hw top htop)
  obtain ⟨-, _, hmade, rfl⟩ := hsections _ _ _ trivial hmade
  exact Effect.bind_ok_iff.mpr ⟨made, between, hmade, hdone⟩

/-- A block that is skipped heads the top chain, with a test for primes plugged into it. Behind
it stands a loop with nothing but a block that is skipped in it, and behind the last line
stands another. -/
def skippedAbout : List Edit :=
  [.newBlock { type := .str "text_print", id := .str "a", disabled := .bool true,
               comment := .str "gone" },
    .newBlock { type := .str "math_is_prime", id := .str "b", output := .bool true },
    .newBlock { type := .str "controls_repeat_ext", id := .str "c", comment := .str "kept" },
    .newBlock { type := .str "unheard_of", id := .str "d", disabled := .bool true },
    .newBlock { type := .str "text_print", id := .str "e" },
    .newBlock { type := .str "unheard_of", id := .str "f", disabled := .bool true },
    .connect 0 (.str "TEXT") .value 1, .follow 0 2, .connect 2 (.str "DO") .statement 3,
    .follow 2 4, .follow 4 5]

theorem skippedAbout_treelike : Edit.Allowed Edit.Treelike skippedAbout := by decide

theorem skippedAbout_wired : (Edit.build skippedAbout).All Wired := by decide

/-- Only the loop and the last line stand in the program, and no helper is defined. -/
theorem skippedAbout_without_trace :
    (Edit.build skippedAbout).Acyclic ∧ (Edit.build skippedAbout).Rooted ∧
      (Edit.build skippedAbout).All Wired ∧
      (Edit.build skippedAbout).withoutSkipped.members = [2, 4] ∧
      (Session.new (Language.python {})).running = false ∧
      ∃ program, ((Language.python {}).pass (Edit.build skippedAbout)
          (Session.new (Language.python {}))).1 = .ok program ∧
        ((Language.python {}).pass (Edit.build skippedAbout).withoutSkipped
          (Session.new (Language.python {}))).1 = .ok program := by
  have hac := Edit.acyclic_build skippedAbout_treelike
  have hs := (Edit.sound_build skippedAbout_treelike).rooted
  refine ⟨hac, hs, skippedAbout_wired, by decide, rfl, _, rfl, ?_⟩
  exact (skipped_blocks_leave_no_trace hac hs skippedAbout_wired rfl rfl).1

/-! ## Programs without disabled blocks for values -/

/-- To empty every input for a value that holds a disabled block does to a pass what it does to
take away the comments of these blocks and of all that hangs on them. Where there are no such
comments it does nothing. -/
theorem only_comments_of_disabled_values {w : Workspace} (hac : w.Acyclic) (hs : w.Sound)
    (hw : w.All ValuesEnd) (s : Session) :
    (Language.python config).pass w.unplugged s = (Language.python config).pass w.silenced s ∧
      ((∀ h ∈ w.dropped, ∀ b, w.block? h = some b → b.comment = .null) →
        (Language.python config).pass w.unplugged s = (Language.python config).pass w s) := by
  have hsame := congrFun (pass_unplugged (looksAtNames config) hac hs hw) s
  refine ⟨hsame, fun hquiet => ?_⟩
  rw [hsame, Workspace.silenced_of_quiet hquiet]

/-- A line is printed. What was to be printed is disabled, and there is a note on it. -/
def notedText : List Edit :=
  [.newBlock { type := .str "text_print", id := .str "a" },
    .newBlock { type := .str "text", id := .str "b", disabled := .bool true, comment := .str "note",
                output := .bool true },
    .connect 0 (.str "TEXT") .value 1]

/-- A variable is set to the outcome of a test that is disabled, with a number in it. -/
def disabledTest : List Edit :=
  [.newBlock { type := .str "variables_set", id := .str "a",
               fields := .table [(.str "VAR", .str "x")] },
    .newBlock { type := .str "math_is_prime", id := .str "b", disabled := .bool true,
                output := .bool true },
    .newBlock { type := .str "math_number", id := .str "c", output := .bool true },
    .connect 0 (.str "VALUE") .value 1, .connect 1 (.str "NUMBER_TO_CHECK") .value 2]

theorem notedText_treelike : Edit.Allowed Edit.Treelike notedText := by decide

theorem disabledTest_treelike : Edit.Allowed Edit.Treelike disabledTest := by decide

theorem notedText_ends : (Edit.build notedText).All ValuesEnd := by decide

theorem disabledTest_ends : (Edit.build disabledTest).All ValuesEnd := by decide

/-- Neither the test nor the number leaves anything, not even the helper for the test. -/
theorem disabledTest_unplugged :
    (Edit.build disabledTest).Acyclic ∧ (Edit.build disabledTest).Sound ∧
      (Edit.build disabledTest).All ValuesEnd ∧ (Edit.build disabledTest).dropped = [1, 2] ∧
      (∀ h ∈ (Edit.build disabledTest).dropped, ∀ b, (Edit.build disabledTest).block? h = some b →
        b.comment = .null) ∧
      (Language.python {}).pass (Edit.build disabledTest).unplugged
          (Session.new (Language.python {})) =
        (Language.python {}).pass (Edit.build disabledTest) (Session.new (Language.python {})) := by
  have hac := Edit.acyclic_build disabledTest_treelike
  have hs := Edit.sound_build disabledTest_treelike
  have hdropped : (Edit.build disabledTest).dropped = [1, 2] := by decide
  have hquiet : ∀ h ∈ (Edit.build disabledTest).dropped, ∀ b,
      (Edit.build disabledTest).block? h = some b → b.comment = .null := by
    rw [hdropped]
    intro h hh b hb
    simp only [List.mem_cons, List.not_mem_nil, or_false] at hh
    rcases hh with rfl | rfl <;> cases hb <;> rfl
  exact ⟨hac, hs, disabledTest_ends, hdropped, hquiet,
    (only_comments_of_disabled_values hac hs disabledTest_ends _).2 hquiet⟩

/-- The note is written before the line, though the text is not in it. Without the text there
is no note. -/
theorem note_of_disabled_text :
    (Edit.build notedText).Acyclic ∧ (Edit.build notedText).Sound ∧
      (Edit.build notedText).All ValuesEnd ∧
      ((Language.python {}).pass (Edit.build notedText) (Session.new (Language.python {}))).1 =
        .ok "# note\nprint('')\n" ∧
      ((Language.python {}).pass (Edit.build notedText).unplugged
        (Session.new (Language.python {}))).1 = .ok "print('')\n" := by
  refine ⟨Edit.acyclic_build notedText_treelike, Edit.sound_build notedText_treelike, notedText_ends,
    ?_, ?_⟩
  · rfl
  · rfl

end Python
end BlockCode
