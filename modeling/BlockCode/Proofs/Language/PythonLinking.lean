-- Chains that may be linked. When a chain of statements is let follow the last block of the chain
-- that stands before it at the top, the program stays as it is, whatever disabled blocks and
-- comments the chains contain.
import BlockCode.Proofs.Generation.Linked
import BlockCode.Proofs.Language.PythonPasses
import BlockCode.Proofs.Language.PythonStatements

namespace BlockCode.Python

open BlockCode.Language
open BlockCode.Text (Ended)

variable {config : Config} {nested : Workspace → Action String} {b : Block} {inputs : Inputs}
  {text : String}

/-! ## Statements have ended -/

/-- What is given for statements has ended. -/
def EndedBody (r : Request) (text : String) : Prop := ∀ input, r = .statements input → Ended text

theorem BodySupplied.ended {input : String} (h : BodySupplied EndedBody input text) :
    Ended text ∧ text ≠ "" := by
  cases h with
  | given hgiven hne => exact ⟨hgiven _ rfl, hne⟩
  | passes _ => exact ⟨Or.inr ⟨"  pass", rfl⟩, by decide⟩

/-- The code of a rule for statements ends with a newline. -/
theorem Wrote.ended (h : Wrote EndedBody b inputs (.code text)) : Ended text := by
  cases h with
  | print _ _ => exact Ended.behind (Or.inr ⟨")", rfl⟩) (by decide) _
  | set _ _ _ => exact Ended.newline _
  | branch _ _ _ hbody => exact hbody.ended.1.behind hbody.ended.2 _
  | branches _ _ _ _ hother => exact hother.ended.1.behind hother.ended.2 _
  | loop _ _ hbody _ => exact hbody.ended.1.behind hbody.ended.2 _

/-- What comes of a chain has ended if it is statements. -/
def EndsWell (config : Config) (nested : Workspace → Action String) (c : Chain) : Prop :=
  ∀ alone, Yields (fun _ => True) (fun code => ∀ text, code = .statements text → Ended text)
    ((Language.python config).codeOf nested alone c)

theorem endsWell_nil : EndsWell config nested .nil := by
  refine fun alone => Yields.pure fun text htext => ?_
  cases htext
  exact Ended.empty

theorem endedBody_answer (hin : inputs.Every (EndsWell config nested)) (r : Request) :
    Yields (fun _ => True) (EndedBody r) (answers config nested b inputs r) := by
  intro s text s' _ hrun
  refine ⟨trivial, ?_⟩
  rintro input rfl
  obtain ⟨name, made, hname, hcode, htext⟩ := nestedStatements_iff.mp hrun
  obtain ⟨-, hended⟩ := hin.of_target endsWell_nil name false s _ s' trivial hcode
  unfold Language.nest at htext
  split at htext
  · cases htext
    exact Ended.empty
  · rename_i hne
    unfold Config.indented at htext
    rcases hindent : (Language.python config).config.indent.asText with fault | indent
    · rw [hindent] at htext
      cases htext
    · rw [hindent] at htext
      cases htext
      exact Text.ended_leadLines (hended made rfl) (by simpa using hne)

theorem wrote_ended {rule : Rule} (hin : inputs.Every (EndsWell config nested))
    (hrule : (Language.python config).ruleFor b.type = .ok (some rule)) :
    Yields (fun _ => True) (Wrote EndedBody b inputs)
      (perform (answers config nested b inputs) (rule b inputs)) :=
  (wrote_rule hrule).perform (fun r _ => endedBody_answer hin r) (asks_of_ruleFor b hrule inputs)

/-- Statements have ended: by induction on the chain, with what is plugged into its blocks. -/
theorem endsWell (c : Chain) : EndsWell config nested c := by
  induction c using Chain.inductionOn with
  | nil => exact endsWell_nil
  | cons b inputs next hin hnext =>
    intro alone
    rcases hb : b.isDisabled with _ | _
    · refine codeOf_yields hb (fun _ => id) (fun rule => wrote_ended hin) (hnext false)
        fun result before behind code after s' hwrote hbefore hbehind hchain hcode => ?_
      rintro text rfl
      cases result with
      | code made =>
        cases hcode
        exact ((ended_remarks hbefore).append hwrote.ended).append (hbehind behind rfl)
      | expression made order => cases hcode
      | other v => cases hcode
    · rw [codeOf_disabled hb]
      exact hnext false

/-! ## Chains of statements -/

/-- No block that gives a value follows the block, and an enabled block gives what its type
gives. -/
structure Sequenced (b : Block) (_ : Inputs) (next : Chain) : Prop where
  behind : next.GivesNone
  flagged : b.isDisabled = false → Flagged b

instance decidableSequenced (b : Block) (inputs : Inputs) (next : Chain) :
    Decidable (Sequenced b inputs next) :=
  decidable_of_iff (next.GivesNone ∧ (b.isDisabled = false → Flagged b))
    ⟨fun ⟨hbehind, hflagged⟩ => ⟨hbehind, hflagged⟩, fun h => ⟨h.behind, h.flagged⟩⟩

theorem concludes {c : Chain} (hall : c.All Sequenced) (hnone : c.GivesNone) (alone : Bool) :
    Yields (fun _ => True) Concludes ((Language.python config).codeOf nested alone c) := by
  induction c using Chain.inductionOn generalizing alone with
  | nil => exact Yields.pure ⟨"", rfl, Ended.empty⟩
  | cons b inputs next _ hnext =>
    obtain ⟨hb, -, hbehind⟩ := Chain.all_cons.mp hall
    intro s code s' _ hrun
    rcases hdisabled : b.isDisabled with _ | _
    · obtain ⟨-, hended⟩ := endsWell (.cons b inputs next) alone s code s' trivial hrun
      obtain ⟨rule, result, after, before, behind, hrule, hresult, -, -, hcode⟩ :=
        (codeOf_iff hdisabled).mp hrun
      obtain ⟨-, hwrote⟩ := wrote_ended (Inputs.every_of_forall endsWell inputs) hrule s.counted
        result after trivial hresult
      refine ⟨trivial, ?_⟩
      cases hwrote with
      | expression htype htypeof =>
        -- A type for values does not stand in a chain of statements.
        have hvalue := (hb.flagged hdisabled).values _ htype htypeof
        rw [Chain.givesNone_cons.mp hnone] at hvalue
        cases hvalue
      | _ =>
        cases hcode
        exact ⟨_, rfl, hended _ rfl⟩
    · rw [codeOf_disabled hdisabled] at hrun
      exact hnext hbehind hb.behind false s code s' trivial hrun

/-! ## Programs of chains that are linked -/

/-- A chain of statements that follows the last block of the one before it makes the same program
as when it stands alone, and the pass gathers the same names and helpers on its way. -/
theorem linked_chains_make_the_same_program {w : Workspace} {before after : List Nat}
    {first second last : Nat} (hac : w.Acyclic) (hs : w.Sound) (hw : w.All Sequenced)
    (hadj : w.Adjoining before first second after) (hends : w.EndsWith first last)
    (hheads : ∀ h ∈ [first, second], ∃ b, w.block? h = some b ∧ b.givesValue = false) {s : Session}
    (hidle : s.running = false) {program : String}
    (hmade : ((Language.python config).pass w s).1 = .ok program) :
    ((Language.python config).pass (w.follow last second) s).1 = .ok program ∧
      ((Language.python config).pass (w.follow last second) s).2.pass =
        ((Language.python config).pass w s).2.pass := by
  have hnone : ∀ h ∈ [first, second], (w.tree h).GivesNone := by
    intro h hh b hb
    obtain ⟨b', hb', hgives⟩ := hheads h hh
    have hhead : (w.tree h).head? = w.block? h := hac.head?_treeAt (some h)
    rw [hhead, hb'] at hb
    cases hb
    exact hgives
  have htrees : w.trees =
      before.map w.tree ++ w.tree first :: w.tree second :: after.map w.tree := by
    unfold Workspace.trees
    rw [hadj.tops, List.map_append, List.map_cons, List.map_cons]
  have hsecond : second < w.nodes.length := by
    obtain ⟨b, hb, -⟩ := hheads second (by simp)
    obtain ⟨n, hn, -⟩ := Option.map_eq_some_iff.mp hb
    exact Workspace.node?_lt hn
  refine (inward config).unreserving.same_program hidle (fun texts done hwritten => ?_) hmade
  rw [hadj.trees_link hac hs hends hsecond]
  rw [htrees] at hwritten
  refine written_link (hnone first (by simp)) (hnone second (by simp)) ?_ hwritten
  intro top htop
  obtain ⟨h, hh, rfl⟩ : ∃ h ∈ [first, second], w.tree h = top := by simpa [eq_comm] using htop
  have hmem : w.tree h ∈ w.trees := by
    rw [htrees]
    simp only [List.mem_cons, List.not_mem_nil, or_false] at hh
    rcases hh with rfl | rfl <;> simp
  exact concludes (hw _ hmem) (hnone h hh) true

/-- Two chains with a line before them and a line behind. The one ends with a disabled block, the
other begins with one, and there are comments on all of them. -/
def twoChains : List Edit :=
  [.newBlock { type := .str "text_print", id := .str "a" },
    .newBlock { type := .str "text_print", id := .str "b", comment := .str "one" },
    .newBlock { type := .str "unheard_of", id := .str "c", disabled := .bool true,
                comment := .str "gone" },
    .newBlock { type := .str "unheard_of", id := .str "d", disabled := .bool true,
                comment := .str "gone, too" },
    .newBlock { type := .str "controls_if", id := .str "e", comment := .str "two" },
    .newBlock { type := .str "text_print", id := .str "f" }, .follow 1 2, .follow 3 4]

theorem twoChains_treelike : Edit.Allowed Edit.Treelike twoChains := by decide

theorem twoChains_sequenced : (Edit.build twoChains).All Sequenced := by decide

/-- The two chains are linked, and the same program is made. -/
theorem twoChains_linked :
    (Edit.build twoChains).Acyclic ∧ (Edit.build twoChains).Sound ∧
      (Edit.build twoChains).All Sequenced ∧ (Edit.build twoChains).Adjoining [0] 1 3 [5] ∧
      (Edit.build twoChains).EndsWith 1 2 ∧
      (∀ h ∈ [1, 3], ∃ b, (Edit.build twoChains).block? h = some b ∧ b.givesValue = false) ∧
      (Session.new (Language.python {})).running = false ∧
      ((Language.python {}).pass (Edit.build twoChains) (Session.new (Language.python {}))).1 =
        .ok "print('')\n# one\nprint('')\n# two\nif False:\n  pass\nprint('')\n" ∧
      ((Language.python {}).pass ((Edit.build twoChains).follow 2 3)
        (Session.new (Language.python {}))).1 =
        .ok "print('')\n# one\nprint('')\n# two\nif False:\n  pass\nprint('')\n" := by
  have hac := Edit.acyclic_build twoChains_treelike
  have hs := Edit.sound_build twoChains_treelike
  have hadj : (Edit.build twoChains).Adjoining [0] 1 3 [5] := ⟨by decide, by decide, by decide⟩
  have hends : (Edit.build twoChains).EndsWith 1 2 :=
    ⟨Relation.ReflTransGen.single ⟨_, rfl, rfl⟩, ⟨_, rfl, rfl⟩⟩
  have hheads : ∀ h ∈ [1, 3],
      ∃ b, (Edit.build twoChains).block? h = some b ∧ b.givesValue = false := by
    simp only [List.forall_mem_cons, List.not_mem_nil, false_imp_iff, implies_true, and_true]
    exact ⟨⟨_, rfl, rfl⟩, ⟨_, rfl, rfl⟩⟩
  exact ⟨hac, hs, twoChains_sequenced, hadj, hends, hheads, rfl, rfl,
    (linked_chains_make_the_same_program hac hs twoChains_sequenced hadj hends hheads rfl rfl).1⟩

/-- Two blocks, of which the first is added to its workspace again. -/
def addedTwice : List Edit :=
  [.newBlock { type := .str "text_print", id := .str "a" },
    .newBlock { type := .str "text_print", id := .str "b", comment := .str "b" }, .add 0]

theorem addedTwice_clear : Edit.Allowed Edit.Clear addedTwice := by decide

/-- The first chain is listed on both sides of the second. When they are linked, the second is
written behind the first each time. -/
theorem addedTwice_repeats :
    (Edit.build addedTwice).Acyclic ∧ (Edit.build addedTwice).Sound ∧
      (Edit.build addedTwice).All Sequenced ∧ (Edit.build addedTwice).topBlocks = [0, 1, 0] ∧
      (Edit.build addedTwice).EndsWith 0 0 ∧
      (∀ h ∈ [0, 1], ∃ b, (Edit.build addedTwice).block? h = some b ∧ b.givesValue = false) ∧
      ((Language.python {}).pass (Edit.build addedTwice) (Session.new (Language.python {}))).1 =
        .ok "print('')\n# b\nprint('')\nprint('')\n" ∧
      ((Language.python {}).pass ((Edit.build addedTwice).follow 0 1)
        (Session.new (Language.python {}))).1 =
        .ok "print('')\n# b\nprint('')\nprint('')\n# b\nprint('')\n" := by
  have hends : (Edit.build addedTwice).EndsWith 0 0 :=
    ⟨Relation.ReflTransGen.refl, ⟨_, rfl, rfl⟩⟩
  have hheads : ∀ h ∈ [0, 1],
      ∃ b, (Edit.build addedTwice).block? h = some b ∧ b.givesValue = false := by
    simp only [List.forall_mem_cons, List.not_mem_nil, false_imp_iff, implies_true, and_true]
    exact ⟨⟨_, rfl, rfl⟩, ⟨_, rfl, rfl⟩⟩
  exact ⟨Edit.upright_acyclic (Edit.upright_of_clear (fun _ _ => id) addedTwice_clear),
    Edit.sound_build addedTwice_clear, by decide, by decide, hends, hheads, rfl, rfl⟩

end BlockCode.Python
