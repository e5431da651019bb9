-- What each rule does in a run: what it asks for by itself, and what it comes to. The
-- translations are read off the run like the blocks that are handed to rules, one for each
-- of these, and all that they ask for is the trail of the run.
import BlockCode.Proofs.Generation.Visits

namespace BlockCode

open BlockCode.Language

/-- A rule at work on its block. -/
structure Translation where
  block : Block
  inputs : Inputs
  /-- What the rule asked for by itself, and what came of it. -/
  asked : List Served
  result : Except Fault RuleResult

/-- The work of a rule that begins in this session. -/
def Rule.translate (rule : Rule) (answer : Request → Action String) (b : Block) (inputs : Inputs)
    (s : Session) : Translation where
  block := b
  inputs
  asked := (rule b inputs).served answer (fun _ _ => []) b inputs s
  result := (perform answer (rule b inputs) s).1

/-- The rule asked for an identifier and was given this one. -/
def Translation.Gets (t : Translation) (identifier : String) : Prop :=
  ∃ e ∈ t.asked, e.Gets identifier

theorem Script.block_of_served {α : Type} {answer : Request → Action String} {b : Block}
    {inputs : Inputs} {x : Script α} {s : Session} {e : Served}
    (he : e ∈ x.served answer (fun _ _ => []) b inputs s) : e.block = b := by
  induction x generalizing s with
  | done result => cases he
  | ask r next ih =>
    rcases List.mem_cons.mp he with rfl | hrest
    · rfl
    · exact ih _ hrest

namespace Language

mutual
/-- The translations in a run of the code of a chain. -/
def translations (L : Language) (nested : Workspace → Action String) (alone : Bool) :
    Chain → Session → List Translation
  | .nil, _ => []
  | .cons b inputs next, s =>
    if b.isDisabled then L.translations nested false next s
    else match L.ruleOf b s with
    | (.error _, _) => []
    | (.ok rule, s) =>
      let plugs := L.plugs nested inputs
      let answer := L.answer nested b plugs
      rule.translate answer b inputs s.counted ::
        (rule b inputs).gathered answer (L.translationsIn nested inputs).within s.counted ++
        match perform answer (rule b inputs) s.counted with
        | (.error _, _) => []
        | (.ok result, s) =>
          if L.goesOn alone b plugs result then L.translations nested false next s else []

/-- The translations of what is plugged into the inputs. -/
def translationsIn (L : Language) (nested : Workspace → Action String) :
    Inputs → Gathered Translation
  | .nil => []
  | .cons name _ target rest =>
    (name, L.translations nested false target) :: L.translationsIn nested rest
end

/-- The translations of top blocks, one after the other. -/
def translationsOfTops (L : Language) (nested : Workspace → Action String) :
    List Chain → Session → List Translation
  | [], _ => []
  | top :: rest, s => L.translations nested true top s ++
    match L.section? nested top s with
    | (.error _, _) => []
    | (.ok _, s) => L.translationsOfTops nested rest s

/-- The translations in a pass over a workspace. -/
def passTranslations (L : Language) (w : Workspace) (s : Session) : List Translation :=
  if s.running then [] else L.translationsOfTops (fun _ => L.refuse) w.trees (L.opened w s)

/-- The translation is the work of the rule for its block. -/
def Translates (L : Language) (nested : Workspace → Action String) (t : Translation) : Prop :=
  ∃ b inputs rule s, L.ruleFor b.type = .ok (some rule) ∧
    t = rule.translate (L.answer nested b (L.plugs nested inputs)) b inputs s

/-- There is one translation for each of the blocks, the work of its rule, and what they ask
for is what was served. -/
structure Tallies (L : Language) (nested : Workspace → Action String) (T : List Translation)
    (blocks : List Block) (E : List Served) : Prop where
  blocks : T.map (·.block) = blocks
  asked : (T.flatMap (·.asked)).Perm E
  made : ∀ t ∈ T, L.Translates nested t

namespace Tallies

variable {L : Language} {nested : Workspace → Action String} {T T' : List Translation}
  {B B' : List Block} {E E' : List Served}

theorem nil : L.Tallies nested [] [] [] where
  blocks := rfl
  asked := List.Perm.refl _
  made := nofun

theorem append (h : L.Tallies nested T B E) (h' : L.Tallies nested T' B' E') :
    L.Tallies nested (T ++ T') (B ++ B') (E ++ E') where
  blocks := by rw [List.map_append, h.blocks, h'.blocks]
  asked := by
    rw [List.flatMap_append]
    exact h.asked.append h'.asked
  made := List.forall_mem_append.mpr ⟨h.made, h'.made⟩

/-- A rule asks for something by itself between what is asked for in its inputs. -/
theorem cons {t : Translation} (ht : L.Translates nested t) (h : L.Tallies nested T B E)
    (hasked : (t.asked ++ E).Perm E') : L.Tallies nested (t :: T) (t.block :: B) E' where
  blocks := by rw [List.map_cons, h.blocks]
  asked := by
    rw [List.flatMap_cons]
    exact (h.asked.append_left t.asked).trans hasked
  made := List.forall_mem_cons.mpr ⟨ht, h.made⟩

theorem mem_asked {t : Translation} (h : L.Tallies nested T B E) (ht : t ∈ T) {e : Served}
    (he : e ∈ t.asked) : e ∈ E :=
  h.asked.subset (List.mem_flatMap_of_mem ht he)

end Tallies

variable {L : Language} {nested : Workspace → Action String}

/-- The runs of a chain tally. -/
def TalliesAlong (L : Language) (nested : Workspace → Action String) (c : Chain) : Prop :=
  ∀ alone s, L.Tallies nested (L.translations nested alone c s) (L.visits nested alone c s)
    (L.trail nested alone c s)

theorem tallies_inside {inputs : Inputs} (hin : inputs.Every (L.TalliesAlong nested))
    (input : Value) (s : Session) : L.Tallies nested ((L.translationsIn nested inputs).inside input s)
      ((L.visitsIn nested inputs).inside input s) ((L.trails nested inputs).inside input s) := by
  unfold Gathered.inside
  rcases input.asKey with fault | name
  · exact .nil
  · have htranslations : (L.translationsIn nested inputs).find? (·.1.same name) =
        (inputs.at? name).map fun found => (found.1, L.translations nested false found.2.2) :=
      inputs.find_listed rfl (fun _ _ _ _ => rfl) name
    have hvisits : (L.visitsIn nested inputs).find? (·.1.same name) =
        (inputs.at? name).map fun found => (found.1, L.visits nested false found.2.2) :=
      inputs.find_listed rfl (fun _ _ _ _ => rfl) name
    simp only [htranslations, hvisits, find_trails]
    rcases hat : inputs.at? name with _ | ⟨n, kind, target⟩
    · exact .nil
    · exact hin.of_at? hat false s

theorem tallies_within {inputs : Inputs} (hin : inputs.Every (L.TalliesAlong nested))
    (r : Request) (s : Session) : L.Tallies nested ((L.translationsIn nested inputs).within r s)
      ((L.visitsIn nested inputs).within r s) ((L.trails nested inputs).within r s) := by
  cases r with
  | value input outer =>
    simp only [Gathered.within]
    rcases isOrder outer with fault | _ | _
    · exact .nil
    · exact .nil
    · exact tallies_inside hin input s
  | statements input => exact tallies_inside hin input s
  | _ => exact .nil

theorem tallies_script {inputs : Inputs} (hin : inputs.Every (L.TalliesAlong nested))
    (answer : Request → Action String) (b : Block) (x : Script RuleResult) (s : Session) :
    ∃ E, L.Tallies nested (x.gathered answer (L.translationsIn nested inputs).within s)
        (x.gathered answer (L.visitsIn nested inputs).within s) E ∧
      (x.served answer (fun _ _ => []) b inputs s ++ E).Perm
        (x.served answer (L.trails nested inputs).within b inputs s) := by
  induction x generalizing s with
  | done result => exact ⟨[], .nil, List.Perm.refl _⟩
  | ask r next ih =>
    unfold Script.gathered Script.served
    rcases answer r s with ⟨outcome, after⟩
    obtain ⟨E, hrest, hperm⟩ := ih outcome after
    refine ⟨_, (tallies_within hin r s).append hrest, ?_⟩
    -- The request comes behind what was asked for on the way to its answer.
    simp only [List.nil_append, List.cons_append]
    refine (List.Perm.cons _ ?_).trans List.perm_middle.symm
    refine (List.perm_append_comm_assoc _ _ _).trans ?_
    exact hperm.append_left _

theorem talliesAlong (c : Chain) : L.TalliesAlong nested c := by
  induction c using Chain.inductionOn with
  | nil => exact fun _ _ => .nil
  | cons b inputs next hin hnext =>
    intro alone s
    rcases hb : b.isDisabled with _ | _
    · rw [translations, visits, trail]
      simp only [hb, Bool.false_eq_true, if_false]
      rcases hr : L.ruleOf b s with ⟨_ | rule, s₁⟩
      · exact .nil
      · have hs := ruleOf_after (L := L) b s
        rw [hr] at hs
        simp only at hs ⊢
        subst hs
        obtain ⟨E, hown, hperm⟩ := tallies_script hin (L.answer nested b (L.plugs nested inputs)) b
          (rule b inputs) s₁.counted
        have ht : L.Translates nested
            (rule.translate (L.answer nested b (L.plugs nested inputs)) b inputs s₁.counted) :=
          ⟨b, inputs, rule, s₁.counted, ruleFor_of_ruleOf hr, rfl⟩
        have hfirst : L.Tallies nested _ (b :: _) _ := hown.cons ht hperm
        rcases perform (L.answer nested b (L.plugs nested inputs)) (rule b inputs) s₁.counted
          with ⟨_ | result, s₂⟩
        · simpa only [List.append_nil] using hfirst
        · simp only
          split
          · exact hfirst.append (hnext false s₂)
          · exact hfirst.append .nil
    · rw [translations, visits, trail, if_pos hb, if_pos hb, if_pos hb]
      exact hnext false s

theorem tallies_tops (tops : List Chain) (s : Session) :
    L.Tallies nested (L.translationsOfTops nested tops s) (L.visitsOfTops nested tops s)
      (L.trailOfTops nested tops s) := by
  induction tops generalizing s with
  | nil => exact .nil
  | cons top rest ih =>
    unfold translationsOfTops visitsOfTops trailOfTops
    refine (talliesAlong top true s).append ?_
    rcases L.section? nested top s with ⟨_ | made, s₁⟩
    · exact .nil
    · exact ih s₁

theorem Translates.block_of_asked {t : Translation} (ht : L.Translates nested t) :
    ∀ e ∈ t.asked, e.block = t.block := by
  obtain ⟨b, inputs, rule, s, -, rfl⟩ := ht
  exact fun e he => Script.block_of_served he

/-- A pass translates each block that it hands to a rule, and its rules ask for its trail. -/
theorem tallies_pass (w : Workspace) (s : Session) :
    L.Tallies (fun _ => L.refuse) (L.passTranslations w s) (L.passVisits w s) (L.passTrail w s) := by
  unfold passTranslations passVisits passTrail
  split
  · exact .nil
  · exact tallies_tops w.trees (L.opened w s)

/-! ## When a run comes to a result, each of its rules did -/

/-- Whenever the code of the chain comes to a result, every translation on the way did. -/
def Finishes (L : Language) (nested : Workspace → Action String) (c : Chain) : Prop :=
  ∀ alone s code s', L.codeOf nested alone c s = (.ok code, s') →
    ∀ t ∈ L.translations nested alone c s, t.result.isOk = true

theorem finishes_nil : L.Finishes nested .nil := fun _ _ _ _ _ => List.forall_mem_nil _

theorem finished_inside {inputs : Inputs} (hin : inputs.Every (L.Finishes nested))
    {input name : Value} (hname : input.asKey = .ok name) {s s' : Session} {code : Code}
    (h : L.codeOf nested false (inputs.target name) s = (.ok code, s')) :
    ∀ t ∈ (L.translationsIn nested inputs).inside input s, t.result.isOk = true := by
  rw [Gathered.inside_eq (inputs.find_listed rfl fun _ _ _ _ => rfl) (fun _ => rfl) hname s]
  exact hin.of_target finishes_nil name false s code s' h

theorem finished_within {inputs : Inputs} (hin : inputs.Every (L.Finishes nested)) {b : Block}
    {r : Request} {s s' : Session} {text : String}
    (h : L.answer nested b (L.plugs nested inputs) r s = (.ok text, s')) :
    ∀ t ∈ (L.translationsIn nested inputs).within r s, t.result.isOk = true := by
  cases r with
  | value input outer =>
    obtain ⟨houter, name, code, hname, hcode, -⟩ := plugged_iff.mp h
    simp only [Gathered.within, houter]
    exact finished_inside hin hname hcode
  | statements input =>
    obtain ⟨name, made, hname, hcode, -⟩ := nestedStatements_iff.mp h
    exact finished_inside hin hname hcode
  | _ => exact List.forall_mem_nil _

theorem finished_script {inputs : Inputs} (hin : inputs.Every (L.Finishes nested)) {b : Block}
    {x : Script RuleResult} (hx : x.Strict) {s s' : Session} {result : RuleResult}
    (h : perform (L.answer nested b (L.plugs nested inputs)) x s = (.ok result, s')) :
    ∀ t ∈ x.gathered (L.answer nested b (L.plugs nested inputs))
      (L.translationsIn nested inputs).within s, t.result.isOk = true := by
  induction x generalizing s with
  | done made => exact List.forall_mem_nil _
  | ask r next ih =>
    obtain ⟨text, after, ha, hrest⟩ := Script.answered_of_perform hx.1 h
    unfold Script.gathered
    simp only [ha]
    exact List.forall_mem_append.mpr ⟨finished_within hin ha, ih (.ok text) (hx.2 text) hrest⟩

theorem Strict.finishes (hL : L.Strict) (c : Chain) : L.Finishes nested c := by
  induction c using Chain.inductionOn with
  | nil => exact finishes_nil
  | cons b inputs next hin hnext =>
    intro alone s code s' h
    rcases hb : b.isDisabled with _ | _
    · obtain ⟨rule, result, after, before, behind, hrule, hrun, hremarks, hrest, hcode⟩ :=
        (codeOf_iff hb).mp h
      have hown := finished_script hin (hL b rule hrule inputs) hrun
      rw [translations, if_neg (by simp [hb]), ruleOf_iff.mpr ⟨hrule, rfl⟩]
      simp only [hrun, goesOn_of_remarks hremarks hcode, if_true]
      refine List.forall_mem_cons.mpr ⟨?_, ?_⟩
      · exact congrArg (·.1.isOk) hrun
      · exact List.forall_mem_append.mpr ⟨hown, hnext false after _ s' hrest⟩
    · rw [codeOf_disabled hb] at h
      rw [translations, if_pos hb]
      exact hnext false s code s' h

theorem Strict.finished_tops (hL : L.Strict) (tops : List Chain) {s s' : Session}
    {sections : List (Option String)} (h : tops.mapM (L.section? nested) s = (.ok sections, s')) :
    ∀ t ∈ L.translationsOfTops nested tops s, t.result.isOk = true := by
  induction tops generalizing s s' sections with
  | nil => exact List.forall_mem_nil _
  | cons top rest ih =>
    rw [List.mapM_cons] at h
    obtain ⟨made, between, hmade, hrest⟩ := Effect.bind_succeeds h
    obtain ⟨later, last, hlater, -⟩ := Effect.bind_succeeds hrest
    obtain ⟨code, hcode, -⟩ := section_iff.mp hmade
    rw [translationsOfTops, hmade]
    refine List.forall_mem_append.mpr ⟨hL.finishes top true s code between hcode, ?_⟩
    exact ih hlater

/-- In a pass that succeeds every translation comes to a result. -/
theorem Strict.finished_pass (hL : L.Strict) {w : Workspace} {s : Session} {program : String}
    (h : (L.pass w s).1 = .ok program) :
    ∀ t ∈ L.passTranslations w s, t.result.isOk = true := by
  have hs := idle_of_pass_ok h
  rw [pass_result w s hs] at h
  rw [passTranslations, if_neg (by simp [hs])]
  rcases hsections : L.sections w s with ⟨fault | sections, last⟩
  · rw [hsections] at h
    cases h
  · exact hL.finished_tops w.trees hsections

end Language
end BlockCode
