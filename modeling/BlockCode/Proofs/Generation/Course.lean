-- The course of a pass that succeeds. A rule is plain when it asks for the same whatever it
-- is told, and when everything that it is told stands in its code. What a pass of plain rules
-- asks for can be read off its workspace, and every identifier that it gives out stands in
-- its program.
import BlockCode.Proofs.Generation.Outcome
import BlockCode.Proofs.Text.Within

namespace BlockCode

open BlockCode.Language
open BlockCode.Text (Within Solid)

/-! ## Plain rules -/

namespace Script

variable {α β : Type}

/-- The requests of a script that is told nothing. -/
def course : Script α → List Request
  | done _ => []
  | ask r next => r :: (next (.ok "")).course

/-- The script asks for the same whatever it is told, a fault ends it, and its code holds
everything that it was told, `told` included. -/
def Plain (told : List String) : Script RuleResult → Prop
  | done (.ok result) => ∀ text ∈ told, Within text result.text
  | done (.error _) => True
  | ask _ next => (∀ fault, next (.error fault) = done (.error fault)) ∧
    ∀ text, (next (.ok text)).course = (next (.ok "")).course ∧ (next (.ok text)).Plain (text :: told)

theorem Plain.strict {told : List String} {x : Script RuleResult} (h : x.Plain told) :
    x.Strict := by
  induction x generalizing told with
  | done result => exact trivial
  | ask r next ih => exact ⟨h.1, fun text => ih _ (h.2 text).2⟩

end Script

/-! ## What is asked for in a workspace -/

/-- A request, and the block whose rule makes it. -/
abbrev Demand := Block × Request

def Served.demand (e : Served) : Demand := (e.block, e.request)

namespace Language

/-- The demands of what is in the input whose code is asked for. -/
def demandsFor (entries : List (Value × List Demand)) (r : Request) : List Demand :=
  match r.input? with
  | some name => ((entries.find? (·.1.same name)).map (·.2)).getD []
  | none => []

mutual
/-- What the rules ask for in a chain of blocks, when all is answered. -/
def demands (L : Language) : Chain → List Demand
  | .nil => []
  | .cons b inputs next =>
    if b.isDisabled then L.demands next
    else match L.ruleFor b.type with
    | .ok (some rule) =>
      (rule b inputs).course.flatMap (fun r => demandsFor (L.demandsIn inputs) r ++ [(b, r)]) ++
        L.demands next
    | _ => []

/-- What the rules ask for in the inputs. -/
def demandsIn (L : Language) : Inputs → List (Value × List Demand)
  | .nil => []
  | .cons name _ target rest => (name, L.demands target) :: L.demandsIn rest
end

theorem demandsFor_opened (L : Language) (inputs : Inputs) (r : Request) :
    demandsFor (L.demandsIn inputs) r = L.demands (inputs.opened r) := by
  unfold demandsFor Inputs.opened
  rcases r.input? with _ | name
  · rfl
  · simp only [Option.map_some, Option.getD_some]
    induction inputs using Inputs.inductionOn with
    | nil => rfl
    | cons n kind target rest ih =>
      unfold demandsIn Inputs.target
      rw [List.find?_cons]
      by_cases hsame : n.same name = true
      · simp [hsame]
      · simp [hsame, ih]

/-- The rules of the language are plain, and a line that stands alone keeps its words. -/
structure Plain (L : Language) : Prop where
  rules : ∀ b rule, L.ruleFor b.type = .ok (some rule) → ∀ inputs, (rule b inputs).Plain []
  standing : ∀ line text word, L.standing line = .ok text → Solid word → Within word line →
    Within word text

theorem Plain.strict {L : Language} (h : L.Plain) : L.Strict :=
  fun b rule hrule inputs => (h.rules b rule hrule inputs).strict

end Language

/-! ## What is told -/

/-- The requests are those that are demanded, and every identifier that was given stands in
the text. -/
structure Told (E : List Served) (demands : List Demand) (text : String) : Prop where
  demanded : E.map Served.demand = demands
  shown : ∀ e ∈ E, ∀ identifier, e.Gets identifier → Solid identifier → Within identifier text

namespace Told

variable {E F : List Served} {D D' : List Demand} {text whole : String}

theorem nil (text : String) : Told [] [] text where
  demanded := rfl
  shown := by
    intro e he
    cases he

theorem within (h : Told E D text)
    (hwords : ∀ word, Solid word → Within word text → Within word whole) : Told E D whole where
  demanded := h.demanded
  shown := fun e he identifier hgets hsolid =>
    hwords identifier hsolid (h.shown e he identifier hgets hsolid)

theorem append (h : Told E D whole) (h' : Told F D' whole) : Told (E ++ F) (D ++ D') whole where
  demanded := by rw [List.map_append, h.demanded, h'.demanded]
  shown := by
    intro e he
    rcases List.mem_append.mp he with he | he
    · exact h.shown e he
    · exact h'.shown e he

theorem one {e : Served} {answer : String} (hanswer : e.outcome = .ok answer)
    (hwithin : Within answer text) : Told [e] [e.demand] text where
  demanded := rfl
  shown := by
    intro d hd identifier hgets _
    rw [List.mem_singleton.mp hd] at hgets
    have hok := hgets.outcome
    rw [hanswer] at hok
    cases hok
    exact hwithin

end Told

theorem Inputs.Every.opened {P : Chain → Prop} {inputs : Inputs} (h : inputs.Every P)
    (hnil : P .nil) (r : Request) : P (inputs.opened r) := by
  unfold Inputs.opened
  rcases r.input? with _ | name
  · exact hnil
  · show P (inputs.target name)
    rw [Inputs.target_eq_at?]
    rcases hat : inputs.at? name with _ | ⟨n, kind, target⟩
    · exact hnil
    · exact h.of_at? hat

namespace Language

variable {L : Language} {nested : Workspace → Action String}

theorem Gives.within {outer : Value} {code : Code} {text : String} (h : L.Gives outer code text) :
    Within code.text text := by
  cases h with
  | nothing => exact Within.refl ""
  | @expression made inner _ =>
    show Within made (L.bracketed made outer inner)
    unfold bracketed
    split
    · exact ((Within.refl made).behind "(").before ")"
    · exact Within.refl made

theorem within_nest {made text word : String} (h : L.nest made = .ok text) (hword : Solid word)
    (hwithin : Within word made) : Within word text := by
  unfold nest at h
  split at h
  · rename_i hempty
    cases h
    rwa [beq_iff_eq.mp hempty] at hwithin
  · unfold Config.indented at h
    rcases hindent : L.config.indent.asText with fault | indent
    · rw [hindent] at h
      cases h
    · rw [hindent] at h
      cases h
      exact Text.within_leadLines hword hwithin indent

/-- A request that is answered with the code of an input comes to the run of that code, and the
answer keeps its words. -/
theorem answer_succeeds {b : Block} {inputs : Inputs} {r : Request} {s s' : Session} {text : String}
    (hr : r.opensInput = true)
    (h : L.answer nested b (L.plugs nested inputs) r s = (.ok text, s')) :
    ∃ code, L.codeOf nested false (inputs.opened r) s = (.ok code, s') ∧
      (L.trails nested inputs).within r s = L.trail nested false (inputs.opened r) s ∧
      ∀ word, Solid word → Within word code.text → Within word text := by
  cases r with
  | value input outer =>
    obtain ⟨houter, name, code, hname, hcode, hgives⟩ := plugged_iff.mp h
    have hopened : inputs.opened (.value input outer) = inputs.target name := by
      simp [Inputs.opened, Request.input?, hname, Except.toOption]
    rw [hopened]
    refine ⟨code, hcode, ?_, fun word _ hwithin => hwithin.trans hgives.within⟩
    unfold Gathered.within
    simp only [houter]
    exact inside_input hname s
  | statements input =>
    obtain ⟨name, made, hname, hcode, htext⟩ := nestedStatements_iff.mp h
    have hopened : inputs.opened (.statements input) = inputs.target name := by
      simp [Inputs.opened, Request.input?, hname, Except.toOption]
    rw [hopened]
    exact ⟨_, hcode, inside_input hname s, fun word hword hwithin => within_nest htext hword hwithin⟩
  | _ => cases hr

/-- Whenever the code of the chain comes to a result, all is told of its run. -/
def Tells (L : Language) (nested : Workspace → Action String) (c : Chain) : Prop :=
  ∀ alone s code s', L.codeOf nested alone c s = (.ok code, s') →
    Told (L.trail nested alone c s) (L.demands c) code.text

theorem tells_nil : L.Tells nested .nil := by
  intro alone s code s' h
  cases h
  exact Told.nil ""

theorem told_within {inputs : Inputs} (hin : inputs.Every (L.Tells nested)) (b : Block)
    {r : Request} {s s' : Session} {text : String}
    (h : L.answer nested b (L.plugs nested inputs) r s = (.ok text, s')) :
    Told ((L.trails nested inputs).within r s) (demandsFor (L.demandsIn inputs) r) text := by
  rw [demandsFor_opened]
  rcases hr : r.opensInput with _ | _
  · have hnone : (L.trails nested inputs).within r s = [] ∧ inputs.opened r = .nil := by
      cases r <;> first | exact ⟨rfl, rfl⟩ | cases hr
    rw [hnone.1, hnone.2]
    exact Told.nil text
  · obtain ⟨code, hcode, hwithin, hwords⟩ := answer_succeeds hr h
    rw [hwithin]
    exact (hin.opened tells_nil r false s code s' hcode).within hwords

/-- All is told of a script that comes to a result, and what was told before is kept. -/
theorem told_script {inputs : Inputs} (hin : inputs.Every (L.Tells nested)) (b : Block)
    (x : Script RuleResult) {told : List String} (hx : x.Plain told) {s s' : Session}
    {result : RuleResult}
    (h : perform (L.answer nested b (L.plugs nested inputs)) x s = (.ok result, s')) :
    Told (x.served (L.answer nested b (L.plugs nested inputs)) (L.trails nested inputs).within b
        inputs s)
      (x.course.flatMap fun r => demandsFor (L.demandsIn inputs) r ++ [(b, r)]) result.text ∧
      ∀ text ∈ told, Within text result.text := by
  induction x generalizing told s with
  | done made =>
    cases h
    exact ⟨Told.nil _, hx⟩
  | ask r next ih =>
    obtain ⟨hfault, hnext⟩ := hx
    obtain ⟨text, after, ha, hperform⟩ := Script.answered_of_perform hfault h
    obtain ⟨hrest, hkept⟩ := ih (.ok text) (hnext text).2 hperform
    have hanswer := hkept text List.mem_cons_self
    refine ⟨?_, fun other hother => hkept other (List.mem_cons_of_mem text hother)⟩
    have hbefore := (told_within hin b ha).within fun word _ hwithin => hwithin.trans hanswer
    have hown := Told.one (e := ⟨b, inputs, r, s, .ok text, after⟩) rfl hanswer
    unfold Script.served Script.course
    simp only [ha, List.flatMap_cons, ← (hnext text).1]
    have hall := (hbefore.append hown).append hrest
    rwa [List.append_assoc, List.singleton_append] at hall

/-- All is told of every run of plain rules that comes to a result. -/
theorem Plain.tells (hL : L.Plain) (c : Chain) : L.Tells nested c := by
  induction c using Chain.inductionOn with
  | nil => exact tells_nil
  | cons b inputs next hin hnext =>
    intro alone s code s' h
    rcases hb : b.isDisabled with _ | _
    · obtain ⟨rule, result, after, comments, behind, hrule, hrun, hcomments, hrest, hcode⟩ :=
        (codeOf_iff hb).mp h
      have hown := (told_script hin b (rule b inputs) (hL.rules b rule hrule inputs) hrun).1
      have hlater := hnext false after _ s' hrest
      rw [trail, if_neg (by simp [hb]), ruleOf_iff.mpr ⟨hrule, rfl⟩]
      simp only [hrun, goesOn_of_remarks hcomments hcode, if_true]
      rw [RuleResult.text_between hcode, demands, if_neg (by simp [hb]), hrule]
      refine Told.append ?_ ?_
      · exact hown.within fun word _ hwithin => (hwithin.behind comments).before behind
      · exact hlater.within fun word _ hwithin => hwithin.behind _
    · rw [codeOf_disabled hb] at h
      rw [trail, if_pos hb, demands, if_pos hb]
      exact hnext false s code s' h

/-! ## Sections and passes -/

theorem Plain.tells_section (hL : L.Plain) {top : Chain} {s s' : Session} {made : Option String}
    {whole : String} (h : L.section? nested top s = (.ok made, s'))
    (hwhole : ∀ text ∈ made, ∀ word, Solid word → Within word text → Within word whole) :
    Told (L.trail nested true top s) (L.demands top) whole := by
  obtain ⟨code, hcode, hmade⟩ := section_iff.mp h
  refine (hL.tells top true s code s' hcode).within fun word hword hwithin => ?_
  rcases sectionOf_cases hmade with ⟨-, hempty⟩ | ⟨text, rfl, hsame | hstanding⟩
  · rw [hempty] at hwithin
    exact absurd hwithin hword.not_within_empty
  · rw [← hsame] at hwithin
    exact hwhole text rfl word hword hwithin
  · exact hwhole text rfl word hword (hL.standing code.text text word hstanding hword hwithin)

theorem Plain.tells_tops (hL : L.Plain) (tops : List Chain) {s s' : Session}
    {sections : List (Option String)} {whole : String}
    (h : tops.mapM (L.section? nested) s = (.ok sections, s'))
    (hwhole : ∀ made ∈ sections, ∀ text ∈ made, ∀ word, Solid word → Within word text →
      Within word whole) :
    Told (L.trailOfTops nested tops s) (tops.flatMap L.demands) whole := by
  induction tops generalizing s sections with
  | nil => exact Told.nil whole
  | cons top rest ih =>
    rw [List.mapM_cons] at h
    obtain ⟨made, between, hmade, hrest⟩ := Effect.bind_succeeds h
    obtain ⟨later, last, hlater, hdone⟩ := Effect.bind_succeeds hrest
    cases hdone
    have hfirst := hL.tells_section hmade (hwhole made List.mem_cons_self)
    have hothers := ih hlater fun made hmem => hwhole made (List.mem_cons_of_mem _ hmem)
    rw [trailOfTops, hmade, List.flatMap_cons]
    exact hfirst.append hothers

/-- What a pass that succeeds asks for can be read off its workspace, and every identifier
that it gives out stands in its program. -/
theorem Plain.tells_pass (hL : L.Plain) {w : Workspace} {s : Session} {program : String}
    (hs : s.running = false) (h : (L.pass w s).1 = .ok program) :
    Told (L.passTrail w s) (w.trees.flatMap L.demands) program := by
  rw [pass_result w s hs] at h
  unfold passTrail
  rw [if_neg (by simp [hs])]
  rcases hsections : L.sections w s with ⟨fault | sections, last⟩
  · rw [hsections] at h
    cases h
  · rw [hsections] at h
    cases h
    refine hL.tells_tops w.trees hsections fun made hmade text htext word hword hwithin => ?_
    apply Text.within_clean hword
    have hbody : Within word (joinSections (sections.filterMap id)) := by
      unfold joinSections
      refine Text.within_joinLines (List.mem_map_of_mem ?_) (Text.within_dropNewline hword hwithin)
      exact List.mem_filterMap.mpr ⟨made, hmade, htext⟩
    unfold Session.withDefinitions
    split
    · exact hbody
    · exact hbody.behind _

end Language

end BlockCode
