-- Which blocks a run hands to their rules, in their order, read off the run itself. A run
-- counts each of them, whether it comes to a result or not. When it does, and its rules read
-- known inputs, they are the live blocks.
import BlockCode.Proofs.Generation.Outcome
import BlockCode.Proofs.Generation.Requests
import BlockCode.Proofs.Workspace.Live
import BlockCode.Proofs.Workspace.Wiring

namespace BlockCode

open BlockCode.Language

/-! ## The blocks handed to rules -/

/-- What is gathered on the way to the answers that a script asks for, as `within` gives it
for each request. -/
def Script.gathered {α β : Type} (answer : Request → Action String)
    (within : Request → Session → List β) : Script α → Session → List β
  | .done _, _ => []
  | .ask r next, s =>
    let (outcome, after) := answer r s
    within r s ++ (next outcome).gathered answer within after

namespace Language

mutual
/-- The blocks that a run of the code of a chain hands to rules. -/
def visits (L : Language) (nested : Workspace → Action String) (alone : Bool) :
    Chain → Session → List Block
  | .nil, _ => []
  | .cons b inputs next, s =>
    if b.isDisabled then L.visits nested false next s
    else match L.ruleOf b s with
    | (.error _, _) => []
    | (.ok rule, s) =>
      let plugs := L.plugs nested inputs
      let answer := L.answer nested b plugs
      b :: (rule b inputs).gathered answer (L.visitsIn nested inputs).within s.counted ++
        match perform answer (rule b inputs) s.counted with
        | (.error _, _) => []
        | (.ok result, s) =>
          if L.goesOn alone b plugs result then L.visits nested false next s else []

/-- The blocks handed to rules by the code of what is plugged into the inputs. -/
def visitsIn (L : Language) (nested : Workspace → Action String) : Inputs → Gathered Block
  | .nil => []
  | .cons name _ target rest => (name, L.visits nested false target) :: L.visitsIn nested rest
end

/-- The blocks handed to rules in the code of top blocks, one after the other. -/
def visitsOfTops (L : Language) (nested : Workspace → Action String) :
    List Chain → Session → List Block
  | [], _ => []
  | top :: rest, s => L.visits nested true top s ++
    match L.section? nested top s with
    | (.error _, _) => []
    | (.ok _, s) => L.visitsOfTops nested rest s

/-- The blocks that a pass over a workspace hands to rules. -/
def passVisits (L : Language) (w : Workspace) (s : Session) : List Block :=
  if s.running then [] else L.visitsOfTops (fun _ => L.refuse) w.trees (L.opened w s)

variable {L : Language} {nested : Workspace → Action String}

theorem inside_visits {inputs : Inputs} {input name : Value} (hname : input.asKey = .ok name)
    (s : Session) :
    (L.visitsIn nested inputs).inside input s = L.visits nested false (inputs.target name) s :=
  Gathered.inside_eq (inputs.find_listed rfl fun _ _ _ _ => rfl) (fun _ => rfl) hname s

theorem visits_of_isEmpty {alone : Bool} {c : Chain} (h : c.isEmpty = true) (s : Session) :
    L.visits nested alone c s = [] := by
  cases c with
  | nil => rfl
  | cons b inputs next => cases h

/-! ## Every run counts them -/

theorem answer_handled (hnested : ∀ w s, (nested w s).2.pass.handled = s.pass.handled) (b : Block)
    (plugs : List Plug) (r : Request) (s : Session) (hr : r.opensInput = false) :
    (L.answer nested b plugs r s).2.pass.handled = s.pass.handled := by
  have hgrant : ∀ result, (Session.grant result s).2.pass.handled = s.pass.handled := by
    intro result
    cases result <;> rfl
  cases r with
  | value input order => cases hr
  | statements input => cases hr
  | comments input => rfl
  | identifier name category caseSensitive => exact hgrant _
  | ownIdentifier name category => exact hgrant _
  | helper desired lines => rfl
  | reserve words => cases words <;> rfl
  | pass w => exact hnested w s

/-- The run of a chain counts the blocks that it hands to rules. -/
def Counts (L : Language) (nested : Workspace → Action String) (c : Chain) : Prop :=
  ∀ alone s, (L.codeOf nested alone c s).2.pass.handled =
    s.pass.handled + (L.visits nested alone c s).length

theorem handled_inside {inputs : Inputs} (hin : inputs.Every (L.Counts nested)) (input : Value)
    (s : Session) :
    ((Plug.find (L.plugs nested inputs) input).toOption.join.elim s fun plug =>
        if plug.target.isEmpty then s else (plug.code s).2).pass.handled =
      s.pass.handled + ((L.visitsIn nested inputs).inside input s).length := by
  rcases hname : input.asKey with fault | name
  · simp only [Gathered.inside, Plug.find, hname]
    rfl
  · rw [inside_visits hname, find_input hname, Inputs.target_eq_at?]
    rcases hat : inputs.at? name with _ | ⟨n, kind, target⟩
    · rfl
    · simp only [Except.toOption, Option.map_some, Option.join_some, Option.elim_some,
        Option.getD_some]
      by_cases he : target.isEmpty = true
      · rw [if_pos he, visits_of_isEmpty he]
        rfl
      · rw [if_neg he]
        exact hin.of_at? hat false s

theorem handled_within {inputs : Inputs} (hin : inputs.Every (L.Counts nested)) (b : Block)
    (r : Request) (hr : r.opensInput = true) (s : Session) :
    (L.answer nested b (L.plugs nested inputs) r s).2.pass.handled =
      s.pass.handled + ((L.visitsIn nested inputs).within r s).length := by
  cases r with
  | value input outer =>
    simp only [answer, Gathered.within, plugged_after]
    rcases isOrder outer with fault | _ | _
    · rfl
    · rfl
    · have h := handled_inside hin input s
      rcases hfound : Plug.find (L.plugs nested inputs) input with fault | _ | plug <;>
        rw [hfound] at h <;> exact h
  | statements input =>
    simp only [answer, Gathered.within, nestedStatements_after]
    have h := handled_inside hin input s
    rcases hfound : Plug.find (L.plugs nested inputs) input with fault | _ | plug <;>
      rw [hfound] at h <;> exact h
  | _ => cases hr

theorem within_of_not_opensInput {α : Type} {gathered : Gathered α} {r : Request}
    (hr : r.opensInput = false) (s : Session) : gathered.within r s = [] := by
  cases r <;> first | rfl | cases hr

theorem handled_script {α : Type} (hnested : ∀ w s, (nested w s).2.pass.handled = s.pass.handled)
    {inputs : Inputs} (hin : inputs.Every (L.Counts nested)) (b : Block) (x : Script α)
    (s : Session) : (perform (L.answer nested b (L.plugs nested inputs)) x s).2.pass.handled =
      s.pass.handled + (x.gathered (L.answer nested b (L.plugs nested inputs))
        (L.visitsIn nested inputs).within s).length := by
  induction x generalizing s with
  | done result => rfl
  | ask r next ih =>
    have hstep : (L.answer nested b (L.plugs nested inputs) r s).2.pass.handled =
        s.pass.handled + ((L.visitsIn nested inputs).within r s).length := by
      rcases hr : r.opensInput with _ | _
      · rw [within_of_not_opensInput hr]
        exact answer_handled hnested b _ r s hr
      · exact handled_within hin b r hr s
    unfold Script.gathered
    rcases ha : L.answer nested b (L.plugs nested inputs) r s with ⟨outcome, after⟩
    rw [ha] at hstep
    simp only [perform_ask ha, List.length_append, ← Nat.add_assoc]
    rw [← hstep]
    exact ih outcome after

theorem counts (hnested : ∀ w s, (nested w s).2.pass.handled = s.pass.handled) (c : Chain) :
    L.Counts nested c := by
  induction c using Chain.inductionOn with
  | nil => exact fun _ _ => rfl
  | cons b inputs next hin hnext =>
    intro alone s
    rcases hb : b.isDisabled with _ | _
    · rw [codeOf_enabled hb, codeOfBlock_after, visits]
      simp only [hb, Bool.false_eq_true, if_false]
      have hs := ruleOf_after (L := L) b s
      rcases hr : L.ruleOf b s with ⟨_ | rule, s₁⟩
      · rw [hr] at hs
        exact congrArg (·.pass.handled) hs
      · rw [hr] at hs
        simp only at hs ⊢
        subst hs
        have hown := handled_script hnested hin b (rule b inputs) s₁.counted
        have hfirst : s₁.counted.pass.handled = s₁.pass.handled + 1 := rfl
        rcases hp : perform (L.answer nested b (L.plugs nested inputs)) (rule b inputs)
          s₁.counted with ⟨_ | result, s₂⟩
        · rw [hp] at hown
          simp only [List.length_append, List.length_cons, List.length_nil] at hown ⊢
          omega
        · rw [hp] at hown
          simp only [List.length_append, List.length_cons] at hown ⊢
          split
          · have h := hnext false s₂
            rw [chained_next_after]
            omega
          · simp only [List.length_nil]
            omega
    · rw [codeOf_disabled hb, visits, if_pos hb]
      exact hnext false s

theorem handled_tops (hnested : ∀ w s, (nested w s).2.pass.handled = s.pass.handled)
    (tops : List Chain) (s : Session) : (tops.mapM (L.section? nested) s).2.pass.handled =
      s.pass.handled + (L.visitsOfTops nested tops s).length := by
  induction tops generalizing s with
  | nil => rfl
  | cons top rest ih =>
    have htop := counts (L := L) hnested top true s
    rw [← section_after] at htop
    rw [List.mapM_cons, Effect.bind_apply, visitsOfTops, List.length_append]
    rcases hsec : L.section? nested top s with ⟨_ | text, s₁⟩
    · rw [hsec] at htop
      exact htop
    · rw [hsec] at htop
      have hrest := ih s₁
      rw [htop, Nat.add_assoc] at hrest
      simp only
      rw [Effect.bind_apply]
      rcases hm : rest.mapM (L.section? nested) s₁ with ⟨_ | _, _⟩ <;> rw [hm] at hrest <;>
        exact hrest

theorem idle_of_pass_ok {w : Workspace} {s : Session} {program : String}
    (h : (L.pass w s).1 = .ok program) : s.running = false := by
  rw [← Bool.not_eq_true]
  intro hrunning
  rw [pass_running L w s hrunning] at h
  cases h

/-- A pass counts the blocks that it hands to rules, and no others. -/
theorem handled_pass (w : Workspace) (s : Session) (hs : s.running = false) :
    (L.pass w s).2.pass.handled = (L.passVisits w s).length := by
  obtain ⟨notes, hrun⟩ := pass_run (L := L) w s hs
  have hnested : ∀ (w : Workspace) (s : Session),
      ((fun _ => L.refuse : Workspace → Action String) w s).2.pass.handled = s.pass.handled :=
    fun _ _ => rfl
  have htops := handled_tops (L := L) hnested w.trees (L.opened w s)
  have hnone : (L.opened w s).pass.handled = 0 := rfl
  rw [hnone, Nat.zero_add] at htops
  rw [hrun, passVisits, if_neg (by simp [hs])]
  exact htops

/-! ## When it succeeds, they are the live blocks -/

end Language

/-- The script asks for the code of these inputs, whatever texts it is given, unless it
ends with a fault that no answer gave it. -/
def Script.Opens {α : Type} : List Value → Script α → Prop
  | names, .done result => result.isOk = true → names = []
  | names, .ask r next => ∃ later, names = r.input?.toList ++ later ∧
    ∀ text, (next (.ok text)).Opens later

namespace Script

variable {α β : Type} {names later : List Value}

theorem opens_done {result : Except Fault α} : (done result).Opens [] := fun _ => rfl

theorem opens_request (r : Request) : (request r).Opens r.input?.toList :=
  ⟨[], (List.append_nil _).symm, fun _ _ => rfl⟩

theorem opens_bind {x : Script α} {f : α → Script β} (hx : x.Opens names)
    (hf : ∀ a, (f a).Opens later) : (x >>= f).Opens (names ++ later) := by
  induction x generalizing names with
  | done result =>
    rcases result with fault | a
    · intro h
      cases h
    · rw [hx rfl, List.nil_append]
      exact hf a
  | ask r next ih =>
    obtain ⟨rest, rfl, hnext⟩ := hx
    exact ⟨rest ++ later, List.append_assoc _ _ _, fun text => ih _ (hnext text)⟩

end Script

theorem Inputs.target_of_not_has {inputs : Inputs} {name : Value} (h : inputs.has name = false) :
    inputs.target name = .nil := by
  induction inputs using Inputs.inductionOn with
  | nil => rfl
  | cons m kind target rest ih =>
    rw [Inputs.has, Bool.or_eq_false_iff] at h
    rw [Inputs.target, if_neg (by simp [h.1]), ih h.2]

namespace Language

variable {L : Language} {nested : Workspace → Action String} {reads : Block → List String}

/-- A fault ends every rule, and the rule for a block reads these of its inputs, each in its
turn. It may pass over one that the block does not have. -/
structure Reads (L : Language) (reads : Block → List String) : Prop where
  strict : L.Strict
  opens : ∀ b rule, L.ruleFor b.type = .ok (some rule) → ∀ inputs, ∃ names,
    (rule b inputs).Opens names ∧
      names.filter (Inputs.has · inputs) = ((reads b).map .str).filter (Inputs.has · inputs)

/-- Whenever the code of the chain comes to a result, the live blocks were handed to rules. -/
def Wakes (L : Language) (nested : Workspace → Action String) (reads : Block → List String)
    (c : Chain) : Prop :=
  ∀ alone s code s', L.codeOf nested alone c s = (.ok code, s') →
    L.visits nested alone c s = c.live reads

theorem wakes_nil : L.Wakes nested reads .nil := fun _ _ _ _ _ => rfl

/-- What is handed to rules on the way to an answer is what is live in the input. -/
theorem visits_within {inputs : Inputs} (hin : inputs.Every (L.Wakes nested reads)) (b : Block)
    {r : Request} {s s' : Session} {text : String}
    (h : L.answer nested b (L.plugs nested inputs) r s = (.ok text, s')) :
    (L.visitsIn nested inputs).within r s =
      r.input?.toList.flatMap fun name => (inputs.target name).live reads := by
  have hlive : ∀ {name code}, L.codeOf nested false (inputs.target name) s = (.ok code, s') →
      L.visits nested false (inputs.target name) s = (inputs.target name).live reads :=
    fun hcode => hin.of_target wakes_nil _ false s _ s' hcode
  cases r with
  | value input outer =>
    obtain ⟨houter, name, code, hname, hcode, -⟩ := plugged_iff.mp h
    simp [Gathered.within, houter, inside_visits hname, Request.input?, hname, Except.toOption,
      hlive hcode]
  | statements input =>
    obtain ⟨name, made, hname, hcode, -⟩ := nestedStatements_iff.mp h
    simp [Gathered.within, inside_visits hname, Request.input?, hname, Except.toOption, hlive hcode]
  | _ => rfl

theorem visits_script {α : Type} {inputs : Inputs} (hin : inputs.Every (L.Wakes nested reads))
    (b : Block) (x : Script α) {names : List Value} (hstrict : x.Strict) (hopens : x.Opens names)
    {s s' : Session} {result : α}
    (h : perform (L.answer nested b (L.plugs nested inputs)) x s = (.ok result, s')) :
    x.gathered (L.answer nested b (L.plugs nested inputs)) (L.visitsIn nested inputs).within s =
      names.flatMap fun name => (inputs.target name).live reads := by
  induction x generalizing names s with
  | done made =>
    cases h
    rw [hopens rfl]
    rfl
  | ask r next ih =>
    obtain ⟨later, rfl, hnext⟩ := hopens
    obtain ⟨text, after, ha, hrest⟩ := Script.answered_of_perform hstrict.1 h
    unfold Script.gathered
    rw [List.flatMap_append, visits_within hin b ha, ha]
    exact congrArg _ (ih (.ok text) (hstrict.2 text) (hnext text) hrest)

theorem flatMap_filter_has (inputs : Inputs) (names : List Value) :
    ((names.filter (Inputs.has · inputs)).flatMap fun name => (inputs.target name).live reads) =
      names.flatMap fun name => (inputs.target name).live reads := by
  induction names with
  | nil => rfl
  | cons name rest ih =>
    rw [List.filter_cons, List.flatMap_cons]
    rcases h : inputs.has name with _ | _
    · rw [if_neg Bool.false_ne_true, ih, Inputs.target_of_not_has h]
      rfl
    · rw [if_pos rfl, List.flatMap_cons, ih]

theorem Reads.wakes (hL : L.Reads reads) (c : Chain) : L.Wakes nested reads c := by
  induction c using Chain.inductionOn with
  | nil => exact wakes_nil
  | cons b inputs next hin hnext =>
    intro alone s code s' h
    rcases hb : b.isDisabled with _ | _
    · obtain ⟨rule, result, after, before, behind, hrule, hrun, hremarks, hrest, hcode⟩ :=
        (codeOf_iff hb).mp h
      obtain ⟨names, hopens, hnames⟩ := hL.opens b rule hrule inputs
      have hown := visits_script hin b (rule b inputs) (hL.strict b rule hrule inputs) hopens hrun
      rw [← flatMap_filter_has, hnames, flatMap_filter_has, List.flatMap_map] at hown
      rw [Chain.live_enabled hb, visits, if_neg (by simp [hb]), ruleOf_iff.mpr ⟨hrule, rfl⟩]
      simp only [hrun, goesOn_of_remarks hremarks hcode, if_true]
      rw [hown, hnext false after _ s' hrest]
      rfl
    · rw [codeOf_disabled hb] at h
      rw [visits, if_pos hb, Chain.live_disabled hb]
      exact hnext false s code s' h

theorem Reads.visits_tops (hL : L.Reads reads) (tops : List Chain) {s s' : Session}
    {sections : List (Option String)}
    (h : tops.mapM (L.section? nested) s = (.ok sections, s')) :
    L.visitsOfTops nested tops s = tops.flatMap (Chain.live reads) := by
  induction tops generalizing s sections with
  | nil => rfl
  | cons top rest ih =>
    rw [List.mapM_cons] at h
    obtain ⟨made, between, hmade, hrest⟩ := Effect.bind_succeeds h
    obtain ⟨later, last, hlater, hdone⟩ := Effect.bind_succeeds hrest
    cases hdone
    obtain ⟨code, hcode, -⟩ := section_iff.mp hmade
    rw [visitsOfTops, hmade, List.flatMap_cons, hL.wakes top true s code between hcode]
    exact congrArg _ (ih hlater)

/-- A pass that succeeds hands the live blocks to their rules. -/
theorem Reads.visits_pass (hL : L.Reads reads) {w : Workspace} {s : Session} {program : String}
    (hs : s.running = false) (h : (L.pass w s).1 = .ok program) :
    L.passVisits w s = w.trees.flatMap (Chain.live reads) := by
  rw [pass_result w s hs] at h
  rw [passVisits, if_neg (by simp [hs])]
  rcases hsections : L.sections w s with ⟨fault | sections, last⟩
  · rw [hsections] at h
    cases h
  · exact hL.visits_tops w.trees hsections

end Language
end BlockCode
