-- What a run keeps. A run changes what its pass has gathered only when a block is
-- counted and when a rule gets a name. So a law that these two keep, request by
-- request, holds of every run with its trail.
import BlockCode.Proofs.Generation.Trail
import BlockCode.Proofs.Workspace.Tree

namespace BlockCode

namespace Effect

variable {σ ε α β : Type}

theorem bind_apply (x : Effect σ ε α) (f : α → Effect σ ε β) (s : σ) :
    (x >>= f) s = match x s with
      | (.ok a, s) => f a s
      | (.error fault, s) => (.error fault, s) := rfl

theorem lift_apply (result : Except ε α) (s : σ) :
    (lift result : Effect σ ε α) s = (result, s) := rfl

end Effect

namespace Language

variable {L : Language} {nested : Workspace → Action String}

/-! ## Scripts -/

theorem perform_ask {α : Type} {answer : Request → Action String} {r : Request}
    {next : Except Fault String → Script α} {s after : Session} {outcome : Except Fault String}
    (h : answer r s = (outcome, after)) :
    perform answer (.ask r next) s = perform answer (next outcome) after := by
  rw [perform, Effect.bind_apply]
  simp only [Effect.attempt, h]

/-! ## The code of an input is met under its name -/

theorem find_plugs (inputs : Inputs) (name : Value) :
    (L.plugs nested inputs).find? (·.name.same name) =
      (inputs.at? name).map fun (n, k, t) =>
        { name := n, kind := k, target := t, code := L.codeOf nested false t } := by
  induction inputs using Inputs.inductionOn with
  | nil => rfl
  | cons m k t rest ih =>
    simp only [plugs, Inputs.at?, List.find?_cons]
    by_cases h : m.same name = true
    · simp [h]
    · simp [h, ih]

theorem find_input {inputs : Inputs} {input name : Value} (hname : input.asKey = .ok name) :
    Plug.find (L.plugs nested inputs) input = .ok ((inputs.at? name).map fun (n, k, t) =>
      { name := n, kind := k, target := t, code := L.codeOf nested false t }) := by
  unfold Plug.find
  rw [hname]
  show Except.ok _ = _
  rw [find_plugs]

theorem find_trails (inputs : Inputs) (name : Value) :
    (L.trails nested inputs).find? (·.1.same name) =
      (inputs.at? name).map fun (n, _, t) => (n, L.trail nested false t) := by
  induction inputs using Inputs.inductionOn with
  | nil => rfl
  | cons m k t rest ih =>
    simp only [trails, Inputs.at?, List.find?_cons]
    by_cases h : m.same name = true
    · simp [h]
    · simp [h, ih]

theorem trail_of_isEmpty {alone : Bool} {c : Chain} (h : c.isEmpty = true) (s : Session) :
    L.trail nested alone c s = [] := by
  cases c with
  | nil => rfl
  | cons b inputs next => cases h

/-! ## What a request for plugged code leaves behind -/

theorem plugged_after (b : Block) (plugs : List Plug) (input outer : Value) (s : Session) :
    (L.plugged b plugs input outer s).2 =
      match isOrder outer, Plug.find plugs input with
      | .ok true, .ok (some plug) => if plug.target.isEmpty then s else (plug.code s).2
      | _, _ => s := by
  unfold plugged
  rw [Effect.bind_apply, Effect.lift_apply]
  rcases isOrder outer with fault | _ | _
  · rfl
  · rfl
  · simp only [Bool.not_true, Bool.false_eq_true, if_false]
    rw [Effect.bind_apply, Effect.lift_apply]
    rcases Plug.find plugs input with fault | _ | plug
    · rfl
    · rfl
    · simp only
      rcases plug.target with _ | ⟨target, inputs, next⟩
      · rfl
      · simp only [Chain.head?, Chain.isEmpty]
        rw [Effect.bind_apply]
        rcases plug.code s with ⟨_ | code, s'⟩
        · rfl
        · cases code with
          | statements text => simp only; split <;> rfl
          | expression text inner =>
            simp only
            rw [Effect.bind_apply, Effect.lift_apply]
            rcases isOrder inner with _ | _ | _ <;> rfl

theorem chained_after (c : Chain) (code : Action Code) (s : Session) :
    (chained c code s).2 = if c.isEmpty then s else (code s).2 := by
  unfold chained
  rcases c with _ | ⟨head, inputs, next⟩
  · rfl
  · simp only [Chain.head?, Chain.isEmpty]
    rw [Effect.bind_apply]
    rcases code s with ⟨_ | code, s'⟩
    · rfl
    · cases code <;> rfl

theorem chained_next_after (next : Chain) (s : Session) :
    (chained next (L.codeOf nested false next) s).2 = (L.codeOf nested false next s).2 := by
  rw [chained_after]
  cases next <;> rfl

theorem nestedStatements_after (plugs : List Plug) (input : Value) (s : Session) :
    (L.nestedStatements plugs input s).2 =
      match Plug.find plugs input with
      | .ok (some plug) => if plug.target.isEmpty then s else (plug.code s).2
      | _ => s := by
  unfold nestedStatements
  rw [Effect.bind_apply, Effect.lift_apply]
  rcases Plug.find plugs input with fault | _ | plug
  · rfl
  · rfl
  · simp only
    rw [← chained_after, Effect.bind_apply]
    rcases chained plug.target plug.code s with ⟨_ | text, s'⟩
    · rfl
    · simp only
      split <;> rfl

theorem ruleOf_after (b : Block) (s : Session) : (L.ruleOf b s).2 = s := by
  unfold ruleOf
  rw [Effect.bind_apply, Effect.lift_apply]
  rcases L.ruleFor b.type with fault | _ | rule <;> rfl

theorem ruleFor_of_ruleOf {b : Block} {s s' : Session} {rule : Rule}
    (h : L.ruleOf b s = (.ok rule, s')) : L.ruleFor b.type = .ok (some rule) := by
  unfold ruleOf at h
  rw [Effect.bind_apply, Effect.lift_apply] at h
  rcases hr : L.ruleFor b.type with fault | _ | r
  · rw [hr] at h; cases h
  · rw [hr] at h; cases h
  · rw [hr] at h; cases h; rfl

theorem withSurroundings_after (alone : Bool) (b : Block) (plugs : List Plug) (code : String)
    (rest : Action String) (s : Session) :
    (L.withSurroundings alone b plugs code rest s).2 =
      if (b.givesValue && !alone) || (L.commentsBefore b plugs).isOk then (rest s).2 else s := by
  unfold withSurroundings
  rcases hv : b.givesValue <;> rcases alone <;> rcases hc : L.commentsBefore b plugs with _ | comments
  all_goals
    simp only [Bool.not_true, Bool.not_false, Bool.or_true, Bool.or_false, Bool.and_true,
      Bool.and_false, if_true, if_false, Bool.false_eq_true, Effect.bind_apply,
      Effect.lift_apply, Except.isOk, Except.toBool, Effect.pure_apply]
    try rcases rest s with ⟨_ | text, s'⟩ <;> rfl

theorem codeOfBlock_after (alone : Bool) (b : Block) (inputs : Inputs) (plugs : List Plug)
    (rest : Action String) (s : Session) :
    (L.codeOfBlock nested alone b inputs plugs rest s).2 =
      match L.ruleOf b s with
      | (.error _, s) => s
      | (.ok rule, s) =>
        match perform (L.answer nested b plugs) (rule b inputs) s.counted with
        | (.error _, s) => s
        | (.ok result, s) => if L.goesOn alone b plugs result then (rest s).2 else s := by
  unfold codeOfBlock
  rw [Effect.bind_apply]
  rcases L.ruleOf b s with ⟨_ | rule, s₁⟩
  · rfl
  · simp only
    rw [Effect.bind_apply]
    simp only [Effect.change, Session.counted, PassState.counted]
    rw [Effect.bind_apply]
    rcases perform (L.answer nested b plugs) (rule b inputs) _ with ⟨_ | result, s₂⟩
    · rfl
    · cases result with
      | code text =>
        have h := withSurroundings_after (L := L) alone b plugs text rest s₂
        simp only
        rw [Effect.bind_apply]
        rcases hw : L.withSurroundings alone b plugs text rest s₂ with ⟨_ | _, _⟩ <;>
          rw [hw] at h <;> exact h
      | expression text order =>
        have h := withSurroundings_after (L := L) alone b plugs text rest s₂
        simp only
        rw [Effect.bind_apply]
        rcases hw : L.withSurroundings alone b plugs text rest s₂ with ⟨_ | _, _⟩ <;>
          rw [hw] at h <;> exact h
      | other v => cases v <;> rfl

theorem codeOf_disabled {b : Block} (hb : b.isDisabled = true) (alone : Bool) (inputs : Inputs)
    (next : Chain) :
    L.codeOf nested alone (.cons b inputs next) = L.codeOf nested false next := by
  rw [codeOf, if_pos hb]

theorem codeOf_enabled {b : Block} (hb : b.isDisabled = false) (alone : Bool) (inputs : Inputs)
    (next : Chain) :
    L.codeOf nested alone (.cons b inputs next) =
      L.codeOfBlock nested alone b inputs (L.plugs nested inputs)
        (chained next (L.codeOf nested false next)) := by
  rw [codeOf, hb]
  rfl

/-! ## The laws that runs keep -/

end Language

/-- The answer to the request comes out of the code of an input. -/
def Request.opensInput : Request → Bool
  | .value _ _ => true
  | .statements _ => true
  | _ => false

/-- A law about a trail and the session at its end, that a run keeps as long as its
rules only ask for what they may. -/
structure Keeps (L : Language) (nested : Workspace → Action String)
    (allowed : Block → Request → Prop) (J : List Served → Session → Prop) : Prop where
  rules : ∀ b rule, L.ruleFor b.type = .ok (some rule) → ∀ inputs, (rule b inputs).Asks (allowed b)
  counted : ∀ E s, J E s → J E s.counted
  /-- What is told, and whether a pass runs, is nothing to the law. -/
  told : ∀ E s running notes, J E s → J E { s with running, notes }
  named : ∀ E b inputs r s outcome after, allowed b r → r.opensInput = false →
    L.answer nested b (L.plugs nested inputs) r s = (outcome, after) → J E s →
    J (E ++ [⟨b, inputs, r, s, outcome, after⟩]) after
  opened : ∀ E inner b inputs r s outcome after, allowed b r → r.opensInput = true →
    L.answer nested b (L.plugs nested inputs) r s = (outcome, after) → J E s →
    J (E ++ inner) after → J (E ++ inner ++ [⟨b, inputs, r, s, outcome, after⟩]) after

namespace Keeps

open BlockCode.Language

variable {L : Language} {nested : Workspace → Action String}
  {allowed : Block → Request → Prop} {J : List Served → Session → Prop}

/-- The run of a chain keeps the law. -/
def Along (L : Language) (nested : Workspace → Action String)
    (J : List Served → Session → Prop) (c : Chain) : Prop :=
  ∀ alone E s, J E s →
    J (E ++ L.trail nested alone c s) (L.codeOf nested alone c s).2

theorem within (inputs : Inputs) (hin : inputs.Every (Along L nested J)) (b : Block)
    (r : Request) (hr : r.opensInput = true) (E : List Served) (s : Session) (hJ : J E s) :
    J (E ++ (L.trails nested inputs).within r s)
      (L.answer nested b (L.plugs nested inputs) r s).2 := by
  have hinside : ∀ input, J (E ++ (L.trails nested inputs).inside input s)
      (match Plug.find (L.plugs nested inputs) input with
        | .ok (some plug) => if plug.target.isEmpty then s else (plug.code s).2
        | _ => s) := by
    intro input
    unfold Gathered.inside Plug.find
    rcases input.asKey with fault | name
    · show J (E ++ []) s
      rwa [List.append_nil]
    · simp only [find_trails, bind, Except.bind, pure, Except.pure, find_plugs]
      rcases hat : inputs.at? name with _ | ⟨n, kind, target⟩
      · simpa using hJ
      · simp only [Option.map_some, Option.getD_some]
        by_cases he : target.isEmpty = true
        · simpa [he, trail_of_isEmpty he] using hJ
        · simp only [he, Bool.false_eq_true, if_false]
          exact hin.of_at? hat false E s hJ
  cases r with
  | value input outer =>
    simp only [answer, Gathered.within, plugged_after]
    rcases isOrder outer with fault | _ | _
    · simpa using hJ
    · simpa using hJ
    · have h := hinside input
      rcases hp : Plug.find (L.plugs nested inputs) input with fault | _ | plug <;>
        rw [hp] at h <;> exact h
  | statements input =>
    simp only [answer, Gathered.within, nestedStatements_after]
    exact hinside input
  | _ => cases hr

theorem script {α : Type} (hk : Keeps L nested allowed J) {inputs : Inputs}
    (hin : inputs.Every (Along L nested J)) (b : Block) (x : Script α) (hx : x.Asks (allowed b))
    (E : List Served) (s : Session) (hJ : J E s) :
    J (E ++ x.served (L.answer nested b (L.plugs nested inputs)) (L.trails nested inputs).within
        b inputs s)
      (perform (L.answer nested b (L.plugs nested inputs)) x s).2 := by
  induction x generalizing E s with
  | done result =>
    show J (E ++ []) s
    rwa [List.append_nil]
  | ask r next ih =>
    obtain ⟨hr, hnext⟩ := hx
    unfold Script.served
    rcases ha : L.answer nested b (L.plugs nested inputs) r s with ⟨outcome, after⟩
    simp only [perform_ask ha]
    have hstep : J (E ++ (L.trails nested inputs).within r s ++ [⟨b, inputs, r, s, outcome, after⟩])
        after := by
      rcases ho : r.opensInput with _ | _
      · have hnone : (L.trails nested inputs).within r s = [] := by cases r <;> first | rfl | cases ho
        rw [hnone, List.append_nil]
        exact hk.named E b inputs r s outcome after hr ho ha hJ
      · have h := within inputs hin b r ho E s hJ
        rw [ha] at h
        exact hk.opened E _ b inputs r s outcome after hr ho ha hJ h
    have h := ih outcome (hnext outcome) _ after hstep
    simpa only [List.append_assoc, List.singleton_append] using h

/-- The run of every chain keeps the law. -/
theorem along (hk : Keeps L nested allowed J) (c : Chain) : Along L nested J c := by
  induction c using Chain.inductionOn with
  | nil =>
    intro alone E s hJ
    show J (E ++ []) s
    rwa [List.append_nil]
  | cons b inputs next hin hnext =>
    intro alone E s hJ
    rcases hb : b.isDisabled with _ | _
    · rw [codeOf_enabled hb, codeOfBlock_after, trail]
      simp only [hb, Bool.false_eq_true, if_false]
      have hs := ruleOf_after (L := L) b s
      rcases hr : L.ruleOf b s with ⟨_ | rule, s₁⟩
      · rw [hr] at hs
        simp only at hs ⊢
        rwa [hs, List.append_nil]
      · rw [hr] at hs
        simp only at hs ⊢
        subst hs
        have hasks := hk.rules b rule (ruleFor_of_ruleOf hr) inputs
        have hown := hk.script hin b (rule b inputs) hasks E s₁.counted (hk.counted E _ hJ)
        rcases hp : perform (L.answer nested b (L.plugs nested inputs)) (rule b inputs)
          s₁.counted with ⟨_ | result, s₂⟩
        · rw [hp] at hown
          exact hown
        · rw [hp] at hown
          simp only
          split
          · have h := hnext false _ s₂ hown
            rw [chained_next_after]
            simpa only [List.append_assoc] using h
          · simpa only [List.append_nil] using hown
    · rw [codeOf_disabled hb, trail, if_pos hb]
      exact hnext false E s hJ

end Keeps
end BlockCode
