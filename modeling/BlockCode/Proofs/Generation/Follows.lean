-- Two runs of the same work, side by side. In sessions that are alike a run comes to the
-- same as long as every request that it makes does. What alike means is left open: it may
-- say that only the log differs, or that the second session already knows what the first
-- is about to learn.
import BlockCode.Proofs.Generation.History

namespace BlockCode

/-- In sessions that are alike, the work has the same result and leaves sessions behind
that are alike, provided that it leaves the first of them in good shape. A session that
is in good shape after the work was so before. -/
structure Follows {α : Type} (Good : Session → Prop) (Alike : Session → Session → Prop)
    (x : Action α) : Prop where
  before : ∀ s, Good (x s).2 → Good s
  alike : ∀ s t, Alike s t → Good (x s).2 → (x t).1 = (x s).1 ∧ Alike (x s).2 (x t).2

namespace Follows

open BlockCode.Language

variable {α β : Type} {Good : Session → Prop} {Alike : Session → Session → Prop}

/-! ## What work is made of -/

theorem still {x : Action α} {result : Except Fault α} (h : ∀ s, x s = (result, s)) :
    Follows Good Alike x where
  before := by
    intro s hgood
    rwa [h s] at hgood
  alike := by
    intro s t hst _
    rw [h s, h t]
    exact ⟨rfl, hst⟩

theorem lift (result : Except Fault α) : Follows Good Alike (Effect.lift result : Action α) :=
  still fun _ => rfl

theorem fail (fault : Fault) : Follows Good Alike (Effect.fail fault : Action α) :=
  still fun _ => rfl

theorem pure (a : α) : Follows Good Alike (Pure.pure a : Action α) := still fun _ => rfl

theorem bind {x : Action α} {f : α → Action β} (hx : Follows Good Alike x)
    (hf : ∀ a, Follows Good Alike (f a)) : Follows Good Alike (x >>= f) where
  before := by
    intro s hgood
    rw [Effect.bind_apply] at hgood
    apply hx.before
    rcases hrun : x s with ⟨fault | a, s'⟩
    · rw [hrun] at hgood
      exact hgood
    · rw [hrun] at hgood
      exact (hf a).before s' hgood
  alike := by
    intro s t hst hgood
    rw [Effect.bind_apply] at hgood
    rw [Effect.bind_apply, Effect.bind_apply]
    have hstep := hx.alike s t hst
    rcases hrun : x s with ⟨fault | a, s'⟩
    · rw [hrun] at hgood hstep
      obtain ⟨hresult, hafter⟩ := hstep hgood
      rcases hrun' : x t with ⟨fault' | a', t'⟩
      · rw [hrun'] at hresult hafter
        cases hresult
        exact ⟨rfl, hafter⟩
      · rw [hrun'] at hresult
        cases hresult
    · rw [hrun] at hgood hstep
      obtain ⟨hresult, hafter⟩ := hstep ((hf a).before s' hgood)
      rcases hrun' : x t with ⟨fault' | a', t'⟩
      · rw [hrun'] at hresult
        cases hresult
      · rw [hrun'] at hresult hafter
        cases hresult
        exact (hf a).alike s' t' hafter hgood

theorem bind_lift {result : Except Fault α} {f : α → Action β}
    (hf : ∀ a, result = .ok a → Follows Good Alike (f a)) :
    Follows Good Alike (Effect.lift result >>= f) := by
  rcases hresult : result with fault | a
  · exact still fun _ => rfl
  · exact hf a hresult

theorem attempt {x : Action α} (hx : Follows Good Alike x) : Follows Good Alike x.attempt where
  before := hx.before
  alike := by
    intro s t hst hgood
    obtain ⟨hresult, hafter⟩ := hx.alike s t hst hgood
    exact ⟨congrArg Except.ok hresult, hafter⟩

theorem mapM {f : α → Action β} (hf : ∀ a, Follows Good Alike (f a)) (values : List α) :
    Follows Good Alike (values.mapM f) := by
  induction values with
  | nil => exact pure []
  | cons a rest ih =>
    rw [List.mapM_cons]
    exact bind (hf a) fun b => bind ih fun bs => pure (b :: bs)

/-! ## Rules at work -/

variable {L : Language} {nested : Workspace → Action String}

/-- A rule whose requests all come to the same comes to the same. -/
theorem perform {answer : Request → Action String} {allowed : Request → Prop}
    (hanswer : ∀ r, allowed r → Follows Good Alike (answer r)) (x : Script α)
    (hx : x.Asks allowed) : Follows Good Alike (Language.perform answer x) := by
  induction x with
  | done result => exact lift result
  | ask r next ih => exact bind (attempt (hanswer r hx.1)) fun outcome => ih outcome (hx.2 outcome)

theorem mem_of_find {plugs : List Plug} {name : Value} {plug : Plug}
    (h : Plug.find plugs name = .ok (some plug)) : plug ∈ plugs := by
  unfold Plug.find at h
  rcases hkey : name.asKey with fault | key
  · rw [hkey] at h
    cases h
  · rw [hkey] at h
    exact List.mem_of_find?_eq_some (Except.ok.inj h)

theorem plugged {plugs : List Plug} (hplugs : ∀ plug ∈ plugs, Follows Good Alike plug.code)
    (b : Block) (input outer : Value) : Follows Good Alike (L.plugged b plugs input outer) := by
  unfold Language.plugged
  apply bind_lift
  intro valid _
  split
  · exact fail _
  · apply bind_lift
    rintro (_ | plug) hfind
    · exact pure ""
    · simp only
      split
      · exact pure ""
      · apply bind (hplugs plug (mem_of_find hfind))
        rintro (text | ⟨text, inner⟩)
        · simp only
          split
          · exact pure ""
          · exact fail _
        · apply bind_lift
          intro valid _
          split
          · exact pure _
          · exact fail _

theorem chained {chain : Chain} {code : Action Code} (hcode : Follows Good Alike code) :
    Follows Good Alike (chained chain code) := by
  unfold Language.chained
  split
  · exact pure ""
  · apply bind hcode
    rintro (text | ⟨text, order⟩)
    · exact pure text
    · exact fail _

theorem nestedStatements {plugs : List Plug}
    (hplugs : ∀ plug ∈ plugs, Follows Good Alike plug.code) (input : Value) :
    Follows Good Alike (L.nestedStatements plugs input) := by
  unfold Language.nestedStatements
  apply bind_lift
  rintro (_ | plug) hfind
  · exact pure ""
  · apply bind (chained (hplugs plug (mem_of_find hfind)))
    intro text
    split
    · exact pure ""
    · exact lift _

theorem withSurroundings {rest : Action String} (hrest : Follows Good Alike rest) (alone : Bool)
    (b : Block) (plugs : List Plug) (code : String) :
    Follows Good Alike (L.withSurroundings alone b plugs code rest) := by
  unfold Language.withSurroundings
  split
  · exact bind (lift _) fun comments => bind hrest fun text => pure _
  · exact bind (pure "") fun comments => bind hrest fun text => pure _

end Follows

/-! ## Runs -/

/-- Two runs of a language come to the same, when its rules only ask for what they may and
every request for something other than the code of an input comes to the same. -/
structure Mirrors (L : Language) (nested : Workspace → Action String)
    (allowed : Block → Request → Prop) (Good : Session → Prop)
    (Alike : Session → Session → Prop) : Prop where
  rules : ∀ b rule, L.ruleFor b.type = .ok (some rule) → ∀ inputs, (rule b inputs).Asks (allowed b)
  counted : Follows Good Alike (Effect.change Session.counted)
  named : ∀ b plugs r, allowed b r → r.opensInput = false →
    Follows Good Alike (L.answer nested b plugs r)

namespace Mirrors

open BlockCode.Language

variable {L : Language} {nested : Workspace → Action String}
  {allowed : Block → Request → Prop} {Good : Session → Prop} {Alike : Session → Session → Prop}

theorem answer (h : Mirrors L nested allowed Good Alike) {plugs : List Plug}
    (hplugs : ∀ plug ∈ plugs, Follows Good Alike plug.code) (b : Block) (r : Request)
    (hr : allowed b r) : Follows Good Alike (L.answer nested b plugs r) := by
  cases r with
  | value input order => exact Follows.plugged hplugs b input order
  | statements input => exact Follows.nestedStatements hplugs input
  | _ => exact h.named b plugs _ hr rfl

theorem codeOfBlock (h : Mirrors L nested allowed Good Alike) {plugs : List Plug}
    (hplugs : ∀ plug ∈ plugs, Follows Good Alike plug.code) {rest : Action String}
    (hrest : Follows Good Alike rest) (alone : Bool) (b : Block) (inputs : Inputs) :
    Follows Good Alike (L.codeOfBlock nested alone b inputs plugs rest) := by
  unfold Language.codeOfBlock
  rcases hrule : L.ruleFor b.type with fault | _ | rule
  · have hfails : L.ruleOf b = Effect.fail fault := by
      unfold ruleOf
      rw [hrule]
      rfl
    rw [hfails]
    exact Follows.still fun _ => rfl
  · have hfails : L.ruleOf b =
        Effect.fail (GenerationError.unsupportedType L.name b.type (some b)).fault := by
      unfold ruleOf
      rw [hrule]
      rfl
    rw [hfails]
    exact Follows.still fun _ => rfl
  · have hfound : L.ruleOf b = Effect.lift (.ok rule) := by
      unfold ruleOf
      rw [hrule]
      rfl
    rw [hfound]
    apply Follows.bind_lift
    intro found hfound
    cases hfound
    refine Follows.bind h.counted fun _ => ?_
    refine Follows.bind (Follows.perform (h.answer hplugs b) _ (h.rules b rule hrule inputs)) ?_
    intro result
    have hsurrounded := Follows.withSurroundings (L := L) hrest alone b plugs
    cases result with
    | code text => exact Follows.bind (hsurrounded text) fun text => Follows.pure _
    | expression text order => exact Follows.bind (hsurrounded text) fun text => Follows.pure _
    | other v => cases v <;> exact Follows.fail _

theorem code_of_plug {inputs : Inputs}
    (h : inputs.Every fun c => ∀ alone, Follows Good Alike (L.codeOf nested alone c)) :
    ∀ plug ∈ L.plugs nested inputs, Follows Good Alike plug.code := by
  induction inputs using Inputs.inductionOn with
  | nil =>
    intro plug hplug
    cases hplug
  | cons name kind target rest ih =>
    intro plug hplug
    rcases List.mem_cons.mp hplug with rfl | hplug
    · exact h.1 false
    · exact ih h.2 plug hplug

theorem codeOf (h : Mirrors L nested allowed Good Alike) (c : Chain) (alone : Bool) :
    Follows Good Alike (L.codeOf nested alone c) := by
  induction c using Chain.inductionOn generalizing alone with
  | nil => exact Follows.pure _
  | cons b inputs next hin hnext =>
    rcases hb : b.isDisabled with _ | _
    · rw [codeOf_enabled hb]
      exact h.codeOfBlock (code_of_plug hin) (Follows.chained (hnext false)) alone b inputs
    · rw [codeOf_disabled hb]
      exact hnext false

theorem section? (h : Mirrors L nested allowed Good Alike) (top : Chain) :
    Follows Good Alike (L.section? nested top) := by
  unfold Language.section?
  apply Follows.bind (h.codeOf top true)
  intro code
  simp only
  split
  · exact Follows.pure none
  · split
    · exact Follows.bind (Follows.lift _) fun text => Follows.pure (some text)
    · exact Follows.pure _

end Mirrors

/-! ## Passes -/

namespace Language

variable {L : Language}

theorem programOf_eq {sections : Except Fault (List (Option String))} {s t : Session}
    (h : t.pass.helpers = s.pass.helpers) : programOf (sections, t) = programOf (sections, s) := by
  rcases sections with fault | sections
  · rfl
  · show Except.ok (Text.clean (t.withDefinitions _)) = Except.ok (Text.clean (s.withDefinitions _))
    unfold Session.withDefinitions
    rw [h]

theorem pass_session (w : Workspace) (s : Session) (hs : s.running = false) :
    (L.pass w s).2.pass = (L.sections w s).2.pass ∧
      (L.pass w s).2.reserved = (L.sections w s).2.reserved := by
  obtain ⟨notes, hrun⟩ := pass_run (L := L) w s hs
  rw [hrun]
  exact ⟨rfl, rfl⟩

end Language

/-- Two passes that begin alike come to the same and end alike. -/
theorem Mirrors.pass {L : Language} {allowed : Block → Request → Prop} {Good : Session → Prop}
    {Alike : Session → Session → Prop}
    (h : Mirrors L (fun _ => L.refuse) allowed Good Alike)
    (hhelpers : ∀ s t, Alike s t → t.pass.helpers = s.pass.helpers) {s t : Session}
    (hs : s.running = false) (ht : t.running = false) (w : Workspace)
    (hbegin : Alike (L.opened w s) (L.opened w t)) (hgood : Good (L.sections w s).2) :
    (L.pass w t).1 = (L.pass w s).1 ∧ Alike (L.sections w s).2 (L.sections w t).2 := by
  obtain ⟨hresult, hend⟩ := (Follows.mapM h.section? w.trees).alike _ _ hbegin hgood
  refine ⟨?_, hend⟩
  rw [Language.pass_result w t ht, Language.pass_result w s hs]
  calc Language.programOf (L.sections w t)
      = Language.programOf ((L.sections w s).1, (L.sections w t).2) :=
        congrArg (fun first => Language.programOf (first, (L.sections w t).2)) hresult
    _ = Language.programOf (L.sections w s) := Language.programOf_eq (hhelpers _ _ hend)

end BlockCode
