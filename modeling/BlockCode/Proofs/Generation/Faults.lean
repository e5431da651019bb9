-- Where the faults of a run come from. A fault passes through all work around the place where
-- it came up, and rules may take it and go on, or raise one of their own. So it is asked of
-- every part of a run what its faults are like: they are what is raised at some block, what
-- rules raise, or nothing that is told as an error of generation at all.
import BlockCode.Proofs.Generation.Outcome
import BlockCode.Proofs.Workspace.Wiring

namespace BlockCode

open BlockCode.Language

/-- A fault that is no error of generation. -/
def Fault.Plain (fault : Fault) : Prop := ∀ e, fault ≠ .generation e

/-- If there is a fault, it is one of these. -/
def Faults {α : Type} (P : Fault → Prop) (result : Except Fault α) : Prop :=
  ∀ fault, result = .error fault → P fault

/-- From every session, the work fails with none but these. -/
def Risks {α : Type} (P : Fault → Prop) (x : Action α) : Prop := ∀ s, Faults P (x s).1

namespace Faults

variable {α β : Type} {P Q : Fault → Prop} {result : Except Fault α}

theorem mono (h : Faults P result) (hPQ : ∀ fault, P fault → Q fault) : Faults Q result :=
  fun fault hfault => hPQ fault (h fault hfault)

theorem ok (a : α) : Faults P (.ok a) := by
  intro fault hfault
  cases hfault

theorem error {fault : Fault} (h : P fault) : Faults P (.error fault : Except Fault α) := by
  intro other hother
  cases hother
  exact h

theorem plain {fault : Fault} (h : ∀ e, fault ≠ .generation e) :
    Faults Fault.Plain (.error fault : Except Fault α) := error h

theorem bind {f : α → Except Fault β} (h : Faults P result) (hf : ∀ a, Faults P (f a)) :
    Faults P (result >>= f) := by
  rcases result with fault | a
  · exact error (h fault rfl)
  · exact hf a

theorem mapM {f : α → Except Fault β} (hf : ∀ a, Faults P (f a)) (values : List α) :
    Faults P (values.mapM f) := by
  induction values with
  | nil => exact ok []
  | cons a rest ih =>
    rw [List.mapM_cons]
    exact (hf a).bind fun b => ih.bind fun bs => ok (b :: bs)

/-! ## What looks at values raises no error of generation -/

theorem asText (v : Value) : Faults Fault.Plain v.asText := by
  cases v <;> first | exact ok _ | exact plain nofun

theorem asKey (name : Value) : Faults Fault.Plain name.asKey := by
  unfold Value.asKey
  split
  · exact ok _
  · exact plain nofun

theorem isOrder (order : Value) : Faults Fault.Plain (isOrder order) := by
  unfold Language.isOrder
  split
  · split
    · exact plain nofun
    · exact ok _
  · exact ok _
  · exact ok _

theorem fieldAt (b : Block) (name : Value) : Faults Fault.Plain (b.fieldAt name) := by
  unfold Block.fieldAt
  split
  · exact (asKey name).bind fun _ => ok _
  · exact plain fun e h => by cases h

theorem find (plugs : List Plug) (name : Value) : Faults Fault.Plain (Plug.find plugs name) :=
  (asKey name).bind fun _ => ok _

theorem commentOf (b : Block) : Faults Fault.Plain b.commentOf := by
  unfold Block.commentOf
  split
  · exact ok _
  · exact ok _
  · exact ok _
  · exact plain nofun

theorem text (v : Value) : Faults Fault.Plain v.text := by
  unfold Value.text
  split
  · exact ok _
  · exact plain nofun

theorem spell (v : Value) : Faults Fault.Plain (Names.spell v) := by
  unfold Names.spell
  split
  · exact ok _
  · exact (text v).bind fun _ => ok _

theorem comments (c : Chain) : Faults Fault.Plain c.comments :=
  (mapM commentOf c.blocks).bind fun _ => ok _

theorem commentsBefore (L : Language) (b : Block) (plugs : List Plug) :
    Faults Fault.Plain (L.commentsBefore b plugs) := by
  have hown : Faults Fault.Plain (L.ownComment b) := by
    refine (commentOf b).bind fun comment => ?_
    split
    · exact ok _
    · exact (asText _).bind fun _ => ok _
  have hplug : ∀ plug, Faults Fault.Plain (L.plugComment plug) := by
    intro plug
    unfold Language.plugComment
    split
    · exact ok _
    · refine (comments plug.target).bind fun texts => ?_
      split
      · exact ok _
      · exact (asText _).bind fun _ => ok _
  exact hown.bind fun _ => (mapM hplug plugs).bind fun _ => ok _

theorem pluggedComments (plugs : List Plug) (input : Value) :
    Faults Fault.Plain (Language.pluggedComments plugs input) := by
  refine (find plugs input).bind fun found => ?_
  cases found with
  | none => exact ok _
  | some plug => exact comments plug.target

theorem ownFor (names : Names) (name category : Value) :
    Faults Fault.Plain (names.ownFor name category) := by
  have hplain : Faults Fault.Plain (Names.plainFor name) := by
    unfold Names.plainFor
    split
    · exact ok _
    · split
      · exact ok _
      · exact ok _
      · exact plain nofun
  exact hplain.bind fun _ => ok _

theorem getFor (names : Names) (name category : Value) (caseSensitive : Bool) :
    Faults Fault.Plain (names.getFor name category caseSensitive) := by
  have hkey : Faults Fault.Plain (Names.keyFor name category caseSensitive) := by
    have hplace : ∀ signs, Faults Fault.Plain (do
        return Names.place signs (← Names.spell category) caseSensitive) :=
      fun _ => (spell category).bind fun _ => ok _
    unfold Names.keyFor
    split
    · exact hplace _
    · split
      · exact (spell name).bind hplace
      · exact plain nofun
  refine hkey.bind fun key => ?_
  split
  · exact ok _
  · exact (ownFor names name category).bind fun _ => ok _

theorem linesOf (lines : Value) : Faults Fault.Plain (Helpers.linesOf lines) := by
  have hline : ∀ v, Faults Fault.Plain (Helpers.linesOf.line v) := by
    intro v
    cases v <;> first | exact ok _ | exact plain nofun
  unfold Helpers.linesOf
  split
  · exact ok _
  · exact ok _
  · exact mapM hline _
  · exact mapM hline _
  · exact mapM (fun entry : Value × Value => hline entry.1) _
  · exact plain nofun

theorem ask (helpers : Helpers) (names : Names) (desired lines : Value) (stable : Bool) :
    Faults Fault.Plain (helpers.ask names desired lines stable).outcome := by
  have hgranted : Faults Fault.Plain (if stable = true then
      names.getFor desired Helpers.category true else names.ownFor desired Helpers.category) := by
    split
    · exact getFor names desired Helpers.category true
    · exact ownFor names desired Helpers.category
  unfold Helpers.ask
  split
  · exact plain nofun
  · split
    · exact ok _
    · simp only
      split
      · rename_i fault hfault
        exact error (hgranted fault hfault)
      · split
        · rename_i fault hfault
          exact error (linesOf lines fault hfault)
        · exact ok _

end Faults

/-- An error is raised as such, or it is no error of generation that is raised. -/
theorem GenerationError.fault_of {P : Fault → Prop} {e : GenerationError}
    (hplain : ∀ fault, fault.Plain → P fault) (h : P (.generation e)) : P e.fault := by
  unfold GenerationError.fault
  split
  · exact h
  · exact hplain _ nofun

/-! ## Work that is made of work -/

namespace Risks

variable {α β : Type} {P : Fault → Prop} {x : Action α}

theorem lift {result : Except Fault α} (h : Faults P result) : Risks P (Effect.lift result) :=
  fun _ => h

theorem pure (a : α) : Risks P (Pure.pure a : Action α) := fun _ => .ok a

theorem fail {fault : Fault} (h : P fault) : Risks P (Effect.fail fault : Action α) :=
  fun _ => .error h

theorem read (f : Session → α) : Risks P (Effect.read f) := fun s => .ok (f s)

theorem change (f : Session → Session) : Risks P (Effect.change f) := fun _ => .ok ()

theorem bind_run {f : α → Action β} (hx : Risks P x)
    (hf : ∀ s a s', x s = (.ok a, s') → Faults P (f a s').1) : Risks P (x >>= f) := by
  intro s
  rw [Effect.bind_apply]
  rcases hrun : x s with ⟨fault | a, s'⟩
  · exact .error (hx s fault (by rw [hrun]))
  · exact hf s a s' hrun

theorem bind {f : α → Action β} (hx : Risks P x) (hf : ∀ a, Risks P (f a)) :
    Risks P (x >>= f) := hx.bind_run fun _ a s' _ => hf a s'

theorem bind_lift {result : Except Fault α} {f : α → Action β} (h : Faults P result)
    (hf : ∀ a, result = .ok a → Risks P (f a)) : Risks P (Effect.lift result >>= f) := by
  rcases result with fault | a
  · exact fun _ => .error (h fault rfl)
  · exact hf a rfl

theorem mapM {f : α → Action β} {values : List α} (hf : ∀ a ∈ values, Risks P (f a)) :
    Risks P (values.mapM f) := by
  induction values with
  | nil => exact pure []
  | cons a rest ih =>
    rw [List.mapM_cons]
    refine bind (hf a List.mem_cons_self) fun b => ?_
    exact bind (ih fun c hc => hf c (List.mem_cons_of_mem a hc)) fun bs => pure (b :: bs)

end Risks

/-! ## Rules -/

/-- If the answers fail with none but these, the script does so too. -/
def Script.Raises {α : Type} (P : Fault → Prop) : Script α → Prop
  | .done result => Faults P result
  | .ask _ next => ∀ answer, Faults P answer → (next answer).Raises P

/-- What the script fails with is one of these, or what an answer failed with. -/
def Script.PassesOn {α : Type} (own : Fault → Prop) : Script α → Prop
  | .done result => Faults own result
  | .ask _ next => ∀ answer, (next answer).PassesOn fun fault => own fault ∨ answer = .error fault

namespace Script

variable {α β : Type} {own P : Fault → Prop} {x : Script α}

theorem PassesOn.mono (hx : x.PassesOn own) (h : ∀ fault, own fault → P fault) : x.PassesOn P := by
  induction x generalizing own P with
  | done result => exact Faults.mono hx h
  | ask r next ih =>
    intro answer
    exact ih answer (hx answer) fun fault => Or.imp_left (h fault)

theorem PassesOn.raises (hx : x.PassesOn own) (h : ∀ fault, own fault → P fault) : x.Raises P := by
  induction x generalizing own with
  | done result => exact Faults.mono hx h
  | ask r next ih =>
    intro answer hanswer
    refine ih answer (hx answer) ?_
    rintro fault (hown | htold)
    · exact h fault hown
    · exact hanswer fault htold

theorem passesOn_request (r : Request) : (request r).PassesOn own :=
  fun _ _ hfault => Or.inr hfault

theorem passesOn_bind {f : α → Script β} (hx : x.PassesOn own) (hf : ∀ a, (f a).PassesOn own) :
    (x >>= f).PassesOn own := by
  induction x generalizing own with
  | done result =>
    cases result with
    | error fault => exact Faults.error (hx fault rfl)
    | ok a => exact hf a
  | ask r next ih =>
    intro answer
    exact ih answer (hx answer) fun a => (hf a).mono fun _ => Or.inl

theorem passesOn_pure (a : α) : (pure a : Script α).PassesOn own := Faults.ok a

theorem passesOn_field (b : Block) (name : String) : (field b name).PassesOn Fault.Plain :=
  Faults.fieldAt b (.str name)

end Script

/-! ## What is raised at a block -/

namespace Language

variable {L : Language} {nested : Workspace → Action String}

/-- The errors that are raised when an enabled block is at work: about its type, about an
order that its rule asks for, about what its rule came to, and about what is connected to
it, which is named by the first block of that chain. -/
inductive Raised (L : Language) (nested : Workspace → Action String) (b : Block)
    (inputs : Inputs) (next : Chain) : GenerationError → Prop
  | unsupported : L.ruleFor b.type = .ok none →
    Raised L nested b inputs next (.unsupportedType L.name b.type (some b))
  | outer {order : Value} : isOrder order = .ok false →
    Raised L nested b inputs next (.invalidOuterOrder b order)
  /-- Statements in an input for an expression. -/
  | missing {name : Value} {head : Block} {s s' : Session} {text : String} :
    (inputs.target name).head? = some head →
    L.codeOf nested false (inputs.target name) s = (.ok (.statements text), s') → text ≠ "" →
    Raised L nested b inputs next (.missingOrder head)
  /-- An expression in an input whose order is no order. -/
  | inner {name : Value} {head : Block} {s s' : Session} {text : String} {order : Value} :
    (inputs.target name).head? = some head →
    L.codeOf nested false (inputs.target name) s = (.ok (.expression text order), s') →
    isOrder order = .ok false → Raised L nested b inputs next (.invalidInnerOrder head order)
  /-- An expression in an input for statements. -/
  | misplaced {name : Value} {head : Block} {s s' : Session} {text : String} {order : Value} :
    (inputs.target name).head? = some head →
    L.codeOf nested false (inputs.target name) s = (.ok (.expression text order), s') →
    Raised L nested b inputs next (.misplacedValue head)
  /-- An expression behind the block. -/
  | behind {head : Block} {s s' : Session} {text : String} {order : Value} :
    next.head? = some head →
    L.codeOf nested false next s = (.ok (.expression text order), s') →
    Raised L nested b inputs next (.misplacedValue head)
  | pair {rule : Rule} {s s' : Session} {items : List Value} :
    L.ruleFor b.type = .ok (some rule) →
    perform (L.answer nested b (L.plugs nested inputs)) (rule b inputs) s =
      (.ok (.other (.tuple items)), s') →
    Raised L nested b inputs next (.malformedPair b)
  | noCode {rule : Rule} {s s' : Session} {v : Value} :
    L.ruleFor b.type = .ok (some rule) →
    perform (L.answer nested b (L.plugs nested inputs)) (rule b inputs) s = (.ok (.other v), s') →
    Raised L nested b inputs next (.noCode b v)

end Language

namespace Risks

variable {P : Fault → Prop} {L : Language} {nested : Workspace → Action String} {b : Block}
  {inputs : Inputs} {next : Chain}

theorem perform {α : Type} {answer : Request → Action String} (hanswer : ∀ r, Risks P (answer r))
    {x : Script α} (hx : x.Raises P) : Risks P (perform answer x) := by
  induction x with
  | done result => exact lift hx
  | ask r next ih => exact fun s => ih (answer r s).1 (hx (answer r s).1 (hanswer r s)) (answer r s).2

section Block

variable (hplain : ∀ fault, fault.Plain → P fault)
  (hraised : ∀ e, Raised L nested b inputs next e → P (.generation e))
include hplain hraised

theorem plugged (hcode : ∀ name, Risks P (L.codeOf nested false (inputs.target name)))
    (input outer : Value) : Risks P (L.plugged b (L.plugs nested inputs) input outer) := by
  unfold Language.plugged
  refine bind_lift ((Faults.isOrder outer).mono hplain) ?_
  rintro (_ | _) houter
  · exact fail (GenerationError.fault_of hplain (hraised _ (.outer houter)))
  · refine bind_lift ((Faults.find _ input).mono hplain) ?_
    intro found hfound
    obtain ⟨name, -, rfl⟩ := find_iff.mp hfound
    have htarget := Inputs.target_eq_at? inputs name
    rcases hat : inputs.at? name with _ | ⟨n, kind, target⟩
    · exact pure ""
    · rw [hat] at htarget
      change inputs.target name = target at htarget
      have hrun := hcode name
      have hmissing := @Raised.missing L nested b inputs next name
      have hinner := @Raised.inner L nested b inputs next name
      rw [htarget] at hrun hmissing hinner
      simp only [Option.map_some]
      split
      · exact pure ""
      · rename_i head hhead
        refine hrun.bind_run ?_
        rintro s (text | ⟨text, order⟩) s' hcame
        · simp only
          split
          · exact .ok ""
          · rename_i htext
            exact .error (GenerationError.fault_of hplain
              (hraised _ (hmissing hhead hcame (by simpa using htext))))
        · refine bind_lift ((Faults.isOrder order).mono hplain) ?_ s'
          rintro (_ | _) horder
          · exact fail (GenerationError.fault_of hplain
              (hraised _ (hinner hhead hcame horder)))
          · exact pure _

theorem nestedStatements (hcode : ∀ name, Risks P (L.codeOf nested false (inputs.target name)))
    (input : Value) : Risks P (L.nestedStatements (L.plugs nested inputs) input) := by
  unfold Language.nestedStatements
  refine bind_lift ((Faults.find _ input).mono hplain) ?_
  intro found hfound
  obtain ⟨name, -, rfl⟩ := find_iff.mp hfound
  have htarget := Inputs.target_eq_at? inputs name
  rcases hat : inputs.at? name with _ | ⟨n, kind, target⟩
  · exact pure ""
  · rw [hat] at htarget
    change inputs.target name = target at htarget
    have hrun := hcode name
    have hmisplaced := @Raised.misplaced L nested b inputs next name
    rw [htarget] at hrun hmisplaced
    simp only [Option.map_some]
    refine bind ?_ fun text => ?_
    · unfold Language.chained
      split
      · exact pure ""
      · rename_i head hhead
        refine hrun.bind_run ?_
        rintro s (text | ⟨text, order⟩) s' hcame
        · exact .ok text
        · exact .error (GenerationError.fault_of hplain (hraised _ (hmisplaced hhead hcame)))
    · split
      · exact pure ""
      · exact lift (((Faults.asText _).bind fun _ => .ok _).mono hplain)

theorem chained (hcode : Risks P (L.codeOf nested false next)) :
    Risks P (chained next (L.codeOf nested false next)) := by
  unfold Language.chained
  split
  · exact pure ""
  · rename_i head hhead
    refine hcode.bind_run ?_
    rintro s (text | ⟨text, order⟩) s' hcame
    · exact .ok text
    · exact .error (GenerationError.fault_of hplain (hraised _ (.behind hhead hcame)))

omit hraised in
theorem grant {result : Except Fault Names.Granted} (h : Faults Fault.Plain result) :
    Risks P (Session.grant result) :=
  bind (lift (h.mono hplain)) fun _ => bind (change _) fun _ => bind (change _) fun _ => pure _

/-- Each request is answered with faults of the inputs at most. -/
theorem answer (hnested : ∀ w, Risks P (nested w))
    (hcode : ∀ name, Risks P (L.codeOf nested false (inputs.target name))) (r : Request) :
    Risks P (L.answer nested b (L.plugs nested inputs) r) := by
  cases r with
  | value input order => exact plugged hplain hraised hcode input order
  | statements input => exact nestedStatements hplain hraised hcode input
  | comments input => exact lift ((Faults.pluggedComments _ input).mono hplain)
  | identifier name category caseSensitive =>
    exact bind (read _) fun names => grant hplain (.getFor names name category caseSensitive)
  | ownIdentifier name category =>
    exact bind (read _) fun names => grant hplain (.ownFor names name category)
  | helper desired lines =>
    exact bind (read _) fun pass => bind (change _) fun _ => bind (change _) fun _ =>
      lift ((Faults.ask pass.helpers pass.names desired lines _).mono hplain)
  | reserve words =>
    refine bind ?_ fun _ => pure ""
    cases words <;> first | exact change _ | exact fail (hplain _ nofun)
  | pass w => exact hnested w

omit hraised in
theorem withSurroundings {rest : Action String} (hrest : Risks P rest) (alone : Bool)
    (plugs : List Plug) (code : String) :
    Risks P (L.withSurroundings alone b plugs code rest) := by
  unfold Language.withSurroundings
  have hwhole : ∀ comments : String,
      Risks P (rest >>= fun behind => Pure.pure (comments ++ code ++ behind)) :=
    fun comments => bind hrest fun behind => pure _
  split
  · exact bind (lift ((Faults.commentsBefore L b plugs).mono hplain)) hwhole
  · exact bind (pure "") hwhole

theorem codeOfBlock (hnested : ∀ w, Risks P (nested w))
    (hcode : ∀ name, Risks P (L.codeOf nested false (inputs.target name)))
    (hnext : Risks P (L.codeOf nested false next))
    (hrule : ∀ rule, L.ruleFor b.type = .ok (some rule) → (rule b inputs).Raises P) (alone : Bool) :
    Risks P (L.codeOfBlock nested alone b inputs (L.plugs nested inputs)
      (Language.chained next (L.codeOf nested false next))) := by
  intro s
  unfold Language.codeOfBlock
  rw [Effect.bind_apply]
  unfold Language.ruleOf
  rw [Effect.bind_apply, Effect.lift_apply]
  have hrest := chained hplain hraised hnext
  rcases hfor : L.ruleFor b.type with fault | _ | rule
  · -- The type cannot be looked up at all.
    unfold Language.ruleFor at hfor
    split at hfor
    · cases hfor
    · cases hfor
      exact .error (hplain _ nofun)
  · exact .error (GenerationError.fault_of hplain (hraised _ (.unsupported hfor)))
  · refine bind (change _) (fun _ => ?_) s
    have hanswer := answer hplain hraised hnested hcode
    refine (perform hanswer (hrule rule hfor)).bind_run ?_
    intro s₁ result s₂ hcame
    cases result with
    | code text =>
      exact bind (withSurroundings hplain hrest alone _ text) (fun code => pure _) s₂
    | expression text order =>
      exact bind (withSurroundings hplain hrest alone _ text) (fun code => pure _) s₂
    | other v =>
      cases v <;> first
        | exact .error (GenerationError.fault_of hplain (hraised _ (.pair hfor hcame)))
        | exact .error (GenerationError.fault_of hplain (hraised _ (.noCode hfor hcame)))

end Block

/-- What the code of a chain fails with is raised at an enabled block in it, by a rule, or
nothing that is told as an error of generation. -/
theorem codeOf (hplain : ∀ fault, fault.Plain → P fault) (hnested : ∀ w, Risks P (nested w))
    (c : Chain)
    (hrules : c.All fun b inputs _ => ∀ rule, L.ruleFor b.type = .ok (some rule) →
      (rule b inputs).Raises P)
    (hraised : c.All fun b inputs next => b.isDisabled = false →
      ∀ e, Raised L nested b inputs next e → P (.generation e)) (alone : Bool) :
    Risks P (L.codeOf nested alone c) := by
  induction c using Chain.inductionOn generalizing alone with
  | nil => exact pure _
  | cons b inputs next hin hnext =>
    obtain ⟨hrule, hrulesIn, hrulesNext⟩ := Chain.all_cons.mp hrules
    obtain ⟨hown, hraisedIn, hraisedNext⟩ := Chain.all_cons.mp hraised
    have hbehind := hnext hrulesNext hraisedNext false
    rcases hdisabled : b.isDisabled with _ | _
    · rw [codeOf_enabled hdisabled]
      refine codeOfBlock hplain (hown hdisabled) hnested ?_ hbehind hrule alone
      intro name
      exact hin.of_target (fun _ _ _ => pure _) name (hrulesIn.of_target name)
        (hraisedIn.of_target name) false
    · rw [codeOf_disabled hdisabled]
      exact hbehind

theorem section? (hplain : ∀ fault, fault.Plain → P fault) (hnested : ∀ w, Risks P (nested w))
    {top : Chain}
    (hrules : top.All fun b inputs _ => ∀ rule, L.ruleFor b.type = .ok (some rule) →
      (rule b inputs).Raises P)
    (hraised : top.All fun b inputs next => b.isDisabled = false →
      ∀ e, Raised L nested b inputs next e → P (.generation e))
    (hstanding : ∀ text, Faults P (L.standing text)) : Risks P (L.section? nested top) := by
  unfold Language.section?
  refine bind (codeOf hplain hnested top hrules hraised true) fun code => ?_
  simp only
  split
  · exact pure none
  · split
    · exact bind (lift (hstanding code.text)) fun text => pure _
    · exact pure _

/-- What a pass fails with is raised at an enabled block of its workspace, by a rule, or
nothing that is told as an error of generation, unless another pass runs. -/
theorem pass (hplain : ∀ fault, fault.Plain → P fault)
    (hbusy : P (.generation (.reentrantPass L.title))) {w : Workspace}
    (hrules : w.All fun b inputs _ => ∀ rule, L.ruleFor b.type = .ok (some rule) →
      (rule b inputs).Raises P)
    (hraised : w.All fun b inputs next => b.isDisabled = false →
      ∀ e, Raised L (fun _ => L.refuse) b inputs next e → P (.generation e))
    (hstanding : ∀ text, Faults P (L.standing text)) : Risks P (L.pass w) := by
  intro s
  rcases hs : s.running with _ | _
  · rw [pass_result w s hs]
    have hsections : Risks P (w.trees.mapM (L.section? fun _ => L.refuse)) :=
      mapM fun top htop =>
        Risks.section? hplain (fun _ => fail hbusy) (hrules top htop) (hraised top htop) hstanding
    have hfaults : Faults P (L.sections w s).1 := hsections (L.opened w s)
    rcases hrun : L.sections w s with ⟨fault | sections, after⟩
    · rw [hrun] at hfaults
      exact .error (hfaults fault rfl)
    · exact .ok _
  · rw [pass_running L w s hs]
    exact .error hbusy

end Risks

end BlockCode
