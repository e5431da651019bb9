-- Passes that rules begin while a pass runs. Each of them is refused on the spot and leaves
-- the session as it was, so a rule that catches the refusal goes on as if it had been told of
-- it and had begun nothing. When the outer pass has ended, however it ended, the next may begin.
import BlockCode.Proofs.Generation.Remarks
import BlockCode.Proofs.Generation.Twins

namespace BlockCode

open BlockCode.Language

/-! ## Work that comes to the same while a pass runs -/

/-- In every session in which a pass runs, both come to the same, and the pass runs on. -/
def Agree {α : Type} (x y : Action α) : Prop :=
  ∀ s, s.running = true → y s = x s ∧ (x s).2.running = true

namespace Agree

variable {α β : Type}

theorem of_keeps {x : Action α} (h : ∀ s, (x s).2.running = s.running) : Agree x x :=
  fun s hs => ⟨rfl, (h s).trans hs⟩

theorem lift (result : Except Fault α) : Agree (Effect.lift result) (Effect.lift result) :=
  of_keeps fun _ => rfl

theorem fail (fault : Fault) : Agree (Effect.fail fault : Action α) (Effect.fail fault) :=
  of_keeps fun _ => rfl

theorem pure (a : α) : Agree (Pure.pure a : Action α) (Pure.pure a) := of_keeps fun _ => rfl

theorem bind {x y : Action α} {f g : α → Action β} (hx : Agree x y)
    (hf : ∀ a, Agree (f a) (g a)) : Agree (x >>= f) (y >>= g) := by
  intro s hs
  obtain ⟨hsame, hruns⟩ := hx s hs
  rw [Effect.bind_apply, Effect.bind_apply, hsame]
  rcases hrun : x s with ⟨fault | a, s'⟩
  · rw [hrun] at hruns
    exact ⟨rfl, hruns⟩
  · rw [hrun] at hruns
    exact hf a s' hruns

theorem bind_lift {result : Except Fault α} {f g : α → Action β}
    (hf : ∀ a, result = .ok a → Agree (f a) (g a)) :
    Agree (Effect.lift result >>= f) (Effect.lift result >>= g) := by
  rcases hresult : result with fault | a
  · exact of_keeps fun _ => rfl
  · exact hf a hresult

theorem bind_known {γ : Type} {a : α} {c : γ} {f : α → Action β} {g : γ → Action β}
    (h : Agree (f a) (g c)) : Agree (Effect.lift (.ok a) >>= f) (Effect.lift (.ok c) >>= g) := h

theorem attempt {x y : Action α} (h : Agree x y) : Agree x.attempt y.attempt := by
  intro s hs
  obtain ⟨hsame, hruns⟩ := h s hs
  unfold Effect.attempt
  rw [hsame]
  exact ⟨rfl, hruns⟩

theorem mapM {f g : α → Action β} (h : ∀ a, Agree (f a) (g a)) (values : List α) :
    Agree (values.mapM f) (values.mapM g) := by
  induction values with
  | nil => exact pure []
  | cons a rest ih =>
    rw [List.mapM_cons, List.mapM_cons]
    exact bind (h a) fun b => bind ih fun bs => pure (b :: bs)

theorem of_same {x y z : Action α} (h : Agree x z) (h' : Agree y z) : Agree x y :=
  fun s hs => ⟨(h' s hs).1.symm.trans (h s hs).1, (h s hs).2⟩

end Agree

/-! ## Rules that begin no passes -/

/-- The script without the passes that it begins: it goes on at once as if each of them had
come to this fault. -/
def Script.unnested {α : Type} (fault : Fault) : Script α → Script α
  | .done result => .done result
  | .ask (.pass _) next => (next (.error fault)).unnested fault
  | .ask r next => .ask r fun answer => (next answer).unnested fault

def Request.isPass : Request → Bool
  | .pass _ => true
  | _ => false

theorem Script.asks_unnested {α : Type} (fault : Fault) (x : Script α) :
    (x.unnested fault).Asks (·.isPass = false) := by
  induction x with
  | done result => exact trivial
  | ask r next ih =>
    cases r with
    | pass w => exact ih (.error fault)
    | _ => exact ⟨rfl, fun answer => ih answer⟩

/-- The rule without the passes that it begins. -/
def Rule.unnested (fault : Fault) (rule : Rule) : Rule := fun b inputs =>
  (rule b inputs).unnested fault

namespace Language

variable {L : Language} {nested nested' : Workspace → Action String}

/-- What a pass comes to that is begun inside another. -/
def refusal (L : Language) : Fault := .generation (.reentrantPass L.title)

/-- The language whose rules begin no passes, and go on as if each had been refused. -/
def unnested (L : Language) : Language :=
  { L with rules := L.rules.map fun (t, rule) => (t, rule.unnested L.refusal) }

theorem ruleFor_unnested (type : Value) :
    L.unnested.ruleFor type = (L.ruleFor type).map (·.map (Rule.unnested L.refusal)) := by
  have hrule : L.unnested.rule? type = (L.rule? type).map (Rule.unnested L.refusal) := by
    unfold rule? unnested
    rw [List.find?_map, Option.map_map, Option.map_map]
    rfl
  unfold ruleFor
  rw [hrule]
  split <;> rfl

theorem ruleOf_unnested (b : Block) : ∃ found : Except Fault Rule,
    L.ruleOf b = Effect.lift found ∧
      L.unnested.ruleOf b = Effect.lift (found.map (Rule.unnested L.refusal)) := by
  unfold ruleOf
  rw [ruleFor_unnested]
  rcases L.ruleFor b.type with fault | _ | rule
  · exact ⟨.error fault, rfl, rfl⟩
  · exact ⟨.error (GenerationError.unsupportedType L.name b.type (some b)).fault, rfl, rfl⟩
  · exact ⟨.ok rule, rfl, rfl⟩

theorem unnested_onlyAsks (L : Language) : L.unnested.OnlyAsks (·.isPass = false) := by
  intro b rule hrule inputs
  rw [ruleFor_unnested] at hrule
  rcases hfound : L.ruleFor b.type with fault | _ | own
  · rw [hfound] at hrule
    cases hrule
  · rw [hfound] at hrule
    cases hrule
  · rw [hfound] at hrule
    cases hrule
    exact Script.asks_unnested L.refusal (own b inputs)

theorem commentsBefore_unnested (b : Block) (inputs : Inputs) :
    L.unnested.commentsBefore b (L.unnested.plugs nested' inputs) =
      L.commentsBefore b (L.plugs nested inputs) := by
  rw [commentsBefore_eq, commentsBefore_eq]
  rfl

/-! ## The code of blocks without nested passes -/

/-- Passes that are begun while one runs are refused, and leave the session as it is. -/
def Refuses (L : Language) (nested : Workspace → Action String) : Prop :=
  ∀ w s, s.running = true → nested w s = (.error L.refusal, s)

/-- The code of a chain is the same without nested passes. -/
def CodeAgrees (L : Language) (nested nested' : Workspace → Action String) (c : Chain) : Prop :=
  ∀ alone, Agree (L.codeOf nested alone c) (L.unnested.codeOf nested' alone c)

theorem agree_chained {c : Chain} {x y : Action Code} (h : Agree x y) :
    Agree (chained c x) (chained c y) := by
  unfold chained
  split
  · exact Agree.pure ""
  · refine Agree.bind h fun code => ?_
    cases code with
    | statements text => exact Agree.pure text
    | expression text order => exact Agree.fail _

theorem agree_withSurroundings {alone : Bool} {b : Block} {inputs : Inputs} {code : String}
    {x y : Action String} (h : Agree x y) :
    Agree (L.withSurroundings alone b (L.plugs nested inputs) code x)
      (L.unnested.withSurroundings alone b (L.unnested.plugs nested' inputs) code y) := by
  have hcomments : L.unnested.commentsBefore b (L.unnested.plugs nested' inputs) =
      L.commentsBefore b (L.plugs nested inputs) := commentsBefore_unnested b inputs
  unfold withSurroundings
  rw [hcomments]
  split
  · exact Agree.bind (Agree.lift _) fun comments => Agree.bind h fun text => Agree.pure _
  · exact Agree.bind (Agree.pure "") fun comments => Agree.bind h fun text => Agree.pure _

section Inputs

variable {inputs : Inputs} (hin : inputs.Every (L.CodeAgrees nested nested'))
include hin

theorem agree_find {β : Type} {input : Value} {f g : Option Plug → Action β}
    (hnone : Agree (f none) (g none))
    (hsome : ∀ name kind target, L.CodeAgrees nested nested' target →
      Agree (f (some ⟨name, kind, target, L.codeOf nested false target⟩))
        (g (some ⟨name, kind, target, L.unnested.codeOf nested' false target⟩))) :
    Agree (Effect.lift (Plug.find (L.plugs nested inputs) input) >>= f)
      (Effect.lift (Plug.find (L.unnested.plugs nested' inputs) input) >>= g) := by
  rcases hkey : input.asKey with fault | key
  · have hfails : ∀ plugs, Plug.find plugs input = .error fault := by
      intro plugs
      unfold Plug.find
      rw [hkey]
      rfl
    rw [hfails, hfails]
    exact Agree.of_keeps fun _ => rfl
  · rw [find_input hkey, find_input hkey]
    rcases hat : inputs.at? key with _ | ⟨name, kind, target⟩
    · exact hnone
    · exact hsome name kind target (hin.of_at? hat)

theorem agree_plugged (b : Block) (input outer : Value) :
    Agree (L.plugged b (L.plugs nested inputs) input outer)
      (L.unnested.plugged b (L.unnested.plugs nested' inputs) input outer) := by
  unfold plugged
  refine Agree.bind_lift fun valid _ => ?_
  split
  · exact Agree.fail _
  · apply agree_find hin
    · exact Agree.pure ""
    · intro name kind target htarget
      cases target with
      | nil => exact Agree.pure ""
      | cons head inputs next =>
        refine Agree.bind (htarget false) fun code => ?_
        cases code with
        | statements text =>
          simp only
          split
          · exact Agree.pure ""
          · exact Agree.fail _
        | expression text inner =>
          refine Agree.bind_lift fun valid _ => ?_
          split
          · exact Agree.pure _
          · exact Agree.fail _

theorem agree_nestedStatements (input : Value) :
    Agree (L.nestedStatements (L.plugs nested inputs) input)
      (L.unnested.nestedStatements (L.unnested.plugs nested' inputs) input) := by
  unfold nestedStatements
  apply agree_find hin
  · exact Agree.pure ""
  · intro name kind target htarget
    refine Agree.bind (agree_chained (htarget false)) fun text => ?_
    split
    · exact Agree.pure ""
    · exact Agree.lift _

theorem agree_answer (b : Block) {r : Request} (hr : r.isPass = false) :
    Agree (L.answer nested b (L.plugs nested inputs) r)
      (L.unnested.answer nested' b (L.unnested.plugs nested' inputs) r) := by
  cases r with
  | value input outer => exact agree_plugged hin b input outer
  | statements input => exact agree_nestedStatements hin input
  | comments input =>
    have hcomments : ∀ plugs : List Plug, (Effect.lift (pluggedComments plugs input) : Action _) =
        Effect.lift (Plug.find plugs input) >>= fun found =>
          Effect.lift ((found.map (·.target.comments)).getD (.ok "")) := by
      intro plugs
      unfold pluggedComments
      rcases Plug.find plugs input with fault | _ | plug <;> rfl
    simp only [answer, hcomments]
    exact agree_find hin (Agree.lift _) fun name kind target _ => Agree.lift _
  | identifier name category caseSensitive =>
    refine Agree.of_keeps fun s => ?_
    simp only [answer, Session.identifier_apply]
    rcases s.pass.names.getFor name category caseSensitive with fault | granted <;> rfl
  | ownIdentifier name category =>
    refine Agree.of_keeps fun s => ?_
    simp only [answer, Session.ownIdentifier_apply]
    rcases s.pass.names.ownFor name category with fault | granted <;> rfl
  | helper desired lines => exact Agree.of_keeps fun _ => rfl
  | reserve words => exact Agree.of_keeps fun s => by cases words <;> rfl
  | pass w => cases hr

/-- A rule that is refused its passes comes to what it comes to without them. -/
theorem agree_perform (hnested : L.Refuses nested) {α : Type} (b : Block) (x : Script α) :
    Agree (perform (L.answer nested b (L.plugs nested inputs)) x)
      (perform (L.unnested.answer nested' b (L.unnested.plugs nested' inputs))
        (x.unnested L.refusal)) := by
  induction x with
  | done result => exact Agree.lift result
  | ask r next ih =>
    cases r with
    | pass w =>
      intro s hs
      have hrefused : L.answer nested b (L.plugs nested inputs) (.pass w) s =
          (.error L.refusal, s) := hnested w s hs
      rw [perform_ask hrefused]
      exact ih (.error L.refusal) s hs
    | _ => exact Agree.bind (Agree.attempt (agree_answer hin b rfl)) ih

theorem agree_codeOfBlock (hnested : L.Refuses nested) {alone : Bool} {b : Block}
    {x y : Action String} (h : Agree x y) :
    Agree (L.codeOfBlock nested alone b inputs (L.plugs nested inputs) x)
      (L.unnested.codeOfBlock nested' alone b inputs (L.unnested.plugs nested' inputs) y) := by
  unfold codeOfBlock
  obtain ⟨found, hfound, hfound'⟩ := ruleOf_unnested (L := L) b
  rw [hfound, hfound']
  rcases found with fault | rule
  · exact Agree.bind_lift nofun
  · apply Agree.bind_known
    refine Agree.bind (Agree.of_keeps fun _ => rfl) fun _ => ?_
    refine Agree.bind (agree_perform hin hnested b (rule b inputs)) fun result => ?_
    cases result with
    | code text => exact Agree.bind (agree_withSurroundings h) fun text => Agree.pure _
    | expression text order =>
      exact Agree.bind (agree_withSurroundings h) fun text => Agree.pure _
    | other v => cases v <;> exact Agree.fail _

end Inputs

theorem agree_codeOf (hnested : L.Refuses nested) (c : Chain) : L.CodeAgrees nested nested' c := by
  induction c using Chain.inductionOn with
  | nil =>
    intro alone
    exact Agree.pure _
  | cons b inputs next hin hnext =>
    intro alone
    rcases hb : b.isDisabled with _ | _
    · rw [codeOf_enabled hb, codeOf_enabled hb]
      exact agree_codeOfBlock hin hnested (agree_chained (hnext false))
    · rw [codeOf_disabled hb, codeOf_disabled hb]
      exact hnext false

theorem agree_section (hnested : L.Refuses nested) (top : Chain) :
    Agree (L.section? nested top) (L.unnested.section? nested' top) := by
  unfold section?
  refine Agree.bind (agree_codeOf hnested top true) fun code => ?_
  simp only
  split
  · exact Agree.pure none
  · split
    · exact Agree.bind (Agree.lift _) fun text => Agree.pure (some text)
    · exact Agree.pure _

theorem agree_passBody (hnested : L.Refuses nested) (w : Workspace) :
    Agree (L.passBody nested w) (L.unnested.passBody nested' w) := by
  unfold passBody
  refine Agree.bind (Agree.of_keeps fun _ => rfl) fun _ => ?_
  refine Agree.bind (Agree.of_keeps fun _ => rfl) fun _ => ?_
  refine Agree.bind (Agree.mapM (agree_section hnested) w.trees) fun sections => ?_
  refine Agree.bind (Agree.of_keeps fun _ => rfl) fun code => ?_
  refine Agree.bind (Agree.of_keeps fun _ => rfl) fun pass => ?_
  exact Agree.bind (Agree.of_keeps fun _ => rfl) fun _ => Agree.pure code

/-! ## What becomes of nested passes -/

/-- If the request was for a pass, it was refused and changed nothing. -/
def Turned (L : Language) (e : Served) : Prop :=
  ∀ v, e.request = .pass v → e.outcome = .error L.refusal ∧ e.after = e.before

/-- All passes that are begun on the way are refused, if a pass runs at the start. -/
def Turns (L : Language) (served : Session → List Served) : Prop :=
  ∀ s, s.running = true → ∀ e ∈ served s, L.Turned e

theorem answer_running (hnested : L.Refuses nested) (b : Block) (inputs : Inputs) (r : Request)
    {s : Session} (hs : s.running = true) :
    (L.answer nested b (L.plugs nested inputs) r s).2.running = true := by
  have hin : inputs.Every (L.CodeAgrees nested nested) :=
    inputs.every_of_forall (agree_codeOf hnested)
  rcases hr : r.isPass with _ | _
  · exact ((agree_answer hin b hr) s hs).2
  · cases r with
    | pass v =>
      simp only [answer, hnested v s hs]
      exact hs
    | _ => cases hr

theorem turns_within {inputs : Inputs}
    (hin : inputs.Every fun c => ∀ alone, L.Turns (L.trail nested alone c)) (r : Request) :
    L.Turns ((L.trails nested inputs).within r) := by
  intro s hs
  have hinside : ∀ input, ∀ e ∈ (L.trails nested inputs).inside input s, L.Turned e := by
    intro input
    unfold Gathered.inside
    rcases input.asKey with fault | key
    · exact List.forall_mem_nil _
    · simp only [find_trails]
      rcases hat : inputs.at? key with _ | ⟨name, kind, target⟩
      · exact List.forall_mem_nil _
      · exact hin.of_at? hat false s hs
  cases r with
  | value input outer =>
    simp only [Gathered.within]
    rcases isOrder outer with fault | _ | _
    · exact List.forall_mem_nil _
    · exact List.forall_mem_nil _
    · exact hinside input
  | statements input => exact hinside input
  | _ => exact List.forall_mem_nil _

theorem turns_script (hnested : L.Refuses nested) {inputs : Inputs}
    (hin : inputs.Every fun c => ∀ alone, L.Turns (L.trail nested alone c)) (b : Block)
    {α : Type} (x : Script α) :
    L.Turns (x.served (L.answer nested b (L.plugs nested inputs))
      (L.trails nested inputs).within b inputs) := by
  induction x with
  | done result => exact fun _ _ => List.forall_mem_nil _
  | ask r next ih =>
    intro s hs
    have hruns := answer_running hnested b inputs r hs
    unfold Script.served
    rcases hanswer : L.answer nested b (L.plugs nested inputs) r s with ⟨outcome, after⟩
    rw [hanswer] at hruns
    refine List.forall_mem_append.mpr ⟨turns_within hin r s hs, List.forall_mem_cons.mpr ⟨?_, ?_⟩⟩
    · rintro v hv
      cases hv
      have hrefused : (outcome, after) = (.error L.refusal, s) :=
        hanswer.symm.trans (hnested v s hs)
      exact ⟨congrArg Prod.fst hrefused, congrArg Prod.snd hrefused⟩
    · exact ih outcome after hruns

theorem turns_trail (hnested : L.Refuses nested) (c : Chain) (alone : Bool) :
    L.Turns (L.trail nested alone c) := by
  induction c using Chain.inductionOn generalizing alone with
  | nil => exact fun _ _ => List.forall_mem_nil _
  | cons b inputs next hin hnext =>
    intro s hs
    rw [trail]
    split
    · exact hnext false s hs
    · have hsame := ruleOf_after (L := L) b s
      rcases hrule : L.ruleOf b s with ⟨fault | rule, s₁⟩
      · exact List.forall_mem_nil _
      · rw [hrule] at hsame
        cases hsame
        have hown := turns_script hnested hin b (rule b inputs) s₁.counted hs
        have hcode : inputs.Every (L.CodeAgrees nested nested) :=
          inputs.every_of_forall (agree_codeOf hnested)
        have hruns := (agree_perform hcode hnested b (rule b inputs) s₁.counted hs).2
        simp only
        rcases hrun : perform (L.answer nested b (L.plugs nested inputs)) (rule b inputs)
          s₁.counted with ⟨fault | result, s₂⟩
        · exact hown
        · rw [hrun] at hruns
          refine List.forall_mem_append.mpr ⟨hown, ?_⟩
          split
          · exact hnext false s₂ hruns
          · exact List.forall_mem_nil _

theorem turns_tops (hnested : L.Refuses nested) (tops : List Chain) :
    L.Turns (L.trailOfTops nested tops) := by
  induction tops with
  | nil => exact fun _ _ => List.forall_mem_nil _
  | cons top rest ih =>
    intro s hs
    have hsame : Agree (L.section? nested top) (L.unnested.section? nested top) :=
      agree_section hnested top
    have hruns := (hsame s hs).2
    unfold trailOfTops
    refine List.forall_mem_append.mpr ⟨turns_trail hnested top true s hs, ?_⟩
    rcases hrun : L.section? nested top s with ⟨fault | text, s₁⟩
    · exact List.forall_mem_nil _
    · rw [hrun] at hruns
      exact ih s₁ hruns

/-! ## Passes -/

theorem guarded_of_agree {α : Type} {x y : Action α} (h : Agree x y) :
    L.guarded y = L.guarded x := by
  funext s
  unfold guarded
  rw [(h { s with running := true } rfl).1]

theorem refuses_refuse : L.Refuses fun _ => L.refuse := fun _ _ _ => rfl

theorem refuses_pass : L.Refuses L.pass := pass_running L

/-- Whatever is asked for the passes inside a pass, as long as it refuses them while one
runs, the pass is the same. -/
theorem pass_nested (hnested : L.Refuses nested) (w : Workspace) :
    L.guarded (L.passBody nested w) = L.pass w := by
  have hrefused : Agree (L.passBody (fun _ => L.refuse) w) (L.unnested.passBody nested w) :=
    agree_passBody refuses_refuse w
  exact guarded_of_agree (hrefused.of_same (agree_passBody hnested w))

/-- A pass is the pass of the language whose rules begin none. -/
theorem pass_unnested (w : Workspace) : L.unnested.pass w = L.pass w :=
  guarded_of_agree (agree_passBody refuses_refuse w)

/-- Passes whose rules begin passes of the same kind are none other than the passes of the
language. -/
theorem pass_unique (P : Workspace → Action String) :
    (∀ w, P w = L.guarded (L.passBody P w)) ↔ P = L.pass := by
  constructor
  · intro hP
    have hrefuses : L.Refuses P := by
      intro w s hs
      rw [hP w]
      unfold guarded
      rw [if_pos hs]
      rfl
    funext w
    rw [hP w, pass_nested hrefuses]
  · rintro rfl w
    exact (pass_nested refuses_pass w).symm

/-! ## Calls, one after the other -/

/-- Work that is let in: it is done, as a pass that runs, and no pass runs behind it. -/
theorem guarded_idle {α : Type} (work : Action α) {s : Session} (hs : s.running = false) :
    L.guarded work s = ((work { s with running := true }).1,
      { (work { s with running := true }).2 with running := false }) := by
  unfold guarded
  rw [hs]
  rfl

/-- The session behind calls that come one after the other, whatever is done in each of
them and however it ends. -/
def afterCalls (L : Language) (s : Session) (calls : List (Action String)) : Session :=
  calls.foldl (fun s work => (L.guarded work s).2) s

theorem running_afterCalls (calls : List (Action String)) {s : Session}
    (hs : s.running = false) : (L.afterCalls s calls).running = false := by
  induction calls generalizing s with
  | nil => exact hs
  | cons work rest ih =>
    refine ih (s := (L.guarded work s).2) ?_
    rw [guarded_idle work hs]

/-- A pass that is begun while one runs is refused and changes nothing, so the pass that
runs is that of rules that begin none and go on as if they had been refused. This is what it
means to make nested passes in the same way as any other: no other passes than those of
the language do so. Behind every call, whatever was done in it and however it ended, no pass
runs, and the next call is let in. -/
theorem reentrance_guarded (L : Language) :
    (∀ w s, s.running = true → L.pass w s = (.error L.refusal, s)) ∧
    (∀ w s, ∀ e ∈ L.trailOfTops L.pass w.trees (L.opened w s), ∀ v, e.request = .pass v →
      e.outcome = .error L.refusal ∧ e.after = e.before) ∧
    (∀ P : Workspace → Action String,
      (∀ w, P w = L.guarded (L.passBody P w)) ↔ P = L.pass) ∧
    (∀ w, L.unnested.pass w = L.pass w) ∧ L.unnested.OnlyAsks (·.isPass = false) ∧
    ∀ (s : Session) (calls : List (Action String)), s.running = false →
      (L.afterCalls s calls).running = false ∧
      ∀ work : Action String, L.guarded work (L.afterCalls s calls) =
        ((work { L.afterCalls s calls with running := true }).1,
          { (work { L.afterCalls s calls with running := true }).2 with running := false }) := by
  refine ⟨pass_running L, ?_, pass_unique, pass_unnested, unnested_onlyAsks L, ?_⟩
  · intro w s
    exact turns_tops refuses_pass w.trees (L.opened w s) rfl
  · intro s calls hs
    have hidle := running_afterCalls (L := L) calls hs
    exact ⟨hidle, fun work => guarded_idle work hidle⟩

/-- A language whose only rule begins two passes and does not care what comes of them. -/
def stubborn : Language where
  name := .str "Toy"
  rules := [(.str "again", fun _ _ =>
    .ask (.pass {}) fun _ => .ask (.pass {}) fun _ => .done (.ok (.code "again\n")))]

def onlyAgain : Workspace where
  nodes := [{ block := { type := .str "again", id := .str "b1" } }]
  members := [0]

/-- The pass comes to its text, both passes inside it were refused, and behind a call that
was broken off the pass begins anew. -/
theorem again_refused :
    (stubborn.pass onlyAgain (Session.new stubborn)).1 = .ok "again\n" ∧
    stubborn.pass {} { Session.new stubborn with running := true } =
      (.error stubborn.refusal, { Session.new stubborn with running := true }) ∧
    (stubborn.trailOfTops stubborn.pass onlyAgain.trees
      (stubborn.opened onlyAgain (Session.new stubborn))).length = 2 ∧
    (∀ e ∈ stubborn.trailOfTops stubborn.pass onlyAgain.trees
      (stubborn.opened onlyAgain (Session.new stubborn)), e.outcome = .error stubborn.refusal) ∧
    (stubborn.afterCalls (Session.new stubborn) [Effect.fail .noParts]).running = false := by
  obtain ⟨hrunning, htrail, -, -, -, hcalls⟩ := reentrance_guarded stubborn
  refine ⟨rfl, hrunning {} _ rfl, rfl, fun e he => ?_, (hcalls _ _ rfl).1⟩
  have hpass : e.request = .pass {} := by
    rcases List.mem_cons.mp he with rfl | he
    · rfl
    · cases List.mem_singleton.mp he
      rfl
  exact (htrail onlyAgain (Session.new stubborn) e he {} hpass).1

end Language
end BlockCode
