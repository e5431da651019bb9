-- What runs come to, told without a word about how. The code of a chain comes to a result
-- just when its rule, its comments and the chain behind it do; an input gives an answer just
-- when the code in it can stand there. So a run that must succeed is put together from
-- parts that do, and a run that has succeeded falls into them.
import BlockCode.Proofs.Generation.Success

namespace BlockCode

open BlockCode.Language

/-! ## Work that must come to a result -/

namespace Effect

variable {σ ε α β : Type}

theorem bind_ok_iff {x : Effect σ ε α} {f : α → Effect σ ε β} {s s' : σ} {b : β} :
    (x >>= f) s = (.ok b, s') ↔ ∃ a between, x s = (.ok a, between) ∧ f a between = (.ok b, s') := by
  constructor
  · exact bind_succeeds
  · rintro ⟨a, between, hx, hf⟩
    rw [bind_ok hx, hf]

theorem bind_lift_ok_iff {result : Except ε α} {f : α → Effect σ ε β} {s s' : σ} {b : β} :
    (lift result >>= f) s = (.ok b, s') ↔ ∃ a, result = .ok a ∧ f a s = (.ok b, s') := by
  constructor
  · exact bind_lift_succeeds
  · rintro ⟨a, rfl, hf⟩
    exact hf

theorem lift_ok_iff {result : Except ε α} {s s' : σ} {a : α} :
    (lift result : Effect σ ε α) s = (.ok a, s') ↔ result = .ok a ∧ s' = s := by
  rw [lift_apply, Prod.mk.injEq]
  exact and_congr_right fun _ => eq_comm

/-- From every state the work comes to a result, and the result is of this kind. -/
def Comes (Kind : α → Prop) (x : Effect σ ε α) : Prop :=
  ∀ s, ∃ a s', x s = (.ok a, s') ∧ Kind a

namespace Comes

variable {Kind : α → Prop} {Kind' : β → Prop} {x : Effect σ ε α}

theorem lift {result : Except ε α} {a : α} (h : result = .ok a) (ha : Kind a) :
    Comes Kind (Effect.lift result : Effect σ ε α) := fun s => ⟨a, s, by rw [h, lift_apply], ha⟩

theorem pure {a : α} (ha : Kind a) : Comes Kind (Pure.pure a : Effect σ ε α) :=
  fun s => ⟨a, s, rfl, ha⟩

theorem bind (hx : Comes Kind x) {f : α → Effect σ ε β} (hf : ∀ a, Kind a → Comes Kind' (f a)) :
    Comes Kind' (x >>= f) := by
  intro s
  obtain ⟨a, between, hrun, ha⟩ := hx s
  obtain ⟨b, s', hrest, hb⟩ := hf a ha between
  exact ⟨b, s', bind_ok_iff.mpr ⟨a, between, hrun, hrest⟩, hb⟩

theorem mono {Weaker : α → Prop} (hx : Comes Kind x) (h : ∀ a, Kind a → Weaker a) :
    Comes Weaker x := by
  intro s
  obtain ⟨a, s', hrun, ha⟩ := hx s
  exact ⟨a, s', hrun, h a ha⟩

theorem mapM {f : α → Effect σ ε β} {values : List α}
    (h : ∀ a ∈ values, Comes Kind' (f a)) : Comes (fun _ => True) (values.mapM f) := by
  induction values with
  | nil => exact pure trivial
  | cons a rest ih =>
    rw [List.mapM_cons]
    refine (h a List.mem_cons_self).bind fun b _ => ?_
    exact (ih fun c hc => h c (List.mem_cons_of_mem a hc)).bind fun bs _ => pure trivial

end Comes

end Effect

/-! ## Work that leads to other work -/

/-- From good sessions, whenever the first work comes to a result, the second comes to one
that goes with it. Both leave the same session, which is good again. -/
def LeadsTo {α β : Type} (Good : Session → Prop) (R : α → β → Prop) (x : Action α) (y : Action β) :
    Prop :=
  ∀ s a s', Good s → x s = (.ok a, s') → Good s' ∧ ∃ b, y s = (.ok b, s') ∧ R a b

namespace LeadsTo

variable {α β γ δ : Type} {Good : Session → Prop} {R : α → β → Prop} {T : γ → δ → Prop}
  {x : Action α} {y : Action β}

theorem lift {result : Except Fault α} {result' : Except Fault β}
    (h : ∀ a, result = .ok a → ∃ b, result' = .ok b ∧ R a b) :
    LeadsTo Good R (Effect.lift result) (Effect.lift result') := by
  intro s a s' hgood hrun
  obtain ⟨hresult, rfl⟩ := Effect.lift_ok_iff.mp hrun
  obtain ⟨b, hb, hR⟩ := h a hresult
  exact ⟨hgood, b, Effect.lift_ok_iff.mpr ⟨hb, rfl⟩, hR⟩

theorem pure {a : α} {b : β} (h : R a b) : LeadsTo Good R (Pure.pure a : Action α) (Pure.pure b) := by
  intro s a' s' hgood hrun
  cases hrun
  exact ⟨hgood, b, rfl, h⟩

theorem bind (hx : LeadsTo Good R x y) {f : α → Action γ} {g : β → Action δ}
    (hf : ∀ a b, R a b → LeadsTo Good T (f a) (g b)) : LeadsTo Good T (x >>= f) (y >>= g) := by
  intro s c s' hgood hrun
  obtain ⟨a, between, ha, hc⟩ := Effect.bind_ok_iff.mp hrun
  obtain ⟨hbetween, b, hb, hR⟩ := hx s a between hgood ha
  obtain ⟨hafter, d, hd, hT⟩ := hf a b hR between c s' hbetween hc
  exact ⟨hafter, d, Effect.bind_ok_iff.mpr ⟨b, between, hb, hd⟩, hT⟩

theorem mono {Weaker : α → β → Prop} (hx : LeadsTo Good R x y) (h : ∀ a b, R a b → Weaker a b) :
    LeadsTo Good Weaker x y := by
  intro s a s' hgood hrun
  obtain ⟨hafter, b, hb, hR⟩ := hx s a s' hgood hrun
  exact ⟨hafter, b, hb, h a b hR⟩

theorem mapM {f : α → Action γ} {g : β → Action γ} {pair : α → β} {values : List α}
    (h : ∀ a ∈ values, LeadsTo Good Eq (f a) (g (pair a))) :
    LeadsTo Good Eq (values.mapM f) ((values.map pair).mapM g) := by
  induction values with
  | nil => exact pure rfl
  | cons a rest ih =>
    rw [List.mapM_cons, List.map_cons, List.mapM_cons]
    refine (h a List.mem_cons_self).bind ?_
    rintro c _ rfl
    refine (ih fun b hb => h b (List.mem_cons_of_mem a hb)).bind ?_
    rintro cs _ rfl
    exact pure rfl

end LeadsTo

/-! ## Scripts that end well -/

namespace Script

variable {α β : Type}

/-- The script asks for what it may, and whatever texts it is given, it ends with a result
of this kind. -/
def Ends (may : Request → Prop) (Kind : α → Prop) : Script α → Prop
  | done result => ∃ a, result = .ok a ∧ Kind a
  | ask r next => may r ∧ ∀ text, (next (.ok text)).Ends may Kind

namespace Ends

variable {may : Request → Prop} {Kind : α → Prop} {Kind' : β → Prop}

theorem pure {a : α} (ha : Kind a) : (Pure.pure a : Script α).Ends may Kind := ⟨a, rfl, ha⟩

theorem done {result : Except Fault α} {a : α} (h : result = .ok a) (ha : Kind a) :
    (Script.done result).Ends may Kind := ⟨a, h, ha⟩

theorem request {r : Request} (hr : may r) : (Script.request r).Ends may fun _ => True :=
  ⟨hr, fun text => ⟨text, rfl, trivial⟩⟩

theorem bind {x : Script α} {f : α → Script β} (hx : x.Ends may Kind)
    (hf : ∀ a, Kind a → (f a).Ends may Kind') : (x >>= f).Ends may Kind' := by
  induction x with
  | done result =>
    obtain ⟨a, rfl, ha⟩ := hx
    exact hf a ha
  | ask r next ih => exact ⟨hx.1, fun text => ih _ (hx.2 text)⟩

/-- A script ends well when all that it asks for is answered. -/
theorem perform {answer : Request → Action String} {x : Script α} (hx : x.Ends may Kind)
    (hanswer : ∀ r, may r → Effect.Comes (fun _ => True) (answer r)) :
    Effect.Comes Kind (Language.perform answer x) := by
  induction x with
  | done result =>
    obtain ⟨a, rfl, ha⟩ := hx
    exact Effect.Comes.lift rfl ha
  | ask r next ih =>
    intro s
    obtain ⟨text, between, hrun, -⟩ := hanswer r hx.1 s
    obtain ⟨a, s', hrest, ha⟩ := ih _ (hx.2 text) between
    exact ⟨a, s', (perform_ask hrun).trans hrest, ha⟩

end Ends

/-- A fault in an answer ends the script. -/
def Strict : Script α → Prop
  | done _ => True
  | ask _ next => (∀ fault, next (.error fault) = done (.error fault)) ∧
    ∀ text, (next (.ok text)).Strict

/-- A request has been answered when a script that a fault would end comes to a result. -/
theorem answered_of_perform {answer : Request → Action String} {r : Request}
    {next : Except Fault String → Script α} {s s' : Session} {a : α}
    (hfault : ∀ fault, next (.error fault) = done (.error fault))
    (h : perform answer (.ask r next) s = (.ok a, s')) :
    ∃ text between, answer r s = (.ok text, between) ∧
      perform answer (next (.ok text)) between = (.ok a, s') := by
  rcases hr : answer r s with ⟨fault | text, between⟩
  · rw [perform_ask hr, hfault] at h
    cases h
  · rw [perform_ask hr] at h
    exact ⟨text, between, rfl, h⟩

/-- A script that a fault ends leads to itself when its requests lead to the same answers. -/
theorem Strict.leads {Good : Session → Prop} {may : Request → Prop}
    {answer answer' : Request → Action String}
    (hanswer : ∀ r, may r → LeadsTo Good Eq (answer r) (answer' r)) {x : Script α} (hx : x.Strict)
    (hasks : x.Asks may) : LeadsTo Good Eq (perform answer x) (perform answer' x) := by
  induction x with
  | done result => exact LeadsTo.lift fun a ha => ⟨a, ha, rfl⟩
  | ask r next ih =>
    intro s a s' hgood hrun
    obtain ⟨text, between, hfirst, hrun⟩ := answered_of_perform hx.1 hrun
    obtain ⟨hbetween, _, hsecond, rfl⟩ := hanswer r hasks.1 s text between hgood hfirst
    obtain ⟨hafter, b, hrest, rfl⟩ := ih (.ok text) (hx.2 text) (hasks.2 _) between a s' hbetween hrun
    exact ⟨hafter, a, (perform_ask hsecond).trans hrest, rfl⟩

end Script

/-- A fault ends every rule of the language. -/
def Language.Strict (L : Language) : Prop :=
  ∀ b rule, L.ruleFor b.type = .ok (some rule) → ∀ inputs, (rule b inputs).Strict

/-! ## Inputs -/

namespace Language

variable {L : Language} {nested : Workspace → Action String} {b : Block} {inputs : Inputs}
  {alone : Bool} {s s' : Session} {text : String}

/-- What the code in an input for an expression is to the block around it. Statements
can stand there only if there are none. -/
inductive Gives (L : Language) (outer : Value) : Code → String → Prop
  | nothing : Gives L outer (.statements "") ""
  | expression {made : String} {inner : Value} : isOrder inner = .ok true →
    Gives L outer (.expression made inner) (L.bracketed made outer inner)

theorem find_iff {input : Value} {found : Option Plug} :
    Plug.find (L.plugs nested inputs) input = .ok found ↔
      ∃ name, input.asKey = .ok name ∧ found = (inputs.at? name).map fun (n, k, t) =>
        { name := n, kind := k, target := t, code := L.codeOf nested false t } := by
  constructor
  · intro h
    obtain ⟨name, hname⟩ := find_succeeds h
    rw [find_input hname] at h
    exact ⟨name, hname, (Except.ok.inj h).symm⟩
  · rintro ⟨name, hname, rfl⟩
    exact find_input hname

theorem plugged_iff {input outer : Value} :
    L.plugged b (L.plugs nested inputs) input outer s = (.ok text, s') ↔
      isOrder outer = .ok true ∧ ∃ name code, input.asKey = .ok name ∧
        L.codeOf nested false (inputs.target name) s = (.ok code, s') ∧ L.Gives outer code text := by
  unfold plugged
  rw [Effect.bind_lift_ok_iff]
  have hvalid : ∀ {valid : Bool} {work : Action String},
      ((if !valid then Effect.fail (GenerationError.invalidOuterOrder b outer).fault else work) s =
        (.ok text, s')) ↔ valid = true ∧ work s = (.ok text, s') := by
    intro valid work
    cases valid <;> simp [Effect.fail]
  simp only [hvalid, Effect.bind_lift_ok_iff]
  constructor
  · rintro ⟨valid, hvalid, rfl, found, hfound, hrun⟩
    obtain ⟨name, hname, rfl⟩ := find_iff.mp hfound
    refine ⟨hvalid, name, ?_⟩
    rw [Inputs.target_eq_at?]
    generalize inputs.at? name = found at hrun ⊢
    rcases found with _ | ⟨n, kind, _ | ⟨head, below, next⟩⟩
    · cases hrun
      exact ⟨_, hname, rfl, .nothing⟩
    · cases hrun
      exact ⟨_, hname, rfl, .nothing⟩
    · obtain ⟨code, between, hcode, hdone⟩ := Effect.bind_succeeds hrun
      refine ⟨code, hname, ?_⟩
      rcases code with made | ⟨made, inner⟩
      · simp only at hdone
        split at hdone
        · rename_i hempty
          cases hdone
          rw [beq_iff_eq] at hempty
          subst hempty
          exact ⟨hcode, .nothing⟩
        · cases hdone
      · obtain ⟨valid, hinner, hgiven⟩ := Effect.bind_lift_succeeds hdone
        cases valid with
        | false => cases hgiven
        | true =>
          cases hgiven
          exact ⟨hcode, .expression hinner⟩
  · rintro ⟨houter, name, code, hname, hcode, hgives⟩
    refine ⟨true, houter, rfl, _, find_iff.mpr ⟨name, hname, rfl⟩, ?_⟩
    rw [Inputs.target_eq_at?] at hcode
    generalize inputs.at? name = found at hcode ⊢
    rcases found with _ | ⟨n, kind, _ | ⟨head, below, next⟩⟩
    · cases hcode
      cases hgives
      rfl
    · cases hcode
      cases hgives
      rfl
    · refine Effect.bind_ok_iff.mpr ⟨code, s', hcode, ?_⟩
      cases hgives with
      | nothing => rfl
      | expression hinner => exact Effect.bind_lift_ok_iff.mpr ⟨true, hinner, rfl⟩

theorem chained_iff {c : Chain} : chained c (L.codeOf nested false c) s = (.ok text, s') ↔
    L.codeOf nested false c s = (.ok (.statements text), s') := by
  unfold chained
  cases c with
  | nil =>
    simp only [Chain.head?, codeOf]
    constructor <;>
    · intro h
      cases h
      rfl
  | cons head inputs next =>
    simp only [Chain.head?]
    rw [Effect.bind_ok_iff]
    constructor
    · rintro ⟨made | ⟨made, order⟩, between, hcode, hdone⟩
      · cases hdone
        exact hcode
      · cases hdone
    · exact fun hcode => ⟨_, s', hcode, rfl⟩

/-- The text of statements in an input. -/
def nest (L : Language) (made : String) : Except Fault String :=
  if made == "" then .ok "" else L.config.indented made

theorem nestedStatements_iff {input : Value} :
    L.nestedStatements (L.plugs nested inputs) input s = (.ok text, s') ↔
      ∃ name made, input.asKey = .ok name ∧
        L.codeOf nested false (inputs.target name) s = (.ok (.statements made), s') ∧
        L.nest made = .ok text := by
  have hnest : ∀ {made : String} {between : Session},
      (if made == "" then pure "" else Effect.lift (L.config.indented made) : Action String)
        between = (.ok text, s') ↔ L.nest made = .ok text ∧ s' = between := by
    intro made between
    rw [← Effect.lift_ok_iff]
    unfold nest
    split <;> rfl
  unfold nestedStatements
  rw [Effect.bind_lift_ok_iff]
  constructor
  · rintro ⟨found, hfound, hrun⟩
    obtain ⟨name, hname, rfl⟩ := find_iff.mp hfound
    refine ⟨name, ?_⟩
    rw [Inputs.target_eq_at?]
    generalize inputs.at? name = found at hrun ⊢
    rcases found with _ | ⟨n, kind, target⟩
    · cases hrun
      exact ⟨"", hname, rfl, rfl⟩
    · obtain ⟨made, between, hmade, hdone⟩ := Effect.bind_succeeds hrun
      obtain ⟨htext, rfl⟩ := hnest.mp hdone
      exact ⟨made, hname, chained_iff.mp hmade, htext⟩
  · rintro ⟨name, made, hname, hcode, htext⟩
    refine ⟨_, find_iff.mpr ⟨name, hname, rfl⟩, ?_⟩
    rw [Inputs.target_eq_at?] at hcode
    generalize inputs.at? name = found at hcode ⊢
    rcases found with _ | ⟨n, kind, target⟩
    · cases hcode
      cases htext
      rfl
    · exact Effect.bind_ok_iff.mpr ⟨made, s', chained_iff.mpr hcode, hnest.mpr ⟨htext, rfl⟩⟩

/-! ## Blocks -/

/-- The rules look at the names of the inputs and at nothing in them. -/
def LooksAtNames (L : Language) : Prop :=
  ∀ b rule, L.ruleFor b.type = .ok (some rule) → ∀ inputs inputs' : Inputs,
    (∀ name, inputs'.has name = inputs.has name) → rule b inputs' = rule b inputs

/-- The comment lines before the code of a block. -/
def remarks (L : Language) (alone : Bool) (b : Block) (plugs : List Plug) : Except Fault String :=
  if !b.givesValue || alone then L.commentsBefore b plugs else .ok ""

end Language

/-- The code that a rule made, with what stands before and behind it. -/
def RuleResult.between (before behind : String) : RuleResult → Option Code
  | code text => some (.statements (before ++ text ++ behind))
  | expression text order => some (.expression (before ++ text ++ behind) order)
  | other _ => none

theorem RuleResult.text_between {result : RuleResult} {before behind : String} {code : Code}
    (h : result.between before behind = some code) :
    code.text = before ++ result.text ++ behind := by
  cases result with
  | code text | expression text order =>
    cases h
    rfl
  | other v => cases h

namespace Language

variable {L : Language} {nested : Workspace → Action String} {b : Block} {inputs : Inputs}
  {next : Chain} {alone : Bool} {s s' : Session} {text : String}

theorem withSurroundings_iff {plugs : List Plug} {code : String} {rest : Action String} :
    L.withSurroundings alone b plugs code rest s = (.ok text, s') ↔
      ∃ before behind, L.remarks alone b plugs = .ok before ∧ rest s = (.ok behind, s') ∧
        text = before ++ code ++ behind := by
  have hremarks : L.withSurroundings alone b plugs code rest =
      (Effect.lift (L.remarks alone b plugs) >>= fun before => rest >>= fun behind =>
        pure (before ++ code ++ behind)) := by
    unfold withSurroundings remarks
    split <;> rfl
  rw [hremarks, Effect.bind_lift_ok_iff]
  constructor
  · rintro ⟨before, hbefore, hrest⟩
    obtain ⟨behind, last, hbehind, hdone⟩ := Effect.bind_succeeds hrest
    cases hdone
    exact ⟨before, behind, hbefore, hbehind, rfl⟩
  · rintro ⟨before, behind, hbefore, hbehind, rfl⟩
    exact ⟨before, hbefore, Effect.bind_ok_iff.mpr ⟨behind, s', hbehind, rfl⟩⟩

/-- A run goes on to the chain behind a block when the code of the block is there. -/
theorem goesOn_of_remarks {plugs : List Plug} {result : RuleResult} {before behind : String}
    {code : Code} (hremarks : L.remarks alone b plugs = .ok before)
    (hcode : result.between before behind = some code) : L.goesOn alone b plugs result = true := by
  have hon : ((b.givesValue && !alone) || (L.commentsBefore b plugs).isOk) = true := by
    unfold remarks at hremarks
    split at hremarks
    · rw [hremarks]
      simp [Except.isOk, Except.toBool]
    · rename_i hquiet
      simp only [Bool.or_eq_true, Bool.not_eq_true', not_or, Bool.not_eq_true,
        Bool.not_eq_false] at hquiet
      simp [hquiet]
  cases result with
  | other v => cases hcode
  | _ => exact hon

theorem ruleOf_iff {rule : Rule} :
    L.ruleOf b s = (.ok rule, s') ↔ L.ruleFor b.type = .ok (some rule) ∧ s' = s := by
  constructor
  · intro h
    have hsame := ruleOf_after (L := L) b s
    rw [h] at hsame
    exact ⟨ruleFor_of_ruleOf h, hsame⟩
  · rintro ⟨hrule, rfl⟩
    unfold ruleOf
    rw [hrule]
    rfl

/-- The code of an enabled block comes to a result just when its rule does, its comments
can be written, and the code of the chain behind it comes to statements. -/
theorem codeOf_iff (henabled : b.isDisabled = false) {code : Code} :
    L.codeOf nested alone (.cons b inputs next) s = (.ok code, s') ↔
      ∃ rule result after before behind, L.ruleFor b.type = .ok (some rule) ∧
        perform (L.answer nested b (L.plugs nested inputs)) (rule b inputs) s.counted =
          (.ok result, after) ∧
        L.remarks alone b (L.plugs nested inputs) = .ok before ∧
        L.codeOf nested false next after = (.ok (.statements behind), s') ∧
        result.between before behind = some code := by
  rw [codeOf_enabled henabled]
  unfold codeOfBlock
  constructor
  · intro h
    obtain ⟨rule, between, hrule, hwork⟩ := Effect.bind_succeeds h
    obtain ⟨hfor, rfl⟩ := ruleOf_iff.mp hrule
    change (perform _ (rule b inputs) >>= _) between.counted = _ at hwork
    obtain ⟨result, after, hrun, hmade⟩ := Effect.bind_succeeds hwork
    refine ⟨rule, result, after, ?_⟩
    cases result with
    | code text =>
      obtain ⟨made, last, hsurrounded, hdone⟩ := Effect.bind_succeeds hmade
      cases hdone
      obtain ⟨before, behind, hbefore, hbehind, rfl⟩ := withSurroundings_iff.mp hsurrounded
      exact ⟨before, behind, hfor, hrun, hbefore, chained_iff.mp hbehind, rfl⟩
    | expression text order =>
      obtain ⟨made, last, hsurrounded, hdone⟩ := Effect.bind_succeeds hmade
      cases hdone
      obtain ⟨before, behind, hbefore, hbehind, rfl⟩ := withSurroundings_iff.mp hsurrounded
      exact ⟨before, behind, hfor, hrun, hbefore, chained_iff.mp hbehind, rfl⟩
    | other v => cases v <;> cases hmade
  · rintro ⟨rule, result, after, before, behind, hfor, hrun, hbefore, hbehind, hcode⟩
    rw [Effect.bind_ok (ruleOf_iff.mpr ⟨hfor, rfl⟩)]
    show (perform _ (rule b inputs) >>= _) s.counted = _
    rw [Effect.bind_ok hrun]
    have hsurrounded : ∀ text, L.withSurroundings alone b (L.plugs nested inputs) text
        (chained next (L.codeOf nested false next)) after = (.ok (before ++ text ++ behind), s') :=
      fun text => withSurroundings_iff.mpr ⟨before, behind, hbefore, chained_iff.mpr hbehind, rfl⟩
    cases result with
    | code text =>
      cases hcode
      exact Effect.bind_ok_iff.mpr ⟨_, s', hsurrounded text, rfl⟩
    | expression text order =>
      cases hcode
      exact Effect.bind_ok_iff.mpr ⟨_, s', hsurrounded text, rfl⟩
    | other v => cases hcode

/-- A block that gives no value has its comments whether it stands alone or not. -/
theorem codeOf_alone {c : Chain} (h : ∀ b ∈ c.head?, b.givesValue = false) :
    L.codeOf nested alone c = L.codeOf nested false c := by
  cases c with
  | nil => rfl
  | cons b inputs next =>
    rcases hb : b.isDisabled with _ | _
    · have hgives : b.givesValue = false := h b rfl
      rw [codeOf_enabled hb, codeOf_enabled hb]
      unfold codeOfBlock withSurroundings
      simp only [hgives, Bool.not_false, Bool.true_or]
    · rw [codeOf_disabled hb, codeOf_disabled hb]

/-! ## Sections -/

/-- The section that the code of a top block makes. -/
def sectionOf (L : Language) (top : Chain) (text : String) : Except Fault (Option String) :=
  if text == "" then .ok none
  else if top.head?.any (·.givesValue) then some <$> L.standing text
  else .ok (some text)

/-- A section is the code of its top block, or a line that it stands in, unless there is no code. -/
theorem sectionOf_cases {top : Chain} {made : Option String} (h : L.sectionOf top text = .ok made) :
    (made = none ∧ text = "") ∨ ∃ shown, made = some shown ∧
      (shown = text ∨ L.standing text = .ok shown) := by
  unfold sectionOf at h
  split at h
  · rename_i hempty
    cases h
    exact Or.inl ⟨rfl, beq_iff_eq.mp hempty⟩
  · split at h
    · rcases hstanding : L.standing text with fault | line
      · rw [hstanding] at h
        cases h
      · rw [hstanding] at h
        cases h
        exact Or.inr ⟨line, rfl, Or.inr rfl⟩
    · cases h
      exact Or.inr ⟨text, rfl, Or.inl rfl⟩

/-- What can be told of code whether or not it is a line, can be told of its section. -/
theorem flatMap_sectionOf {β : Type} {f : String → List β}
    (hstanding : ∀ line, L.standing line = .ok (line ++ "\n")) (hempty : f "" = [])
    (hline : ∀ line, f (line ++ "\n") = f line) {top : Chain} {made : Option String}
    (h : L.sectionOf top text = .ok made) : made.toList.flatMap f = f text := by
  rcases sectionOf_cases h with ⟨rfl, rfl⟩ | ⟨shown, rfl, rfl | hshown⟩
  · exact hempty.symm
  · exact List.flatMap_singleton ..
  · rw [hstanding] at hshown
    cases hshown
    exact (List.flatMap_singleton ..).trans (hline text)

theorem section_eq (top : Chain) : L.section? nested top =
    (L.codeOf nested true top >>= fun code => Effect.lift (L.sectionOf top code.text)) := by
  unfold section? sectionOf
  congr 1
  funext code s
  by_cases hempty : (code.text == "") = true
  · simp only [hempty, if_true]
    rfl
  · by_cases hgives : top.head?.any (·.givesValue) = true
    · simp only [hempty, hgives, if_true, Bool.false_eq_true, if_false]
      rcases L.standing code.text with fault | line <;> rfl
    · simp only [hempty, hgives, Bool.false_eq_true, if_false]
      rfl

theorem section_iff {top : Chain} {made : Option String} :
    L.section? nested top s = (.ok made, s') ↔ ∃ code,
      L.codeOf nested true top s = (.ok code, s') ∧ L.sectionOf top code.text = .ok made := by
  rw [section_eq, Effect.bind_ok_iff]
  simp only [Effect.lift_ok_iff]
  constructor
  · rintro ⟨code, between, hcode, hmade, rfl⟩
    exact ⟨code, hcode, hmade⟩
  · rintro ⟨code, hcode, hmade⟩
    exact ⟨code, s', hcode, hmade, rfl⟩

/-! ## Programs -/

/-- The sections of a program that are not empty. -/
def written (L : Language) (nested : Workspace → Action String) (tops : List Chain) :
    Action (List String) := do
  let sections ← tops.mapM (L.section? nested)
  return sections.filterMap id

theorem written_cons (top : Chain) (rest : List Chain) : L.written nested (top :: rest) =
    (L.section? nested top >>= fun made => L.written nested rest >>= fun texts =>
      pure (made.toList ++ texts)) := by
  unfold written
  rw [List.mapM_cons, Effect.bind_assoc]
  congr 1
  funext made
  rw [Effect.bind_assoc, Effect.bind_assoc]
  congr 1
  funext sections
  cases made <;> rfl

theorem written_filter (tops : List Chain) :
    L.written nested (tops.filter (!·.isEmpty)) = L.written nested tops := by
  induction tops with
  | nil => rfl
  | cons top rest ih =>
    rw [List.filter_cons, written_cons]
    cases top with
    | nil =>
      have hnothing : L.section? nested .nil = pure none := rfl
      rw [hnothing, pure_bind, if_neg (by simp [Chain.isEmpty]), ih]
      exact (bind_pure _).symm
    | cons b inputs next =>
      rw [if_pos (by simp [Chain.isEmpty]), written_cons, ih]

/-- A pass makes a program just when its sections are made. -/
theorem pass_ok_iff {w : Workspace} (hs : s.running = false) {program : String} :
    (L.pass w s).1 = .ok program ↔ ∃ texts after,
      L.written (fun _ => L.refuse) w.trees (L.opened w s) = (.ok texts, after) ∧
        program = Text.clean (after.withDefinitions (joinSections texts)) := by
  rw [pass_result w s hs]
  unfold sections written
  rw [Effect.bind_apply]
  rcases w.trees.mapM (L.section? fun _ => L.refuse) (L.opened w s) with ⟨fault | made, after⟩
  · simp [programOf]
  · constructor
    · intro h
      exact ⟨_, after, rfl, (Except.ok.inj h).symm⟩
    · rintro ⟨texts, last, hwritten, rfl⟩
      cases hwritten
      rfl

theorem pass_gathered {w : Workspace} (hs : s.running = false) : (L.pass w s).2.pass =
    (L.written (fun _ => L.refuse) w.trees (L.opened w s)).2.pass := by
  rw [(pass_session w s hs).1]
  unfold sections written
  rw [Effect.bind_apply]
  rcases w.trees.mapM (L.section? fun _ => L.refuse) (L.opened w s) with ⟨fault | made, after⟩ <;> rfl

end Language
end BlockCode
