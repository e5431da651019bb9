-- What the code of blocks comes to, said beforehand. When an estimate of the rules tells from
-- the blocks alone whether a rule fails, and else whether it makes statements or an expression,
-- the same can be told of chains and of whole programs: no session has a say in it.
import BlockCode.Proofs.Generation.Remarks
import BlockCode.Proofs.Generation.Running

namespace BlockCode

open BlockCode.Language

/-! ## Results that go together -/

/-- Both are the same fault, or they are results that go together. -/
inductive Goes {ε α β : Type} (R : α → β → Prop) : Except ε α → Except ε β → Prop
  | error (fault : ε) : Goes R (.error fault) (.error fault)
  | ok {a : α} {b : β} : R a b → Goes R (.ok a) (.ok b)

/-- From every session the work comes to what was said beforehand. -/
def Judged {α β : Type} (R : α → β → Prop) (x : Action α) (said : Except Fault β) : Prop :=
  ∀ s, Goes R (x s).1 said

namespace Goes

variable {ε α β γ δ : Type} {R : α → β → Prop} {T : γ → δ → Prop}

theorem bind {x : Except ε α} {y : Except ε β} {f : α → Except ε γ} {g : β → Except ε δ}
    (h : Goes R x y) (hf : ∀ a b, R a b → Goes T (f a) (g b)) : Goes T (x >>= f) (y >>= g) := by
  cases h with
  | error fault => exact .error fault
  | ok hR => exact hf _ _ hR

theorem map {x : Except ε α} {y : Except ε β} {Q : γ → β → Prop} (h : Goes R x y) (f : α → γ)
    (hf : ∀ a b, R a b → Q (f a) b) : Goes Q (x.map f) y := by
  cases h with
  | error fault => exact .error fault
  | ok hR => exact .ok (hf _ _ hR)

theorem error_iff {x : Except ε α} {y : Except ε β} (h : Goes R x y) (fault : ε) :
    x = .error fault ↔ y = .error fault := by
  cases h with
  | error fault' => simp
  | ok _ => simp

theorem ok_iff {x : Except ε α} {y : Except ε β} (h : Goes R x y) :
    (∃ a, x = .ok a) ↔ ∃ b, y = .ok b := by
  cases h with
  | error fault => simp
  | ok _ => simp

theorem map_unit (x : Except ε α) : Goes (fun _ _ => True) x (x.map fun _ => ()) := by
  cases x with
  | error fault => exact .error fault
  | ok a => exact .ok trivial

theorem followed {x : Except ε α} {said : Except ε Unit} {f : α → Except ε γ}
    (h : Goes (fun _ _ => True) x said)
    (hf : ∀ a, Goes (fun _ (_ : Unit) => True) (f a) (.ok ())) :
    Goes (fun _ _ => True) (x >>= f) said := by
  cases h with
  | error fault => exact .error fault
  | ok _ => exact hf _

theorem mapM_forM {f : α → Except ε γ} {g : α → Except ε Unit} {values : List α}
    (h : ∀ a ∈ values, Goes (fun _ _ => True) (f a) (g a)) :
    Goes (fun _ _ => True) (values.mapM f) (values.forM g) := by
  induction values with
  | nil => exact .ok trivial
  | cons a rest ih =>
    rw [List.mapM_cons]
    show Goes _ _ (g a >>= fun _ => rest.forM g)
    refine (h a List.mem_cons_self).bind fun _ _ _ => ?_
    have hrest : Goes (fun _ _ => True) (rest.mapM f) (rest.forM g) :=
      ih fun b hb => h b (List.mem_cons_of_mem a hb)
    exact hrest.followed fun bs => .ok trivial

end Goes

namespace Judged

variable {α β γ δ : Type} {R : α → β → Prop} {T : γ → δ → Prop}

theorem lift {result : Except Fault α} {said : Except Fault β} (h : Goes R result said) :
    Judged R (Effect.lift result) said := fun _ => h

theorem fail {fault : Fault} : Judged R (Effect.fail fault : Action α) (.error fault) :=
  fun _ => .error fault

theorem pure {a : α} {b : β} (h : R a b) : Judged R (Pure.pure a : Action α) (.ok b) :=
  fun _ => .ok h

theorem bind {x : Action α} {said : Except Fault β} {f : α → Action γ} {g : β → Except Fault δ}
    (hx : Judged R x said) (hf : ∀ a b, R a b → Judged T (f a) (g b)) :
    Judged T (x >>= f) (said >>= g) := by
  intro s
  have hfirst := hx s
  rw [Effect.bind_apply]
  rcases hrun : x s with ⟨fault | a, s'⟩
  · rw [hrun] at hfirst
    cases hfirst
    exact .error fault
  · rw [hrun] at hfirst
    cases hfirst with
    | ok hR => exact hf a _ hR s'

theorem followed {x : Action α} {said : Except Fault Unit} {f : α → Action γ} {P : γ → Prop}
    (hx : Judged (fun _ _ => True) x said)
    (hf : ∀ a, Judged (fun c (_ : Unit) => P c) (f a) (.ok ())) :
    Judged (fun c _ => P c) (x >>= f) said := by
  have hsame : (said >>= fun _ => .ok ()) = said := by cases said <;> rfl
  rw [← hsame]
  exact hx.bind fun a _ _ => hf a

theorem bind_ok {a : α} {f : α → Action γ} {said : Except Fault δ} (h : Judged T (f a) said) :
    Judged T (Effect.lift (.ok a) >>= f) said := h

theorem change_bind {f : Session → Session} {g : Unit → Action γ} {said : Except Fault δ}
    (h : Judged T (g ()) said) : Judged T (Effect.change f >>= g) said := fun s => h (f s)

theorem mapM_forM {f : α → Action γ} {g : α → Except Fault Unit} {values : List α}
    (h : ∀ a ∈ values, Judged (fun _ _ => True) (f a) (g a)) :
    Judged (fun _ _ => True) (values.mapM f) (values.forM g) := by
  induction values with
  | nil => exact pure trivial
  | cons a rest ih =>
    rw [List.mapM_cons]
    show Judged _ _ (g a >>= fun _ => rest.forM g)
    refine (h a List.mem_cons_self).bind fun c _ _ => ?_
    have hrest : Judged (fun _ _ => True) (rest.mapM f) (rest.forM g) :=
      ih fun b hb => h b (List.mem_cons_of_mem a hb)
    exact hrest.followed fun cs => pure trivial

end Judged

/-! ## Kinds of code -/

inductive CodeKind where
  | nothing
  | statements
  | expression
deriving DecidableEq, Repr

/-- The code is of the kind. -/
inductive Code.Of : Code → CodeKind → Prop
  | nothing : Of (.statements "") .nothing
  | statements {text : String} : text ≠ "" → Of (.statements text) .statements
  | expression {text : String} {order : Value} : isOrder order = .ok true →
    Of (.expression text order) .expression

/-- The result of a rule is code of the kind. -/
inductive RuleResult.Of : RuleResult → CodeKind → Prop
  | statements {text : String} : text ≠ "" → Of (.code text) .statements
  | expression {text : String} {order : Value} : isOrder order = .ok true →
    Of (.expression text order) .expression

/-! ## What is said of chains -/

/-- What is said of an input. -/
structure Finding where
  name : Value
  /-- The first block in the input. -/
  head : Option Block
  said : Except Fault CodeKind

/-- A chain can stand where an expression is asked for. -/
def givesExpression (head : Option Block) (said : Except Fault CodeKind) : Except Fault Unit :=
  match head with
  | none => .ok ()
  | some head => do
    match ← said with
    | .statements => .error (GenerationError.missingOrder head).fault
    | _ => .ok ()

/-- A chain can stand where statements are asked for. -/
def givesStatements (head : Option Block) (said : Except Fault CodeKind) : Except Fault Unit :=
  match head with
  | none => .ok ()
  | some head => do
    match ← said with
    | .expression => .error (GenerationError.misplacedValue head).fault
    | _ => .ok ()

/-- What is said when a rule asks for an input of this name. -/
def askedFor (findings : List Finding) (input : String)
    (ask : Option Block → Except Fault CodeKind → Except Fault Unit) : Except Fault Unit :=
  match findings.find? (·.name.same (.str input)) with
  | none => .ok ()
  | some f => ask f.head f.said

/-- The comments before a block can be written: its own, and those of all that is plugged into
its inputs for values. -/
def remarked (alone : Bool) (b : Block) (inputs : Inputs) : Except Fault Unit :=
  if !b.givesValue || alone then do
    let _ ← b.commentOf
    (inputs.targets .value).forM fun c => c.comments.map fun _ => ()
  else .ok ()

/-- What is said of rules: the kind of the code that the rule for the block makes. -/
abbrev Estimate := Block → Inputs → List Finding → Except Fault CodeKind

mutual
/-- What is said of a chain: the kind of its code, or the fault that comes up first. -/
def verdict (estimate : Estimate) (alone : Bool) : Chain → Except Fault CodeKind
  | .nil => .ok .nothing
  | .cons b inputs next =>
    if b.isDisabled then verdict estimate false next
    else do
      let kind ← estimate b inputs (findings estimate inputs)
      remarked alone b inputs
      givesStatements next.head? (verdict estimate false next)
      return kind

def findings (estimate : Estimate) : Inputs → List Finding
  | .nil => []
  | .cons name _ target rest =>
    { name, head := target.head?, said := verdict estimate false target } :: findings estimate rest
end

/-- What is said of a program. -/
def programVerdict (estimate : Estimate) (tops : List Chain) : Except Fault Unit :=
  tops.forM fun top => (verdict estimate true top).map fun _ => ()

theorem find_findings (estimate : Estimate) (inputs : Inputs) (key : Value) :
    (findings estimate inputs).find? (·.name.same key) =
      (inputs.at? key).map fun (name, _, target) =>
        { name, head := target.head?, said := verdict estimate false target } := by
  induction inputs using Inputs.inductionOn with
  | nil => rfl
  | cons name kind target rest ih =>
    simp only [findings, Inputs.at?, List.find?_cons]
    by_cases h : name.same key = true
    · simp [h]
    · simp [h, ih]

/-! ## Mild faults -/

/-- Something is wrong with the language or with a block, and is told as such. -/
def Fault.isGeneration : Fault → Bool
  | .generation _ => true
  | _ => false

/-- If anything goes wrong, it is told as such. -/
def Mild {α : Type} (result : Except Fault α) : Prop :=
  ∀ fault, result = .error fault → fault.isGeneration = true

namespace Mild

variable {α β : Type} {result : Except Fault α}

theorem ok (a : α) : Mild (.ok a : Except Fault α) := nofun

theorem fault {e : GenerationError}
    (h : (e.told ++ (e.block.map (·.id)).toList).all (·.fits) = true) :
    Mild (.error e.fault : Except Fault α) := by
  rintro _ ⟨⟩
  rw [GenerationError.fault, if_pos h]
  rfl

theorem bind {f : α → Except Fault β} (h : Mild result) (hf : ∀ a, Mild (f a)) :
    Mild (result >>= f) := by
  rcases result with fault | a
  · rintro fault' ⟨⟩
    exact h fault rfl
  · exact hf a

theorem map {f : α → β} (h : Mild result) : Mild (result.map f) :=
  bind (f := fun a => .ok (f a)) h fun a => ok (f a)

theorem forM {f : α → Except Fault Unit} {values : List α} (h : ∀ a ∈ values, Mild (f a)) :
    Mild (values.forM f) := by
  induction values with
  | nil => exact ok ()
  | cons a rest ih =>
    exact bind (h a List.mem_cons_self) fun _ => ih fun b hb => h b (List.mem_cons_of_mem a hb)

end Mild

/-- The type and the id of the block can be put into words. -/
structure Block.Tellable (b : Block) : Prop where
  type : b.type.fits = true
  id : b.id.fits = true

/-- What goes wrong in the input goes wrong mildly, and its first block can be told. -/
structure Finding.Mild (f : Finding) : Prop where
  said : BlockCode.Mild f.said
  head : ∀ head, f.head = some head → head.Tellable

section Mild

variable {estimate : Estimate} {b : Block} {inputs : Inputs} {found : List Finding}
  {said : Except Fault CodeKind} {head : Option Block}

theorem mild_givesExpression (hhead : ∀ b, head = some b → b.Tellable) (h : Mild said) :
    Mild (givesExpression head said) := by
  unfold givesExpression
  cases head with
  | none => exact Mild.ok ()
  | some b =>
    have hb := hhead b rfl
    refine h.bind fun kind => ?_
    cases kind with
    | statements => exact Mild.fault (by simp [GenerationError.missingOrder, hb.type, hb.id])
    | _ => exact Mild.ok ()

theorem mild_givesStatements (hhead : ∀ b, head = some b → b.Tellable) (h : Mild said) :
    Mild (givesStatements head said) := by
  unfold givesStatements
  cases head with
  | none => exact Mild.ok ()
  | some b =>
    have hb := hhead b rfl
    refine h.bind fun kind => ?_
    cases kind with
    | expression => exact Mild.fault (by simp [GenerationError.misplacedValue, hb.type, hb.id])
    | _ => exact Mild.ok ()

theorem mild_askedFor (hfound : ∀ f ∈ found, f.Mild) (input : String)
    {ask : Option Block → Except Fault CodeKind → Except Fault Unit}
    (hask : ∀ {said head}, (∀ b, head = some b → b.Tellable) → Mild said → Mild (ask head said)) :
    Mild (askedFor found input ask) := by
  unfold askedFor
  rcases hfind : found.find? (·.name.same (.str input)) with _ | f
  · rw [hfind]
    exact Mild.ok ()
  · rw [hfind]
    have hf := hfound f (List.mem_of_find?_eq_some hfind)
    exact hask hf.head hf.said

theorem mild_remarked (alone : Bool) (hb : b.Commented)
    (h : inputs.All fun b _ _ => b.Commented) : Mild (remarked alone b inputs) := by
  have hcomments : ∀ c ∈ inputs.targets .value, Mild (c.comments.map fun _ => ()) := by
    intro c hc
    obtain ⟨text, htext⟩ := comments_ok (h.of_targets c hc).blocks
    rw [htext]
    exact Mild.ok ()
  unfold remarked
  split
  · obtain ⟨text, htext⟩ := hb.commentOf
    rw [htext]
    exact Mild.bind (Mild.ok text) fun _ => Mild.forM hcomments
  · exact Mild.ok ()

/-- The comment is a text, the block can be told, and if it is enabled, its rule goes wrong mildly
unless something else goes wrong in its inputs. -/
structure Harmless (estimate : Estimate) (b : Block) (inputs : Inputs) : Prop where
  commented : b.Commented
  tellable : b.Tellable
  rule : b.isDisabled = false → ∀ found : List Finding, (∀ f ∈ found, f.Mild) →
    Mild (estimate b inputs found)

theorem tellable_head {c : Chain} (h : c.All fun b inputs _ => Harmless estimate b inputs) :
    ∀ b, c.head? = some b → b.Tellable := by
  cases c with
  | nil => nofun
  | cons b inputs next =>
    rintro _ ⟨⟩
    exact (Chain.all_cons.mp h).1.tellable

theorem mild_findings (hall : inputs.All fun b inputs _ => Harmless estimate b inputs)
    (h : inputs.Every fun c => (c.All fun b inputs _ => Harmless estimate b inputs) →
      ∀ alone, Mild (verdict estimate alone c)) :
    ∀ f ∈ findings estimate inputs, f.Mild := by
  induction inputs using Inputs.inductionOn with
  | nil => exact List.forall_mem_nil _
  | cons name kind target rest ih =>
    obtain ⟨htarget, hrest⟩ := Inputs.all_cons.mp hall
    exact List.forall_mem_cons.mpr
      ⟨⟨h.1 htarget false, tellable_head htarget⟩, ih hrest h.2⟩

theorem mild_verdict {c : Chain} (h : c.All fun b inputs _ => Harmless estimate b inputs)
    (alone : Bool) : Mild (verdict estimate alone c) := by
  induction c using Chain.inductionOn generalizing alone with
  | nil => exact Mild.ok _
  | cons b inputs next hin hnext =>
    obtain ⟨hb, hinputs, hbehind⟩ := Chain.all_cons.mp h
    unfold verdict
    rcases hdisabled : b.isDisabled with _ | _
    · refine Mild.bind (hb.rule hdisabled _ (mild_findings hinputs hin)) fun kind => ?_
      refine Mild.bind (mild_remarked alone hb.commented ?_) fun _ => ?_
      · exact fun b below behind hmem => (hinputs b below behind hmem).commented
      · exact Mild.bind (mild_givesStatements (tellable_head hbehind) (hnext hbehind false))
          fun _ => Mild.ok kind
    · exact hnext hbehind false

end Mild

/-! ## What is said is so -/

namespace Language

variable {L : Language} {nested : Workspace → Action String} {estimate : Estimate}
  {b : Block} {inputs : Inputs}

/-- The code of the chain is what is said of it. -/
def Foretold (L : Language) (nested : Workspace → Action String) (estimate : Estimate)
    (c : Chain) : Prop :=
  ∀ alone, Judged Code.Of (L.codeOf nested alone c) (verdict estimate alone c)

theorem judged_chained {c : Chain} (h : L.Foretold nested estimate c) :
    Judged (fun _ _ => True) (chained c (L.codeOf nested false c))
      (givesStatements c.head? (verdict estimate false c)) := by
  unfold chained givesStatements
  cases c with
  | nil => exact Judged.pure trivial
  | cons head inputs next =>
    refine (h false).bind fun code kind hkind => ?_
    cases hkind with
    | expression horder => exact Judged.fail
    | _ => exact Judged.pure trivial

theorem judged_plugged (hin : inputs.Every (L.Foretold nested estimate)) {input : String}
    {outer : Value} (houter : isOrder outer = .ok true) :
    Judged (fun _ _ => True) (L.plugged b (L.plugs nested inputs) (.str input) outer)
      (askedFor (findings estimate inputs) input givesExpression) := by
  unfold plugged askedFor
  rw [houter, find_input (Value.asKey_str input), find_findings]
  refine Judged.bind_ok (Judged.bind_ok ?_)
  rcases hat : inputs.at? (.str input) with _ | ⟨name, kind, target⟩
  · exact Judged.pure trivial
  · have htarget := hin.of_at? hat false
    cases target with
    | nil => exact Judged.pure trivial
    | cons head below next =>
      refine htarget.bind fun code kind hkind => ?_
      cases hkind with
      | nothing => exact Judged.pure trivial
      | @statements text htext =>
        simp only
        rw [if_neg (by simpa using htext)]
        exact Judged.fail
      | expression horder =>
        simp only
        rw [horder]
        exact Judged.pure trivial

theorem judged_nestedStatements (hin : inputs.Every (L.Foretold nested estimate)) {indent : String}
    (hindent : L.config.indent = .str indent) {input : String} :
    Judged (fun _ _ => True) (L.nestedStatements (L.plugs nested inputs) (.str input))
      (askedFor (findings estimate inputs) input givesStatements) := by
  unfold nestedStatements askedFor
  rw [find_input (Value.asKey_str input), find_findings]
  refine Judged.bind_ok ?_
  rcases hat : inputs.at? (.str input) with _ | ⟨name, kind, target⟩
  · exact Judged.pure trivial
  · refine (judged_chained (hin.of_at? hat)).followed fun text => ?_
    split
    · exact Judged.pure trivial
    · refine Judged.lift ?_
      unfold Config.indented
      rw [hindent]
      exact .ok trivial

/-! ### Comments -/

theorem goes_remarks {marker : String} (hmarker : L.config.commentMarker = .str marker)
    (alone : Bool) : Goes (fun _ _ => True) (L.remarks alone b (L.plugs nested inputs))
      (remarked alone b inputs) := by
  have hown : Goes (fun _ _ => True) (L.ownComment b) b.commentOf := by
    unfold ownComment
    cases b.commentOf with
    | error fault => exact .error fault
    | ok comment =>
      show Goes _ (if comment == "" then .ok "" else L.config.comment comment) _
      split
      · exact .ok trivial
      · unfold Config.comment
        rw [hmarker]
        exact .ok trivial
  have hother : ∀ c : Chain, Goes (fun _ _ => True) (L.commentOn c) (c.comments.map fun _ => ()) := by
    intro c
    unfold commentOn
    cases c.comments with
    | error fault => exact .error fault
    | ok comments =>
      show Goes _ (if comments == "" then .ok "" else L.config.marked comments) _
      split
      · exact .ok trivial
      · unfold Config.marked
        rw [hmarker]
        exact .ok trivial
  unfold remarks remarked
  split
  · rw [commentsBefore_eq]
    refine hown.bind fun own _ _ => ?_
    have hothers : Goes (fun _ _ => True) (String.join <$> (inputs.targets .value).mapM L.commentOn)
        ((inputs.targets .value).forM fun c => c.comments.map fun _ => ()) :=
      (Goes.mapM_forM fun c _ => hother c).followed fun texts => .ok trivial
    exact hothers.followed fun others => .ok trivial
  · exact .ok trivial

theorem judged_withSurroundings {marker : String} (hmarker : L.config.commentMarker = .str marker)
    (alone : Bool) (code : String) {rest : Action String} {said : Except Fault Unit}
    (hrest : Judged (fun _ _ => True) rest said) :
    Judged (fun text _ => ∃ before behind, text = before ++ code ++ behind)
      (L.withSurroundings alone b (L.plugs nested inputs) code rest)
      (do remarked alone b inputs; said) := by
  have hparts : L.withSurroundings alone b (L.plugs nested inputs) code rest =
      (Effect.lift (L.remarks alone b (L.plugs nested inputs)) >>= fun before =>
        rest >>= fun behind => pure (before ++ code ++ behind)) := by
    unfold withSurroundings remarks
    split <;> rfl
  rw [hparts]
  refine (Judged.lift (goes_remarks hmarker alone)).bind fun before _ _ => ?_
  exact hrest.followed fun behind => Judged.pure ⟨before, behind, rfl⟩

/-! ### Blocks -/

/-- The estimate is right about the rules, if what is said of the inputs is so. -/
def Estimated (L : Language) (nested : Workspace → Action String) (estimate : Estimate) : Prop :=
  ∀ b inputs, inputs.Every (L.Foretold nested estimate) →
    (∃ fault, L.ruleOf b = Effect.lift (.error fault) ∧
      estimate b inputs (findings estimate inputs) = .error fault) ∨
    ∃ rule, L.ruleOf b = Effect.lift (.ok rule) ∧
      Judged RuleResult.Of (perform (L.answer nested b (L.plugs nested inputs)) (rule b inputs))
        (estimate b inputs (findings estimate inputs))

theorem judged_codeOfBlock (hrules : L.Estimated nested estimate) {marker : String}
    (hmarker : L.config.commentMarker = .str marker)
    (hin : inputs.Every (L.Foretold nested estimate)) (alone : Bool) {rest : Action String}
    {said : Except Fault Unit} (hrest : Judged (fun _ _ => True) rest said) :
    Judged Code.Of (L.codeOfBlock nested alone b inputs (L.plugs nested inputs) rest) (do
      let kind ← estimate b inputs (findings estimate inputs)
      remarked alone b inputs
      said
      return kind) := by
  unfold codeOfBlock
  rcases hrules b inputs hin with ⟨fault, hrule, hfails⟩ | ⟨rule, hrule, hjudged⟩
  · rw [hrule, hfails]
    exact fun _ => .error fault
  · rw [hrule]
    refine Judged.bind_ok (Judged.change_bind (hjudged.bind fun result kind hkind => ?_))
    have hassoc : (do remarked alone b inputs; said; return kind : Except Fault CodeKind) =
        ((do remarked alone b inputs; said) >>= fun _ => .ok kind) := by
      cases remarked alone b inputs <;> rfl
    rw [hassoc]
    cases hkind with
    | @statements code hcode =>
      refine (judged_withSurroundings hmarker alone code hrest).bind ?_
      rintro _ _ ⟨before, behind, rfl⟩
      refine Judged.pure (.statements ?_)
      simp [hcode]
    | @expression code order horder =>
      refine (judged_withSurroundings hmarker alone code hrest).bind ?_
      rintro _ _ ⟨before, behind, rfl⟩
      exact Judged.pure (.expression horder)

/-- What is said of a chain is so. -/
theorem foretold (hrules : L.Estimated nested estimate) {marker : String}
    (hmarker : L.config.commentMarker = .str marker) (c : Chain) : L.Foretold nested estimate c := by
  induction c using Chain.inductionOn with
  | nil => exact fun _ => Judged.pure .nothing
  | cons b inputs next hin hnext =>
    intro alone
    unfold verdict
    rcases hb : b.isDisabled with _ | _
    · rw [codeOf_enabled hb]
      exact judged_codeOfBlock hrules hmarker hin alone (judged_chained hnext)
    · rw [codeOf_disabled hb]
      exact hnext false

/-! ## Programs -/

theorem judged_section (hrules : L.Estimated nested estimate) {marker : String}
    (hmarker : L.config.commentMarker = .str marker)
    (hstanding : ∀ line, ∃ text, L.standing line = .ok text) (top : Chain) :
    Judged (fun _ _ => True) (L.section? nested top) ((verdict estimate true top).map fun _ => ()) := by
  have hmap : (verdict estimate true top).map (fun _ => ()) =
      (verdict estimate true top >>= fun _ => .ok ()) := by
    cases verdict estimate true top <;> rfl
  rw [hmap]
  unfold section?
  refine (foretold hrules hmarker top true).bind fun code kind _ => ?_
  simp only
  split
  · exact Judged.pure trivial
  · split
    · obtain ⟨text, htext⟩ := hstanding code.text
      rw [htext]
      exact Judged.pure trivial
    · exact Judged.pure trivial

/-- What is said of a program is so, in every session in which a pass can begin. -/
theorem judged_pass (hrules : L.Estimated (fun _ => L.refuse) estimate) {marker : String}
    (hmarker : L.config.commentMarker = .str marker)
    (hstanding : ∀ line, ∃ text, L.standing line = .ok text) (w : Workspace) {s : Session}
    (hs : s.running = false) :
    Goes (fun _ _ => True) (L.pass w s).1 (programVerdict estimate w.trees) := by
  have hsections : Goes (fun _ _ => True) (L.sections w s).1 (programVerdict estimate w.trees) :=
    Judged.mapM_forM (fun top _ => judged_section hrules hmarker hstanding top) (L.opened w s)
  rw [pass_result w s hs]
  have hprogram : programOf (L.sections w s) = ((L.sections w s).1 >>= fun sections =>
      .ok (Text.clean ((L.sections w s).2.withDefinitions
        (joinSections (sections.filterMap id))))) := by
    rcases L.sections w s with ⟨fault | sections, s'⟩ <;> rfl
  rw [hprogram]
  exact hsections.followed fun sections => .ok trivial

end Language
end BlockCode
