-- Comments never change code. A program that is made of a workspace and the program that is
-- made of it without its comments show the same lines of code, and where one cannot be made, the
-- other cannot. All that an expression is made of is the same in both runs; lines of statements
-- may have other comment lines between them.
import BlockCode.Proofs.Generation.Hushed
import BlockCode.Proofs.Generation.Reserved
import BlockCode.Proofs.Language.PythonElision
import BlockCode.Proofs.Language.PythonTyping
import BlockCode.Proofs.Text.Words

namespace BlockCode

open BlockCode.Language
open BlockCode.Text (Firm Inline Marks codeLines)

namespace Python

/-! ## What two runs make of one block -/

/-- A whole number, a floating-point number, or nothing. -/
inductive Countable : Value → Prop
  | missing : Countable .null
  | int (i : Int) : Countable (.int i)
  | float (x : Number.Binary64) : Countable (.float x)

theorem Countable.inline {v : Value} (h : Countable v) {code : String} (hcode : v.text = .ok code) :
    Inline code := by
  obtain rfl : v.shown = code := by
    unfold Value.text at hcode
    split at hcode
    · exact Except.ok.inj hcode
    · cases hcode
  cases h with
  | missing => decide
  | int i => exact Text.inline_int i
  | float x => exact x.inline_text

theorem inline_literal {v : Value} {code : String} (h : literal v = .ok code) : Inline code := by
  unfold literal at h
  split at h
  · cases h
    exact Text.inline_quoted _
  · cases h
    exact Text.inline_quotedSpelling _
  · simp only [] at h
    split at h
    · rcases htext : v.text with fault | text
      · rw [htext] at h
        cases h
      · rw [htext] at h
        cases h
        exact Text.inline_quoted text
    · cases h
      exact Text.inline_quoted ""

/-- Two runs were given the same word, that ends in something. -/
def SameWord (text text' : String) : Prop := text = text' ∧ Firm text

/-- Two runs were given the same operand, if any. -/
def SameOperand (text text' : String) : Prop := text = text' ∧ (text = "" ∨ Firm text)

/-- What a rule makes in one run and in the other. -/
inductive Made : Bool → RuleResult → RuleResult → Prop
  | expression {text : String} {order : Value} : Firm text →
    Made true (.expression text order) (.expression text order)
  | code {text text' : String} : SameLines text text' → Made false (.code text) (.code text')

variable {Good : Session → Prop} {A A' : Request → Action String} {b : Block} {inputs : Inputs}
  {α β γ δ : Type} {R : α → β → Prop} {T : γ → δ → Prop}

/-- What two runs answer to the rule for one block. -/
structure Replies (Good : Session → Prop) (b : Block) (A A' : Request → Action String) : Prop where
  value : ∀ input order, LeadsTo Good SameOperand (A (.value (.str input) (.int order)))
    (A' (.value (.str input) (.int order)))
  statements : ∀ input, LeadsTo Good Shows (A (.statements (.str input)))
    (A' (.statements (.str input)))
  named : ∀ r, Asked b r → r.opensInput = false → LeadsTo Good SameWord (A r) (A' r)

theorem leads_bind {x : Script α} {y : Script β} {f : α → Script γ} {g : β → Script δ}
    (hx : LeadsTo Good R (perform A x) (perform A' y))
    (hf : ∀ a b, R a b → LeadsTo Good T (perform A (f a)) (perform A' (g b))) :
    LeadsTo Good T (perform A (x >>= f)) (perform A' (y >>= g)) := by
  rw [perform_bind, perform_bind]
  exact hx.bind hf

theorem leads_done (result : Except Fault α) : LeadsTo Good (fun a a' => a = a' ∧ result = .ok a)
    (perform A (.done result)) (perform A' (.done result)) :=
  LeadsTo.lift fun a ha => ⟨a, ha, rfl, ha⟩

theorem leads_valueOr (h : Replies Good b A A') {missing : String} (hmissing : Firm missing)
    (input : String) (order : Int) :
    LeadsTo Good SameWord (perform A (valueOr input order missing))
      (perform A' (valueOr input order missing)) := by
  unfold valueOr
  refine leads_bind (R := SameOperand) ?_ ?_
  · rw [perform_request, perform_request]
    exact h.value input order
  · rintro text _ ⟨rfl, hfirm⟩
    refine LeadsTo.pure ⟨rfl, ?_⟩
    split
    · exact hmissing
    · rename_i hne
      exact hfirm.resolve_left (by simpa using hne)

theorem leads_bodyOr (h : Replies Good b A A') (input : String) :
    LeadsTo Good SameLines (perform A (bodyOr input)) (perform A' (bodyOr input)) := by
  unfold bodyOr
  refine leads_bind (R := Shows) ?_ ?_
  · rw [perform_request, perform_request]
    exact h.statements input
  · intro text text' hshows
    cases hshows with
    | nothing => exact LeadsTo.pure (.refl ⟨"  pass", by decide, rfl⟩)
    | lines hsame =>
      simp only [beq_false_of_ne hsame.lined.ne_empty, beq_false_of_ne hsame.lined'.ne_empty,
        Bool.false_eq_true, if_false]
      exact LeadsTo.pure hsame

theorem leads_named (h : Replies Good b A A') {r : Request} (hr : Asked b r)
    (hcloses : r.opensInput = false) :
    LeadsTo Good SameWord (perform A (.request r)) (perform A' (.request r)) := by
  rw [perform_request, perform_request]
  exact h.named r hr hcloses

theorem leads_variableOf (h : Replies Good b A A') (hb : IsVariable b) :
    LeadsTo Good SameWord (perform A (variableOf b)) (perform A' (variableOf b)) := by
  unfold variableOf
  refine leads_bind (leads_done (b.field "VAR")) ?_
  rintro name _ ⟨rfl, hname⟩
  exact leads_named h (.identifier hb hname) rfl

/-! ## Rules for expressions -/

theorem leads_expression {text : String} (h : Firm text) (order : Int) :
    LeadsTo Good (Made true) (perform A (pure (expression text order)))
      (perform A' (pure (expression text order))) := LeadsTo.pure (.expression h)

theorem leads_textRule : LeadsTo Good (Made true) (perform A (textRule b inputs))
    (perform A' (textRule b inputs)) := by
  refine leads_bind (leads_done (b.field "TEXT")) ?_
  rintro v _ ⟨rfl, -⟩
  refine leads_bind (leads_done (literal v)) ?_
  rintro code _ ⟨rfl, hcode⟩
  exact leads_expression (inline_literal hcode).firm atomic

theorem leads_numberRule (h : ∀ v, b.field "NUM" = .ok v → Countable v) :
    LeadsTo Good (Made true) (perform A (numberRule b inputs)) (perform A' (numberRule b inputs)) := by
  refine leads_bind (leads_done (b.field "NUM")) ?_
  rintro v _ ⟨rfl, hv⟩
  refine leads_bind (leads_done v.text) ?_
  rintro code _ ⟨rfl, hcode⟩
  exact leads_expression ((h v hv).inline hcode).firm _

theorem leads_arithmeticRule (h : Replies Good b A A') :
    LeadsTo Good (Made true) (perform A (arithmeticRule b inputs))
      (perform A' (arithmeticRule b inputs)) := by
  refine leads_bind (leads_done (b.field "OP")) ?_
  rintro v _ ⟨rfl, -⟩
  refine leads_bind (leads_done (operator arithmeticOperators v)) ?_
  rintro ⟨sign, order⟩ _ ⟨rfl, -⟩
  refine leads_bind (leads_valueOr h (by decide) "A" order) ?_
  rintro left _ ⟨rfl, -⟩
  refine leads_bind (leads_valueOr h (by decide) "B" order) ?_
  rintro right _ ⟨rfl, hright⟩
  exact leads_expression (hright.behind _) order

theorem leads_primeRule (h : Replies Good b A A') (hb : b.type = .str "math_is_prime") :
    LeadsTo Good (Made true) (perform A (primeRule b inputs)) (perform A' (primeRule b inputs)) := by
  refine leads_bind (leads_named h (.prime hb) rfl) ?_
  rintro name _ ⟨rfl, -⟩
  refine leads_bind (leads_valueOr h (by decide) "NUMBER_TO_CHECK" anything) ?_
  rintro number _ ⟨rfl, -⟩
  exact leads_expression (Firm.behind (by decide) _) functionCall

theorem leads_booleanRule : LeadsTo Good (Made true) (perform A (booleanRule b inputs))
    (perform A' (booleanRule b inputs)) := by
  refine leads_bind (leads_done (b.field "BOOL")) ?_
  rintro v _ ⟨rfl, -⟩
  exact leads_expression (by split <;> decide) atomic

theorem leads_compareRule (h : Replies Good b A A') :
    LeadsTo Good (Made true) (perform A (compareRule b inputs))
      (perform A' (compareRule b inputs)) := by
  refine leads_bind (leads_done (b.field "OP")) ?_
  rintro v _ ⟨rfl, -⟩
  refine leads_bind (leads_done (operator comparisons v)) ?_
  rintro sign _ ⟨rfl, -⟩
  refine leads_bind (leads_valueOr h (by decide) "A" relational) ?_
  rintro left _ ⟨rfl, -⟩
  refine leads_bind (leads_valueOr h (by decide) "B" relational) ?_
  rintro right _ ⟨rfl, hright⟩
  exact leads_expression (hright.behind _) relational

theorem leads_negateRule (h : Replies Good b A A') :
    LeadsTo Good (Made true) (perform A (negateRule b inputs))
      (perform A' (negateRule b inputs)) := by
  refine leads_bind (leads_valueOr h (by decide) "BOOL" logicalNot) ?_
  rintro argument _ ⟨rfl, hargument⟩
  exact leads_expression (hargument.behind _) logicalNot

theorem leads_getRule (h : Replies Good b A A') (hb : IsVariable b) :
    LeadsTo Good (Made true) (perform A (getRule b inputs)) (perform A' (getRule b inputs)) := by
  refine leads_bind (leads_variableOf h hb) ?_
  rintro name _ ⟨rfl, hname⟩
  exact leads_expression hname atomic

/-! ## Rules for statements -/

theorem leads_code {text text' : String} (h : SameLines text text') :
    LeadsTo Good (Made false) (perform A (pure (.code text))) (perform A' (pure (.code text'))) :=
  LeadsTo.pure (.code h)

theorem lined_colon (front : String) : Lined (front ++ ":\n") :=
  Lined.behind ⟨":", by decide, rfl⟩ front

theorem leads_printRule (h : Replies Good b A A') :
    LeadsTo Good (Made false) (perform A (printRule b inputs)) (perform A' (printRule b inputs)) := by
  refine leads_bind (leads_valueOr h (by decide) "TEXT" anything) ?_
  rintro argument _ ⟨rfl, -⟩
  exact leads_code (.refl (Lined.behind ⟨")", by decide, rfl⟩ _))

theorem leads_setRule (h : Replies Good b A A') (hb : IsVariable b) :
    LeadsTo Good (Made false) (perform A (setRule b inputs)) (perform A' (setRule b inputs)) := by
  refine leads_bind (leads_variableOf h hb) ?_
  rintro name _ ⟨rfl, -⟩
  refine leads_bind (leads_valueOr h (by decide) "VALUE" anything) ?_
  rintro value _ ⟨rfl, hvalue⟩
  exact leads_code (.refl (hvalue.behind _).lined)

theorem leads_ifRule (h : Replies Good b A A') :
    LeadsTo Good (Made false) (perform A (ifRule b inputs)) (perform A' (ifRule b inputs)) := by
  refine leads_bind (leads_valueOr h (by decide) "IF0" anything) ?_
  rintro condition _ ⟨rfl, -⟩
  refine leads_bind (leads_bodyOr h "DO0") ?_
  intro body body' hbody
  have hif := hbody.behind (lined_colon ("if " ++ condition)).ended
  simp only
  split
  · refine leads_bind (leads_bodyOr h "ELSE") ?_
    intro other other' hother
    have helse : Text.Ended "else:\n" := Or.inr ⟨"else:", rfl⟩
    have hwhole := hif.append (.lines (hother.behind helse))
    simp only [← String.append_assoc] at hwhole
    exact leads_code hwhole
  · exact leads_code hif

theorem leads_repeatRule (h : Replies Good b A A') (hb : b.type = .str "controls_repeat_ext") :
    LeadsTo Good (Made false) (perform A (repeatRule b inputs))
      (perform A' (repeatRule b inputs)) := by
  refine leads_bind (leads_valueOr h (by decide) "TIMES" anything) ?_
  rintro times _ ⟨rfl, -⟩
  refine leads_bind (leads_bodyOr h "DO") ?_
  intro body body' hbody
  refine leads_bind (leads_named h (.counter hb) rfl) ?_
  rintro counter _ ⟨rfl, -⟩
  have hfor : Lined ("for " ++ counter ++ " in range(" ++ times ++ "):\n") :=
    Lined.behind ⟨"):", by decide, rfl⟩ _
  exact leads_code (hbody.behind hfor.ended)

/-- The rule for a block makes what the block gives, in the one run as in the other. -/
theorem leads_rule {config : Config} {rule : Rule}
    (hrule : (Language.python config).ruleFor b.type = .ok (some rule)) (hflagged : Flagged b)
    (hnumber : b.type = .str "math_number" → ∀ v, b.field "NUM" = .ok v → Countable v)
    (h : Replies Good b A A') : LeadsTo Good (Made b.givesValue) (perform A (rule b inputs))
      (perform A' (rule b inputs)) := by
  obtain ⟨type, hb, hof⟩ := ruleOf_of_ruleFor hrule
  have hvalue : type ∈ valueTypes → b.givesValue = true := fun htype => hflagged.values type htype hb
  have hcode : type ∈ statementTypes → b.givesValue = false :=
    fun htype => hflagged.statements type htype hb
  cases hof with
  | text => rw [hvalue (by decide)]; exact leads_textRule
  | print => rw [hcode (by decide)]; exact leads_printRule h
  | number => rw [hvalue (by decide)]; exact leads_numberRule (hnumber hb)
  | arithmetic => rw [hvalue (by decide)]; exact leads_arithmeticRule h
  | prime => rw [hvalue (by decide)]; exact leads_primeRule h hb
  | boolean => rw [hvalue (by decide)]; exact leads_booleanRule
  | compare => rw [hvalue (by decide)]; exact leads_compareRule h
  | negate => rw [hvalue (by decide)]; exact leads_negateRule h
  | get => rw [hvalue (by decide)]; exact leads_getRule h (Or.inl hb)
  | set => rw [hcode (by decide)]; exact leads_setRule h (Or.inr hb)
  | branch => rw [hcode (by decide)]; exact leads_ifRule h
  | loop => rw [hcode (by decide)]; exact leads_repeatRule h hb

/-! ## Names in two runs -/

variable {config : Config}

theorem shaped_answer {s after : Session} {r : Request} {text : String} {b' : Block}
    {plugs : List Plug} (h : s.pass.Orderly reservedWords) (hr : Asked b r)
    (hcloses : r.opensInput = false)
    (ha : (Language.python config).answer (fun _ => (Language.python config).refuse) b' plugs r s =
      (.ok text, after)) : Shaped text := by
  cases hr with
  | value input order => cases hcloses
  | statements input => cases hcloses
  | identifier hb hname =>
    rcases grant_cases ha with ⟨fault, -, hfault, -⟩ | ⟨g, hg, hok, -⟩
    · cases hfault
    · cases hok
      exact (h.clean.getFor h.bars hg).shaped _ (Names.taken_getFor h.clean.toSound hg)
  | counter hb =>
    change Session.ownIdentifier (.str "count") (.str "variable") s = _ at ha
    rw [Session.ownIdentifier_apply] at ha
    rcases grant_cases ha with ⟨fault, -, hfault, -⟩ | ⟨g, hg, hok, -⟩
    · cases hfault
    · cases hok
      exact (h.clean.ownFor h.bars hg).shaped _ (Names.taken_ownFor hg)
  | prime hb =>
    rcases helper_cases ha with ⟨-, -, ⟨fault, hfault⟩ | ⟨helper, hfind, hok⟩⟩ | ⟨-, g, hg, -, hnew⟩
    · cases hfault
    · cases hok
      exact h.clean.shaped _ (h.helpers helper (Helpers.find?_spec hfind).1)
    · rcases hnew with ⟨-, fault, hfault⟩ | ⟨body, -, hok, -⟩
      · cases hfault
      · cases hok
        exact (Helpers.clean_granted h.clean h.bars hg).shaped _
          (Helpers.taken_granted h.clean.toSound hg)

/-! ## Runs over trees that differ in comments -/

/-- A block with a comment that can be written, which ends its chain if it gives a value. If it is
enabled, it gives what its type gives, and what it counts is a number. -/
structure Noted (b : Block) (_ : Inputs) (next : Chain) : Prop where
  ends : b.givesValue = true → next = .nil
  commented : b.Commented
  flagged : b.isDisabled = false → Flagged b
  number : b.isDisabled = false → b.type = .str "math_number" →
    ∀ v, b.field "NUM" = .ok v → Countable v

/-- The pass is in good order. -/
def InOrder (s : Session) : Prop := s.pass.Orderly reservedWords

/-- In a pass no other can begin. -/
abbrev refused (config : Config) : Workspace → Action String :=
  fun _ => (Language.python config).refuse

theorem InOrder.counted {s : Session} (h : InOrder s) : InOrder s.counted :=
  ⟨h.clean, h.bars, h.helpers⟩

theorem Noted.unfollowed {next : Chain} {behind : String} {s s' : Session}
    (hb : Noted b inputs next) (hchain : (Language.python config).codeOf (refused config) false next s =
      (.ok (.statements behind), s')) : b.givesValue = true → behind = "" := by
  intro hvalue
  rw [hb.ends hvalue] at hchain
  cases hchain
  rfl

/-- The code of the chain is made again, and alike, when comments are others. -/
def Steady (config : Config) (c : Chain) : Prop :=
  c.All Noted → ∀ c' alone, c'.All Noted → c.hushed = c'.hushed →
    LeadsTo InOrder (Alike alone (c.head?.any (·.givesValue)))
      ((Language.python config).codeOf (refused config) alone c)
      ((Language.python config).codeOf (refused config) alone c')

/-- No rule reads the comment of its block. -/
theorem rule_hushed {rule : Rule} (hrule : (Language.python config).ruleFor b.type = .ok (some rule))
    {b' : Block} {inputs' : Inputs} (hb : b.hushed = b'.hushed)
    (hinputs : inputs.hushed = inputs'.hushed) : rule b' inputs' = rule b inputs := by
  have hnames : ∀ name, inputs'.has name = inputs.has name := by
    intro name
    rw [← inputs'.has_hushed, ← hinputs, inputs.has_hushed]
  have hcomment : ∀ x : Block, rule x.hushed inputs = rule x inputs := by
    obtain ⟨type, -, hof⟩ := ruleOf_of_ruleFor hrule
    cases hof <;> exact fun _ => rfl
  have hrule' : (Language.python config).ruleFor b'.type = .ok (some rule) := by
    rw [(Block.told_of_hushed hb).1, hrule]
  rw [looksAtNames config b' rule hrule' inputs inputs' hnames, ← hcomment b', ← hb,
    hcomment b]

theorem steady_nil : Steady config .nil := by
  intro _ c' alone _ hnil
  cases c' with
  | nil => exact LeadsTo.pure .nothing
  | cons b inputs next => cases hnil

/-- What a rule is answered in the one run goes with what it is answered in the other. -/
theorem replies {indent : String} (hindent : config.indent = .str indent)
    (hgaps : ∀ c ∈ indent.toList, Text.isGap c = true) (hin : inputs.Every (Steady config))
    (hall : inputs.All Noted) {inputs' : Inputs} (hall' : inputs'.All Noted)
    (hinputs : inputs.hushed = inputs'.hushed) (b' : Block) :
    Replies InOrder b (answers config (refused config) b inputs)
      (answers config (refused config) b' inputs') := by
  have htarget : ∀ name, LeadsTo InOrder
      (Alike false ((inputs.target name).head?.any (·.givesValue)))
      ((Language.python config).codeOf (refused config) false (inputs.target name))
      ((Language.python config).codeOf (refused config) false (inputs'.target name)) := by
    intro name
    refine hin.of_target steady_nil name (hall.of_target name) _ false (hall'.of_target name) ?_
    rw [← inputs.target_hushed, hinputs, inputs'.target_hushed]
  refine ⟨fun input order => ?_, fun input => ?_, fun r hr hcloses => ?_⟩
  · intro s text s' hgood hrun
    obtain ⟨horder, name, code, hname, hcode, hgives⟩ := plugged_iff.mp hrun
    obtain ⟨hafter, code', hcode', halike⟩ := htarget name s code s' hgood hcode
    obtain ⟨hgives', hfirm⟩ := halike.gives_same hgives
    exact ⟨hafter, text, plugged_iff.mpr ⟨horder, name, code', hname, hcode', hgives'⟩, rfl, hfirm⟩
  · intro s text s' hgood hrun
    obtain ⟨name, made, hname, hcode, htext⟩ := nestedStatements_iff.mp hrun
    obtain ⟨hafter, code', hcode', halike⟩ := htarget name s _ s' hgood hcode
    cases halike with
    | statements hshows =>
      obtain ⟨text', htext', hshows'⟩ := hshows.nest hindent hgaps htext
      exact ⟨hafter, text', nestedStatements_iff.mpr ⟨name, _, hname, hcode', htext'⟩, hshows'⟩
  · intro s text s' hgood hrun
    have hsame : answers config (refused config) b' inputs' r =
        answers config (refused config) b inputs r := by
      cases hr with
      | value input order => cases hcloses
      | statements input => cases hcloses
      | _ => rfl
    have hafter : InOrder (answers config (refused config) b inputs r s).2 :=
      answer_orderly b _ r s hcloses hgood
    rw [hrun] at hafter
    exact ⟨hafter, text, by rw [hsame]; exact hrun, rfl,
      (shaped_answer hgood hr hcloses hrun).solid.firm⟩

theorem Made.between {gives alone : Bool} {result result' : RuleResult} (h : Made gives result result')
    {before before' behind behind' : String} (hbefore : Quiet before) (hbefore' : Quiet before')
    (hquiet : gives = true → alone = false → before = "" ∧ before' = "")
    (hbehind : Shows behind behind') (hends : gives = true → behind = "") {code : Code}
    (hcode : result.between before behind = some code) :
    ∃ code', result'.between before' behind' = some code' ∧ Alike alone gives code code' := by
  cases h with
  | @expression text order hfirm =>
    cases hcode
    rw [hends rfl] at hbehind ⊢
    obtain rfl : behind' = "" := by
      cases hbehind with
      | nothing => rfl
      | lines hsame => exact absurd rfl hsame.lined.ne_empty
    refine ⟨_, rfl, ?_⟩
    rw [String.append_empty, String.append_empty]
    refine .expression (hfirm.behind before) (hfirm.behind before') ?_ fun halone => ?_
    · rw [hbefore.codeLines, hbefore'.codeLines]
    · rw [(hquiet rfl halone).1, (hquiet rfl halone).2]
  | code hsame =>
    cases hcode
    exact ⟨_, rfl, .statements (.lines ((hsame.remarked hbefore hbefore').append hbehind)) nofun⟩

theorem noted_hushed {c : Chain} (h : c.All Noted) : c.hushed.All Noted := by
  induction c using Chain.inductionOn with
  | nil => exact Chain.all_nil
  | cons b inputs next hin hnext =>
    obtain ⟨hb, hinputs, hbehind⟩ := Chain.all_cons.mp h
    have hbelow : inputs.hushed.All Noted := by
      clear h hb hnext
      induction inputs using Inputs.inductionOn with
      | nil => exact Inputs.all_nil
      | cons name kind target rest ih =>
        obtain ⟨htarget, hrest⟩ := Inputs.all_cons.mp hinputs
        exact Inputs.all_cons.mpr ⟨hin.1 htarget, ih hin.2 hrest⟩
    have hflagged : b.isDisabled = false → Flagged b.hushed :=
      fun henabled => ⟨(hb.flagged henabled).values, (hb.flagged henabled).statements⟩
    refine Chain.all_cons.mpr ⟨⟨fun hgives => ?_, Or.inl rfl, hflagged, hb.number⟩, hbelow,
      hnext hbehind⟩
    rw [hb.ends hgives]
    rfl

section Runs

variable {marker indent : String}

/-- One block more: an enabled one is handed to its rule in the one run as in the other. -/
theorem enabled_leads (hmarker : config.commentMarker = .str marker) (hmarks : Marks marker)
    (hindent : config.indent = .str indent) (hgaps : ∀ c ∈ indent.toList, Text.isGap c = true)
    {b' : Block} {inputs' : Inputs} {next next' : Chain} (hb : Noted b inputs next)
    (hb' : Noted b' inputs' next') (hsame : b.hushed = b'.hushed) (henabled : b.isDisabled = false)
    (hin : inputs.Every (Steady config)) (hall : inputs.All Noted) (hall' : inputs'.All Noted)
    (hinputs : inputs.hushed = inputs'.hushed) {gives : Bool}
    (hnext : LeadsTo InOrder (Alike false gives)
      ((Language.python config).codeOf (refused config) false next)
      ((Language.python config).codeOf (refused config) false next')) (alone : Bool) :
    LeadsTo InOrder (Alike alone b.givesValue)
      ((Language.python config).codeOf (refused config) alone (.cons b inputs next))
      ((Language.python config).codeOf (refused config) alone (.cons b' inputs' next')) := by
  obtain ⟨htype, hdisabled, hgives⟩ := Block.told_of_hushed hsame
  have henabled' : b'.isDisabled = false := hdisabled.trans henabled
  intro s code s' hgood hrun
  obtain ⟨rule, result, after, before, behind, hrule, hresult, hbefore, hchain, hcode⟩ :=
    (codeOf_iff henabled).mp hrun
  have hrule' : (Language.python config).ruleFor b'.type = .ok (some rule) := by rw [htype, hrule]
  -- The rule, the comments and the chain behind the block, each in its turn.
  obtain ⟨hafter, result', hresult', hmade⟩ := leads_rule hrule (hb.flagged henabled)
    (hb.number henabled) (replies hindent hgaps hin hall hall' hinputs b') s.counted result after
    hgood.counted hresult
  obtain ⟨before', hbefore'⟩ : ∃ before', (Language.python config).remarks alone b'
      ((Language.python config).plugs (refused config) inputs') = .ok before' := by
    refine remarks_ok hmarker hb'.commented ?_ alone
    intro c hc
    exact ((hall'.of_targets c hc).mono fun b _ _ h => h.commented).blocks
  obtain ⟨hlast, code', hchain', halike⟩ := hnext after _ s' hafter hchain
  have hquiet : b.givesValue = true → alone = false → before = "" ∧ before' = "" :=
    fun hvalue halone => ⟨unremarked hbefore hvalue halone,
      unremarked hbefore' (hgives.trans hvalue) halone⟩
  cases halike with
  | @statements _ behind' hshows _ =>
    obtain ⟨made, hmade, halike⟩ := hmade.between (quiet_remarks hmarker hmarks hbefore)
      (quiet_remarks hmarker hmarks hbefore') hquiet hshows (hb.unfollowed hchain) hcode
    rw [← rule_hushed hrule hsame hinputs] at hresult'
    exact ⟨hlast, made, (codeOf_iff henabled').mpr ⟨rule, result', after, before', behind', hrule',
      hresult', hbefore', hchain', hmade⟩, halike⟩

/-- Every chain is made again, and alike: by induction on the chain, with what is plugged into its
blocks, while the names that are given out stay in good order. -/
theorem steady (hmarker : config.commentMarker = .str marker) (hmarks : Marks marker)
    (hindent : config.indent = .str indent) (hgaps : ∀ c ∈ indent.toList, Text.isGap c = true)
    (c : Chain) : Steady config c := by
  induction c using Chain.inductionOn with
  | nil => exact steady_nil
  | cons b inputs next hin hnext =>
    intro hall c' alone hall' hsame
    cases c' with
    | nil => cases hsame
    | cons b' inputs' next' =>
      rw [Chain.hushed, Chain.hushed] at hsame
      obtain ⟨hblock, hinputs, hchain⟩ := Chain.cons.inj hsame
      obtain ⟨hb, hbelow, hbehind⟩ := Chain.all_cons.mp hall
      obtain ⟨hb', hbelow', hbehind'⟩ := Chain.all_cons.mp hall'
      have hrest := hnext hbehind next' false hbehind' hchain
      simp only [Chain.head?, Option.any_some]
      rcases hdisabled : b.isDisabled with _ | _
      · exact enabled_leads hmarker hmarks hindent hgaps hb hb' hblock hdisabled hin hbelow hbelow'
          hinputs hrest alone
      · obtain ⟨-, hdisabled', hgives'⟩ := Block.told_of_hushed hblock
        rw [codeOf_disabled hdisabled, codeOf_disabled (hdisabled'.trans hdisabled)]
        rcases hgives : b.givesValue with _ | _
        · exact hrest.mono fun _ _ h => h.behind
        · -- Nothing is behind a block that gives a value.
          rw [hb.ends hgives, hb'.ends (hgives'.trans hgives)]
          exact LeadsTo.pure .nothing

/-- When a program is made of one workspace, a program that shows the same code is made of another
with other comments. -/
theorem same_code (hmarker : config.commentMarker = .str marker)
    (hmarks : Marks marker) (hindent : config.indent = .str indent)
    (hgaps : ∀ c ∈ indent.toList, Text.isGap c = true) {w w' : Workspace} (hw : w.All Noted)
    (hw' : w'.All Noted)
    (htrees : List.Forall₂ (fun top top' => top.hushed = top'.hushed) w.trees w'.trees)
    {s : Session} (hs : Lived (Language.python config) s) {program : String}
    (hmade : ((Language.python config).pass w s).1 = .ok program) :
    ∃ program', ((Language.python config).pass w' s).1 = .ok program' ∧
      codeLines program = codeLines program' := by
  have hopened : (Language.python config).opened w' s = (Language.python config).opened w s := by
    unfold opened
    rw [htrees.length_eq]
  have hgood : InOrder ((Language.python config).opened w s) := hs.opened_orderly w
  refine pass_alike hs.not_running hgood hopened (written_alike ?_) hmade
  have htops : ∀ top ∈ w.trees, top.All Noted := hw
  have htops' : ∀ top ∈ w'.trees, top.All Noted := hw'
  generalize w.trees = tops at htrees htops
  generalize w'.trees = tops' at htrees htops'
  induction htrees with
  | nil => exact .nil
  | @cons top top' _ _ hsame _ ih =>
    obtain ⟨htop, hrest⟩ := List.forall_mem_cons.mp htops
    obtain ⟨htop', hrest'⟩ := List.forall_mem_cons.mp htops'
    refine .cons (section_alike (fun _ => rfl) ?_ ?_) (ih hrest hrest')
    · rw [← top.gives_hushed, hsame, top'.gives_hushed]
    · exact steady hmarker hmarks hindent hgaps top htop top' true htop' hsame

/-- The programs of a workspace with its comments and without them show the same lines of code.
If one of them cannot be made, the other cannot. -/
theorem comments_never_change_code (hmarker : config.commentMarker = .str marker)
    (hmarks : Marks marker) (hindent : config.indent = .str indent)
    (hgaps : ∀ c ∈ indent.toList, Text.isGap c = true) {w : Workspace} (_ : w.Acyclic)
    (hw : w.All Noted) {s : Session} (hs : Lived (Language.python config) s) :
    ((Language.python config).pass w s).1.toOption.map codeLines =
      ((Language.python config).pass w.uncommented s).1.toOption.map codeLines := by
  have hw' : w.uncommented.All Noted := by
    intro c hc
    rw [w.trees_uncommented, List.mem_map] at hc
    obtain ⟨top, htop, rfl⟩ := hc
    exact noted_hushed (hw top htop)
  have htrees : List.Forall₂ (fun top top' : Chain => top.hushed = top'.hushed) w.trees
      w.uncommented.trees := by
    rw [w.trees_uncommented, List.forall₂_map_right_iff, List.forall₂_same]
    exact fun top _ => top.hushed_hushed.symm
  have hback : List.Forall₂ (fun top top' : Chain => top.hushed = top'.hushed) w.uncommented.trees
      w.trees := htrees.flip.imp fun _ _ h => h.symm
  rcases hrun : ((Language.python config).pass w s).1 with fault | program <;>
    rcases hbare : ((Language.python config).pass w.uncommented s).1 with fault' | bare
  · rfl
  · obtain ⟨program, hprogram, -⟩ := same_code hmarker hmarks hindent hgaps hw' hw hback hs hbare
    rw [hrun] at hprogram
    cases hprogram
  · obtain ⟨bare, hmade, -⟩ := same_code hmarker hmarks hindent hgaps hw hw' htrees hs hrun
    rw [hbare] at hmade
    cases hmade
  · obtain ⟨made, hmade, hsame⟩ := same_code hmarker hmarks hindent hgaps hw hw' htrees hs hrun
    rw [hbare] at hmade
    cases hmade
    exact congrArg some hsame

end Runs

/-- A branch with remarks all about: on itself, on the condition, and on the line in its body. -/
def remarkedBranch : List Edit :=
  [.newBlock { type := .str "controls_if", id := .str "a", comment := .str "if\n\nelse" },
    .newBlock { type := .str "math_number", id := .str "b", output := .bool true,
                fields := .table [(.str "NUM", .int (-2))], comment := .str "yes" },
    .newBlock { type := .str "text_print", id := .str "c", comment := .str "end\n" },
    .connect 0 (.str "IF0") .value 1, .connect 0 (.str "DO0") .statement 2]

theorem remarkedBranch_treelike : Edit.Allowed Edit.Treelike remarkedBranch := by decide

theorem remarkedBranch_noted : (Edit.build remarkedBranch).All Noted := by
  have htrees : (Edit.build remarkedBranch).trees =
      [.cons { handle := 0, type := .str "controls_if", id := .str "a",
               comment := .str "if\n\nelse" }
        (.cons (.str "IF0") .value
          (.cons { handle := 1, type := .str "math_number", id := .str "b", output := .bool true,
                   fields := .table [(.str "NUM", .int (-2))], comment := .str "yes" } .nil .nil)
        (.cons (.str "DO0") .statement
          (.cons { handle := 2, type := .str "text_print", id := .str "c", comment := .str "end\n" }
            .nil .nil) .nil)) .nil] := rfl
  unfold Workspace.All
  rw [htrees]
  simp only [List.mem_singleton, forall_eq, Chain.all_cons, Inputs.all_cons, Chain.all_nil,
    Inputs.all_nil, and_true]
  refine ⟨?_, ?number, ?_⟩
  case number =>
    refine ⟨fun _ => rfl, Or.inr ⟨_, rfl⟩, fun _ => ⟨fun _ _ _ => rfl, ?_⟩, fun _ _ v hv => ?_⟩
    · simp [statementTypes]
    · cases hv
      exact .int (-2)
  all_goals
    refine ⟨fun _ => rfl, Or.inr ⟨_, rfl⟩, fun _ => ⟨?_, fun _ _ _ => rfl⟩, by simp⟩
    simp [valueTypes]

/-- The remarks are in the one program and not in the other, and the lines of code are the same. -/
theorem remarkedBranch_same_code :
    ({} : Config).commentMarker = .str "# " ∧ Marks "# " ∧ ({} : Config).indent = .str "  " ∧
      (∀ c ∈ "  ".toList, Text.isGap c = true) ∧ (Edit.build remarkedBranch).Acyclic ∧
      (Edit.build remarkedBranch).All Noted ∧
      Lived (Language.python {}) (Session.new (Language.python {})) ∧
      ((Language.python {}).pass (Edit.build remarkedBranch)
        (Session.new (Language.python {}))).1 = .ok
          "# if\n\n# else\n# yes\nif -2:\n  # end\n\n  print('')\n" ∧
      ((Language.python {}).pass (Edit.build remarkedBranch)
          (Session.new (Language.python {}))).1.toOption.map codeLines =
        ((Language.python {}).pass (Edit.build remarkedBranch).uncommented
          (Session.new (Language.python {}))).1.toOption.map codeLines := by
  have hmarks : Marks "# " := ⟨rfl, by simp⟩
  have hgaps : ∀ c ∈ "  ".toList, Text.isGap c = true := List.all_eq_true.mp rfl
  have hac := Edit.acyclic_build remarkedBranch_treelike
  refine ⟨rfl, hmarks, rfl, hgaps, hac, remarkedBranch_noted, .new, ?_, ?_⟩
  · rfl
  · exact comments_never_change_code rfl hmarks rfl hgaps hac remarkedBranch_noted .new

end Python
end BlockCode
