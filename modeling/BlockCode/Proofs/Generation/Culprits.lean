-- Which block an error is about. What a chain comes to is made by its first enabled block,
-- but whoever looks at it names the first block of the chain. So the block that is told to be
-- wrong is the one that is wrong as long as it is enabled.
import BlockCode.Proofs.Language.PythonRequests

namespace BlockCode

open BlockCode.Language

/-- The chain from its first enabled block on. -/
def Chain.awake : Chain → Chain
  | .nil => .nil
  | .cons b inputs next => if b.isDisabled then next.awake else .cons b inputs next

theorem Chain.enabled_of_awake {c : Chain} {b : Block} {inputs : Inputs} {next : Chain}
    (h : c.awake = .cons b inputs next) : b.isDisabled = false := by
  induction c using Chain.inductionOn with
  | nil => cases h
  | cons head below rest _ hrest =>
    unfold awake at h
    split at h
    · exact hrest h
    · rename_i henabled
      cases h
      exact Bool.eq_false_iff.mpr henabled

/-- The first block of a chain is the first enabled one just when it is enabled. -/
theorem Chain.head_eq_awake_iff {c : Chain} {head b : Block} {inputs : Inputs} {next : Chain}
    (hhead : c.head? = some head) (h : c.awake = .cons b inputs next) :
    head = b ↔ head.isDisabled = false := by
  constructor
  · rintro rfl
    exact enabled_of_awake h
  · intro henabled
    cases c with
    | nil => cases hhead
    | cons first below rest =>
      cases hhead
      unfold awake at h
      rw [henabled] at h
      cases h
      rfl

namespace Language

variable {L : Language} {nested : Workspace → Action String}

theorem codeOf_awake (c : Chain) : L.codeOf nested false c = L.codeOf nested false c.awake := by
  induction c using Chain.inductionOn with
  | nil => rfl
  | cons b inputs next _ hnext =>
    unfold Chain.awake
    split
    · rename_i hdisabled
      rw [codeOf_disabled hdisabled, hnext]
    · rfl

/-- Some run of the rule for the block came to this result. -/
def Returned (L : Language) (nested : Workspace → Action String) (b : Block) (inputs : Inputs)
    (result : RuleResult) : Prop :=
  ∃ rule s s', L.ruleFor b.type = .ok (some rule) ∧
    perform (L.answer nested b (L.plugs nested inputs)) (rule b inputs) s = (.ok result, s')

/-- What a chain comes to, if it is anything, was returned by the rule for its first
enabled block. -/
theorem returned_of_codeOf {c : Chain} {s s' : Session} {code : Code}
    (hcode : L.codeOf nested false c s = (.ok code, s')) (hcode' : code ≠ .statements "") :
    ∃ b inputs next result before behind, c.awake = .cons b inputs next ∧
      L.Returned nested b inputs result ∧ result.between before behind = some code := by
  rw [codeOf_awake] at hcode
  rcases hawake : c.awake with _ | ⟨b, inputs, next⟩
  · rw [hawake] at hcode
    cases hcode
    exact absurd rfl hcode'
  · rw [hawake] at hcode
    obtain ⟨rule, result, after, before, behind, hrule, hrun, -, -, hbetween⟩ :=
      (codeOf_iff (Chain.enabled_of_awake hawake)).mp hcode
    exact ⟨b, inputs, next, result, before, behind, rfl, ⟨rule, _, after, hrule, hrun⟩, hbetween⟩

/-! ## Errors about what a block returned -/

/-- A chain that is plugged into the inputs or stands behind the block. -/
inductive Connected (inputs : Inputs) (next : Chain) : Chain → Prop
  | input (name : Value) : Connected inputs next (inputs.target name)
  | next : Connected inputs next next

/-- The error is told about `accused`, for what the rule for `culprit` returned. -/
inductive Charged (L : Language) (nested : Workspace → Action String) (b : Block)
    (inputs : Inputs) (next : Chain) : GenerationError → Block → Block → Prop
  /-- A tuple that is no expression. -/
  | pair {items : List Value} : L.Returned nested b inputs (.other (.tuple items)) →
    Charged L nested b inputs next (.malformedPair b) b b
  /-- No code at all. -/
  | noCode {v : Value} : L.Returned nested b inputs (.other v) →
    Charged L nested b inputs next (.noCode b v) b b
  /-- Statements in an input for an expression. -/
  | missing {name : Value} {accused culprit : Block} {below : Inputs} {rest : Chain}
    {text : String} : (inputs.target name).head? = some accused →
    (inputs.target name).awake = .cons culprit below rest →
    L.Returned nested culprit below (.code text) →
    Charged L nested b inputs next (.missingOrder accused) accused culprit
  /-- An expression in an input whose order is no order. -/
  | inner {name : Value} {accused culprit : Block} {below : Inputs} {rest : Chain}
    {text : String} {order : Value} : (inputs.target name).head? = some accused →
    (inputs.target name).awake = .cons culprit below rest →
    L.Returned nested culprit below (.expression text order) → isOrder order = .ok false →
    Charged L nested b inputs next (.invalidInnerOrder accused order) accused culprit
  /-- An expression among statements. -/
  | misplaced {c : Chain} {accused culprit : Block} {below : Inputs} {rest : Chain}
    {text : String} {order : Value} : Connected inputs next c → c.head? = some accused →
    c.awake = .cons culprit below rest →
    L.Returned nested culprit below (.expression text order) →
    Charged L nested b inputs next (.misplacedValue accused) accused culprit

end Language

/-- The message names a type of block. -/
def GenerationError.Quotes (e : GenerationError) (type : Value) : Prop :=
  ∃ before after, e.message = before ++ "\"" ++ type.shown ++ "\"" ++ after

namespace Language

variable {L : Language} {nested : Workspace → Action String} {b : Block} {inputs : Inputs}
  {next : Chain} {e : GenerationError} {accused culprit : Block}

theorem Charged.about (h : L.Charged nested b inputs next e accused culprit) :
    e.block = some accused ∧ e.Quotes accused.type := by
  cases h with
  | pair _ =>
    refine ⟨rfl, "Expecting (code, order) from value block ", "", ?_⟩
    simp [GenerationError.malformedPair]
  | @noCode v _ =>
    refine ⟨rfl, "Block ", " produced " ++ v.kind ++ ", expected code", ?_⟩
    show "Block \"" ++ _ ++ ("\"" ++ " produced ") ++ _ ++ _ = ("Block " ++ "\"") ++ _ ++ _ ++ _
    simp only [String.append_assoc]
    rfl
  | missing _ _ _ =>
    refine ⟨rfl, "Expecting tuple from value block ", "", ?_⟩
    simp [GenerationError.missingOrder]
  | @inner _ _ _ _ _ _ order _ _ _ _ =>
    refine ⟨rfl, "Expecting valid order from value block ", ", got " ++ order.written, ?_⟩
    show "Expecting valid order from value block \"" ++ _ ++ ("\"" ++ ", got ") ++ _ =
      ("Expecting valid order from value block " ++ "\"") ++ _ ++ _ ++ _
    simp only [String.append_assoc]
    rfl
  | misplaced _ _ _ _ =>
    refine ⟨rfl, "Expecting code from statement block ", "", ?_⟩
    simp [GenerationError.misplacedValue]

/-- The block whose rule returned it is enabled, and it is accused just when the block that
is accused is enabled. -/
theorem Charged.rightly_iff (h : L.Charged nested b inputs next e accused culprit)
    (hb : b.isDisabled = false) :
    culprit.isDisabled = false ∧ (e.block = some culprit ↔ accused.isDisabled = false) := by
  have hblock := h.about.1
  cases h with
  | pair _ => exact ⟨hb, iff_of_true rfl hb⟩
  | noCode _ => exact ⟨hb, iff_of_true rfl hb⟩
  | missing hhead hawake _ =>
    rw [hblock, Option.some_inj, Chain.head_eq_awake_iff hhead hawake]
    exact ⟨Chain.enabled_of_awake hawake, Iff.rfl⟩
  | inner hhead hawake _ _ =>
    rw [hblock, Option.some_inj, Chain.head_eq_awake_iff hhead hawake]
    exact ⟨Chain.enabled_of_awake hawake, Iff.rfl⟩
  | misplaced _ hhead hawake _ =>
    rw [hblock, Option.some_inj, Chain.head_eq_awake_iff hhead hawake]
    exact ⟨Chain.enabled_of_awake hawake, Iff.rfl⟩

/-- What is raised at a block about a result is charged to the block that returned it. -/
theorem Raised.charged (h : L.Raised nested b inputs next e) :
    (L.ruleFor b.type = .ok none ∧ e = .unsupportedType L.name b.type (some b)) ∨
      (∃ order, isOrder order = .ok false ∧ e = .invalidOuterOrder b order) ∨
      ∃ accused culprit, L.Charged nested b inputs next e accused culprit := by
  cases h with
  | unsupported hrule => exact .inl ⟨hrule, rfl⟩
  | outer horder => exact .inr (.inl ⟨_, horder, rfl⟩)
  | missing hhead hcode htext =>
    obtain ⟨culprit, below, rest, result, before, behind, hawake, hreturned, hbetween⟩ :=
      returned_of_codeOf hcode (fun heq => htext (Code.statements.inj heq))
    cases result <;> cases hbetween
    exact .inr (.inr ⟨_, culprit, .missing hhead hawake hreturned⟩)
  | inner hhead hcode horder =>
    obtain ⟨culprit, below, rest, result, before, behind, hawake, hreturned, hbetween⟩ :=
      returned_of_codeOf hcode nofun
    cases result <;> cases hbetween
    exact .inr (.inr ⟨_, culprit, .inner hhead hawake hreturned horder⟩)
  | misplaced hhead hcode =>
    obtain ⟨culprit, below, rest, result, before, behind, hawake, hreturned, hbetween⟩ :=
      returned_of_codeOf hcode nofun
    cases result <;> cases hbetween
    exact .inr (.inr ⟨_, culprit, .misplaced (.input _) hhead hawake hreturned⟩)
  | behind hhead hcode =>
    obtain ⟨culprit, below, rest, result, before, behind, hawake, hreturned, hbetween⟩ :=
      returned_of_codeOf hcode nofun
    cases result <;> cases hbetween
    exact .inr (.inr ⟨_, culprit, .misplaced .next hhead hawake hreturned⟩)
  | pair hrule hrun => exact .inr (.inr ⟨b, b, .pair ⟨_, _, _, hrule, hrun⟩⟩)
  | noCode hrule hrun => exact .inr (.inr ⟨b, b, .noCode ⟨_, _, _, hrule, hrun⟩⟩)

end Language

/-! ## Errors of a pass -/

/-- The errors that tell of something that a rule returned or of an order. -/
def ErrorKind.isVerdict : ErrorKind → Bool
  | invalidOrder => true
  | malformedValue => true
  | malformedStatement => true
  | _ => false

/-- The fault is told as an error of these kinds. -/
def Fault.IsVerdict (fault : Fault) : Prop := ∃ e, fault = .generation e ∧ e.kind.isVerdict = true

/-- Rules leave it to those who ask to tell what is wrong with a result. They may pass such
errors on. -/
structure Language.Candid (L : Language) : Prop where
  rules : ∀ b rule, L.ruleFor b.type = .ok (some rule) →
    ∀ inputs, (rule b inputs).PassesOn fun fault => ¬ fault.IsVerdict
  standing : ∀ text, Faults (fun fault => ¬ fault.IsVerdict) (L.standing text)

/-- The error was charged when some enabled block of the workspace was at work. -/
def Language.ChargedIn (L : Language) (w : Workspace) (e : GenerationError)
    (accused culprit : Block) : Prop :=
  ∃ top ∈ w.trees, ∃ b inputs next, .cons b inputs next ∈ top.parts ∧ b.isDisabled = false ∧
    L.Charged (fun _ => L.refuse) b inputs next e accused culprit

/-- When a pass ends with an error about a result, the rule for an enabled block has returned
it: the block at work, or the first enabled one of a chain that is connected to it. The error
is about that block just when the block that it names is enabled. Otherwise it is about the
disabled block that comes first in the chain. -/
theorem culprit_named_iff {L : Language} (hL : L.Candid) {w : Workspace} {s : Session}
    {e : GenerationError} (hpass : (L.pass w s).1 = .error (.generation e))
    (hkind : e.kind.isVerdict = true) (hinner : ∀ b order, e ≠ .invalidOuterOrder b order) :
    ∃ accused culprit, L.ChargedIn w e accused culprit ∧ culprit.isDisabled = false ∧
      e.block = some accused ∧ e.Quotes accused.type ∧
      (e.block = some culprit ↔ accused.isDisabled = false) := by
  have hrisks : Risks (fun fault => ∀ e, fault = .generation e → e.kind.isVerdict = true →
      (∀ b order, e ≠ .invalidOuterOrder b order) →
      ∃ accused culprit, L.ChargedIn w e accused culprit) (L.pass w) := by
    refine Risks.pass ?_ ?_ ?_ ?_ ?_
    · intro fault hplain e heq
      exact absurd heq (hplain e)
    · intro e heq hverdict
      cases heq
      cases hverdict
    · intro top htop b inputs next hpart rule hrule
      exact (hL.rules b rule hrule inputs).raises fun fault hnot e heq hverdict =>
        absurd ⟨e, heq, hverdict⟩ hnot
    · intro top htop b inputs next hpart hb _ hraised e heq hverdict houter
      cases heq
      rcases hraised.charged with ⟨-, rfl⟩ | ⟨order, -, rfl⟩ | ⟨accused, culprit, hcharged⟩
      · cases hverdict
      · exact absurd rfl (houter b order)
      · exact ⟨accused, culprit, top, htop, b, inputs, next, hpart, hb, hcharged⟩
    · exact fun text => (hL.standing text).mono fun fault hnot e heq hverdict =>
        absurd ⟨e, heq, hverdict⟩ hnot
  obtain ⟨accused, culprit, hcharged⟩ := hrisks s _ hpass e rfl hkind hinner
  obtain ⟨top, htop, b, inputs, next, hpart, hb, hat⟩ := hcharged
  obtain ⟨henabled, hiff⟩ := hat.rightly_iff hb
  exact ⟨accused, culprit, ⟨top, htop, b, inputs, next, hpart, hb, hat⟩, henabled, hat.about.1,
    hat.about.2, hiff⟩

/-! ## A disabled block that is accused -/

theorem Python.candid (config : Config) : (Language.python config).Candid where
  rules := by
    intro b rule hrule inputs
    refine (Python.passesOn_of_ruleFor b hrule inputs).mono ?_
    rintro fault hplain ⟨e, rfl, -⟩
    exact hplain e rfl
  standing := fun _ => .ok _

def quietText : Block :=
  { handle := 1, type := .str "text", id := .str "d", output := .bool true, disabled := .bool true }

def hiddenPrint : Block := { handle := 2, type := .str "text_print", id := .str "e" }

def outerPrint : Block := { handle := 0, type := .str "text_print", id := .str "p" }

/-- A statement hides behind a disabled expression in the input of another statement. -/
def hidden : Workspace where
  nodes :=
    [{ block := outerPrint, slots := [{ name := .str "TEXT", kind := .value, target := some 1 }] },
      { block := quietText, parent := some 0, next := some 2 },
      { block := hiddenPrint, parent := some 1 }]
  members := [0, 1, 2]

theorem hidden_pass : ((Language.python {}).pass hidden (Session.new (Language.python {}))).1 =
    .error (.generation (.missingOrder quietText)) := rfl

/-- The error tells of what some enabled block returned. -/
theorem hidden_charged : (Language.python {}).Candid ∧
    ((Language.python {}).pass hidden (Session.new (Language.python {}))).1 =
      .error (.generation (.missingOrder quietText)) ∧
    ∃ accused culprit,
      (Language.python {}).ChargedIn hidden (.missingOrder quietText) accused culprit ∧
      culprit.isDisabled = false ∧ (GenerationError.missingOrder quietText).block = some accused ∧
      (GenerationError.missingOrder quietText).Quotes accused.type ∧
      ((GenerationError.missingOrder quietText).block = some culprit ↔
        accused.isDisabled = false) :=
  ⟨Python.candid {}, hidden_pass, culprit_named_iff (Python.candid {}) hidden_pass rfl
    fun _ _ h => nomatch congrArg GenerationError.kind h⟩

/-- The statement returned what is wrong, and the disabled block is told to be. -/
theorem disabled_block_accused :
    ((Language.python {}).pass hidden (Session.new (Language.python {}))).1 =
        .error (.generation (.missingOrder quietText)) ∧
      (∃ inputs, (Language.python {}).Charged (fun _ => (Language.python {}).refuse) outerPrint
        inputs .nil (.missingOrder quietText) quietText hiddenPrint) ∧
      quietText.isDisabled = true ∧ hiddenPrint.isDisabled = false ∧
      (GenerationError.missingOrder quietText).block ≠ some hiddenPrint := by
  let inputs : Inputs := .cons (.str "TEXT") .value (.cons quietText .nil
    (.cons hiddenPrint .nil .nil)) .nil
  have hhead : (inputs.target (.str "TEXT")).head? = some quietText := rfl
  refine ⟨hidden_pass, ⟨inputs, ?_⟩, rfl, rfl, ?_⟩
  · exact .missing hhead rfl ⟨Python.printRule, {}, _, rfl, rfl⟩
  · intro h
    exact absurd (congrArg (Option.map Block.handle) h) (by decide)

end BlockCode
