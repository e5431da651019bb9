-- Workspaces that are well typed: every block has a type that the language knows, sits where
-- its type may sit, and has in its fields what its rule reads. The program of such a workspace
-- is always made. Disabled blocks need no type at all; the places where they sit still tell
-- what can come out of them.
import BlockCode.Number.Reading
import BlockCode.Proofs.Generation.Remarks
import BlockCode.Proofs.Language.PythonPrecedence
import BlockCode.Proofs.Workspace.Lost

namespace BlockCode.Python

open BlockCode.Language (Gives)

/-! ## Types -/

/-- The types whose rules make expressions. -/
def valueTypes : List String :=
  ["text", "math_number", "math_arithmetic", "math_is_prime", "logic_boolean", "logic_compare",
    "logic_negate", "variables_get"]

/-- The types whose rules make statements. -/
def statementTypes : List String :=
  ["text_print", "variables_set", "controls_if", "controls_repeat_ext"]

/-- The inputs that rules take expressions from. -/
def valueInputs : List String :=
  ["TEXT", "A", "B", "NUMBER_TO_CHECK", "BOOL", "VALUE", "IF0", "TIMES"]

/-- The inputs that rules take statements from. -/
def bodyInputs : List String := ["DO0", "ELSE", "DO"]

/-- The block gives a value just when the rule for its type makes an expression. -/
structure Flagged (b : Block) : Prop where
  values : ∀ type ∈ valueTypes, b.type = .str type → b.givesValue = true
  statements : ∀ type ∈ statementTypes, b.type = .str type → b.givesValue = false

instance decidableFlagged (b : Block) : Decidable (Flagged b) :=
  decidable_of_iff
    ((∀ type ∈ valueTypes, b.type = .str type → b.givesValue = true) ∧
      ∀ type ∈ statementTypes, b.type = .str type → b.givesValue = false)
    ⟨fun ⟨hvalues, hstatements⟩ => ⟨hvalues, hstatements⟩, fun h => ⟨h.values, h.statements⟩⟩

/-- A number that can be written: a finite one, or a whole one of not too many digits. -/
inductive Numeral : Value → Prop
  | int (i : Int) : (Nat.toDigits 10 i.natAbs).length ≤ Number.mostDigits → Numeral (.int i)
  | float (negative : Bool) (mantissa : Nat) (exponent : Int) :
    Numeral (.float (.finite negative mantissa exponent))

/-- The fields hold what the rule for the type reads. -/
structure Fielded (b : Block) : Prop where
  table : ∃ entries, b.fields = .table entries
  named : IsVariable b → ∃ name, b.field "VAR" = .ok name ∧ name.IsText
  operator : b.type = .str "math_arithmetic" →
    ∃ op ∈ arithmeticOperators.map (·.1), b.field "OP" = .ok (.str op)
  comparison : b.type = .str "logic_compare" →
    ∃ op ∈ comparisons.map (·.1), b.field "OP" = .ok (.str op)
  text : b.type = .str "text" → ∃ v, b.field "TEXT" = .ok v ∧ v.IsText
  number : b.type = .str "math_number" → ∃ v, b.field "NUM" = .ok v ∧ Numeral v

/-- Inputs for expressions are declared for values, and those for bodies for statements. -/
structure Slotted (inputs : Inputs) : Prop where
  expressions : ∀ name ∈ valueInputs, ∀ n kind target,
    inputs.at? (.str name) = some (n, kind, target) → kind = .value
  bodies : ∀ name ∈ bodyInputs, ∀ n kind target,
    inputs.at? (.str name) = some (n, kind, target) → kind = .statement

/-- An enabled block that its rule can make something of. -/
structure Typed (b : Block) (inputs : Inputs) : Prop extends Flagged b, Fielded b, Slotted inputs where
  known : ∃ type ∈ valueTypes ++ statementTypes, b.type = .str type

/-- A block that sits where it may, with a comment that can be written. If it is enabled, it
has a type of the language. -/
structure WellTyped (b : Block) (inputs : Inputs) (next : Chain) : Prop
    extends Wired b inputs next where
  commented : b.Commented
  typed : b.isDisabled = false → Typed b inputs

/-! ## What rules ask for and make -/

/-- What can be asked for in a workspace that is well typed. -/
inductive May : Request → Prop
  | value {input : String} {order : Int} : input ∈ valueInputs →
    order ∈ orders ∨ order = anything → May (.value (.str input) (.int order))
  | statements {input : String} : input ∈ bodyInputs → May (.statements (.str input))
  | identifier {name : Value} : name.IsText → May (variableRequest name)
  | prime : May primeRequest
  | counter : May counterRequest

/-- The rule makes an expression that can stand in an input. -/
def MakesExpression (x : Script RuleResult) : Prop :=
  x.Ends May fun result => ∃ text order, result = .expression text order ∧
    Language.isOrder order = .ok true

/-- The rule makes statements. -/
def MakesCode (x : Script RuleResult) : Prop := x.Ends May fun result => ∃ text, result = .code text

variable {b : Block} {inputs : Inputs}

theorem makes_expression {text : String} {order : Int} (horder : order ∈ orders) :
    MakesExpression (pure (expression text order)) :=
  .pure ⟨text, .int order, rfl, isOrder_of_mem (Or.inl horder)⟩

theorem makes_code {text : String} : MakesCode (pure (.code text)) := .pure ⟨text, rfl⟩

theorem ends_valueOr {input : String} (hinput : input ∈ valueInputs) {order : Int}
    (horder : order ∈ orders ∨ order = anything) (missing : String) :
    (valueOr input order missing).Ends May fun _ => True :=
  (Script.Ends.request (May.value hinput horder)).bind fun _ _ => .pure trivial

theorem ends_bodyOr {input : String} (hinput : input ∈ bodyInputs) :
    (bodyOr input).Ends May fun _ => True :=
  (Script.Ends.request (May.statements hinput)).bind fun _ _ => .pure trivial

theorem ends_variableOf (h : Fielded b) (hb : IsVariable b) :
    (variableOf b).Ends May fun _ => True := by
  obtain ⟨name, hname, htext⟩ := h.named hb
  have hread : (Script.field b "VAR").Ends May (· = name) := .done hname rfl
  refine hread.bind ?_
  rintro _ rfl
  exact Script.Ends.request (May.identifier htext)

theorem ends_field (h : Fielded b) (name : String) :
    (Script.field b name).Ends May fun v => b.field name = .ok v := by
  obtain ⟨entries, hentries⟩ := h.table
  have hfield := Block.field_of_table hentries name
  exact Script.Ends.done hfield hfield

theorem operator_found {op : String} (hop : op ∈ arithmeticOperators.map (·.1)) :
    ∃ sign order, operator arithmeticOperators (.str op) = .ok (sign, order) ∧ order ∈ orders := by
  simp only [arithmeticOperators, List.map_cons, List.map_nil, List.mem_cons, List.not_mem_nil,
    or_false] at hop
  rcases hop with rfl | rfl | rfl | rfl | rfl <;> exact ⟨_, _, rfl, by decide⟩

theorem comparison_found {op : String} (hop : op ∈ comparisons.map (·.1)) :
    ∃ sign, operator comparisons (.str op) = .ok sign := by
  simp only [comparisons, List.map_cons, List.map_nil, List.mem_cons, List.not_mem_nil,
    or_false] at hop
  rcases hop with rfl | rfl | rfl | rfl | rfl | rfl <;> exact ⟨_, rfl⟩

theorem literal_of_isText {v : Value} (h : v.IsText) : ∃ code, literal v = .ok code := by
  obtain ⟨signs, hv⟩ := h
  cases v with
  | str s => exact ⟨_, rfl⟩
  | torn t => exact ⟨_, rfl⟩
  | _ => cases hv

theorem text_of_numeral {v : Value} (h : Numeral v) : ∃ code, v.text = .ok code := by
  cases h with
  | int i hdigits => exact ⟨_, if_pos (decide_eq_true hdigits)⟩
  | float negative mantissa exponent => exact ⟨_, rfl⟩

theorem makes_textRule (h : Fielded b) (hb : b.type = .str "text") :
    MakesExpression (textRule b inputs) := by
  obtain ⟨v, hfield, htext⟩ := h.text hb
  obtain ⟨code, hliteral⟩ := literal_of_isText htext
  refine (ends_field h "TEXT").bind fun read hread => ?_
  obtain rfl : v = read := Except.ok.inj (hfield.symm.trans hread)
  have hread : (Script.done (literal v)).Ends May fun _ => True := .done hliteral trivial
  exact hread.bind fun _ _ => makes_expression (by decide)

theorem makes_numberRule (h : Fielded b) (hb : b.type = .str "math_number") :
    MakesExpression (numberRule b inputs) := by
  obtain ⟨v, hfield, hnumeral⟩ := h.number hb
  obtain ⟨code, htext⟩ := text_of_numeral hnumeral
  refine (ends_field h "NUM").bind fun read hread => ?_
  obtain rfl : v = read := Except.ok.inj (hfield.symm.trans hread)
  have hread : (Script.done v.text).Ends May fun _ => True := .done htext trivial
  refine hread.bind fun _ _ => makes_expression ?_
  split <;> decide

theorem makes_booleanRule (h : Fielded b) : MakesExpression (booleanRule b inputs) :=
  (ends_field h "BOOL").bind fun _ _ => makes_expression (by decide)

theorem makes_arithmeticRule (h : Fielded b) (hb : b.type = .str "math_arithmetic") :
    MakesExpression (arithmeticRule b inputs) := by
  obtain ⟨op, hop, hfield⟩ := h.operator hb
  obtain ⟨sign, order, hoperator, horder⟩ := operator_found hop
  refine (ends_field h "OP").bind fun v hv => ?_
  obtain rfl : Value.str op = v := Except.ok.inj (hfield.symm.trans hv)
  have hread : (Script.done (operator arithmeticOperators (.str op))).Ends May (· = (sign, order)) :=
    .done hoperator rfl
  refine hread.bind ?_
  rintro _ rfl
  refine (ends_valueOr (by decide) (Or.inl horder) "0").bind fun left _ => ?_
  exact (ends_valueOr (by decide) (Or.inl horder) "0").bind fun right _ => makes_expression horder

theorem makes_compareRule (h : Fielded b) (hb : b.type = .str "logic_compare") :
    MakesExpression (compareRule b inputs) := by
  obtain ⟨op, hop, hfield⟩ := h.comparison hb
  obtain ⟨sign, hoperator⟩ := comparison_found hop
  refine (ends_field h "OP").bind fun v hv => ?_
  obtain rfl : Value.str op = v := Except.ok.inj (hfield.symm.trans hv)
  have hread : (Script.done (operator comparisons (.str op))).Ends May (· = sign) :=
    .done hoperator rfl
  refine hread.bind ?_
  rintro _ rfl
  refine (ends_valueOr (by decide) (Or.inl (by decide)) "0").bind fun left _ => ?_
  exact (ends_valueOr (by decide) (Or.inl (by decide)) "0").bind fun right _ =>
    makes_expression (by decide)

theorem makes_negateRule : MakesExpression (negateRule b inputs) :=
  (ends_valueOr (by decide) (Or.inl (by decide)) "True").bind fun _ _ =>
    makes_expression (by decide)

theorem makes_primeRule : MakesExpression (primeRule b inputs) := by
  refine (Script.Ends.request May.prime).bind fun name _ => ?_
  exact (ends_valueOr (by decide) (Or.inr rfl) "0").bind fun number _ => makes_expression (by decide)

theorem makes_getRule (h : Fielded b) (hb : IsVariable b) : MakesExpression (getRule b inputs) :=
  (ends_variableOf h hb).bind fun _ _ => makes_expression (by decide)

theorem makes_printRule : MakesCode (printRule b inputs) :=
  (ends_valueOr (by decide) (Or.inr rfl) "''").bind fun _ _ => makes_code

theorem makes_setRule (h : Fielded b) (hb : IsVariable b) : MakesCode (setRule b inputs) :=
  (ends_variableOf h hb).bind fun _ _ =>
    (ends_valueOr (by decide) (Or.inr rfl) "0").bind fun _ _ => makes_code

theorem makes_ifRule : MakesCode (ifRule b inputs) := by
  refine (ends_valueOr (by decide) (Or.inr rfl) "False").bind fun condition _ => ?_
  refine (ends_bodyOr (by decide)).bind fun body _ => ?_
  simp only
  split
  · exact (ends_bodyOr (by decide)).bind fun other _ => makes_code
  · exact makes_code

theorem makes_repeatRule : MakesCode (repeatRule b inputs) := by
  refine (ends_valueOr (by decide) (Or.inr rfl) "0").bind fun times _ => ?_
  refine (ends_bodyOr (by decide)).bind fun body _ => ?_
  exact (Script.Ends.request May.counter).bind fun counter _ => makes_code

/-- There is a rule for a block that is typed, and it makes what the block gives. -/
theorem Typed.rule (h : Typed b inputs) (config : Config) :
    ∃ rule, (Language.python config).ruleFor b.type = .ok (some rule) ∧
      (b.givesValue = true → MakesExpression (rule b inputs)) ∧
      (b.givesValue = false → MakesCode (rule b inputs)) := by
  have hexpression : ∀ type rule, type ∈ valueTypes → b.type = .str type →
      (Language.python config).ruleFor (.str type) = .ok (some rule) →
      MakesExpression (rule b inputs) →
      ∃ rule, (Language.python config).ruleFor b.type = .ok (some rule) ∧
        (b.givesValue = true → MakesExpression (rule b inputs)) ∧
        (b.givesValue = false → MakesCode (rule b inputs)) := by
    intro type rule htype hb hrule hmakes
    refine ⟨rule, by rw [hb, hrule], fun _ => hmakes, fun hnone => ?_⟩
    rw [h.toFlagged.values type htype hb] at hnone
    cases hnone
  have hcode : ∀ type rule, type ∈ statementTypes → b.type = .str type →
      (Language.python config).ruleFor (.str type) = .ok (some rule) → MakesCode (rule b inputs) →
      ∃ rule, (Language.python config).ruleFor b.type = .ok (some rule) ∧
        (b.givesValue = true → MakesExpression (rule b inputs)) ∧
        (b.givesValue = false → MakesCode (rule b inputs)) := by
    intro type rule htype hb hrule hmakes
    refine ⟨rule, by rw [hb, hrule], fun hgives => ?_, fun _ => hmakes⟩
    rw [h.toFlagged.statements type htype hb] at hgives
    cases hgives
  obtain ⟨type, hknown, hb⟩ := h.known
  simp only [valueTypes, statementTypes, List.cons_append, List.nil_append, List.mem_cons,
    List.not_mem_nil, or_false] at hknown
  rcases hknown with rfl | rfl | rfl | rfl | rfl | rfl | rfl | rfl | rfl | rfl | rfl | rfl
  · exact hexpression _ textRule (by decide) hb rfl (makes_textRule h.toFielded hb)
  · exact hexpression _ numberRule (by decide) hb rfl (makes_numberRule h.toFielded hb)
  · exact hexpression _ arithmeticRule (by decide) hb rfl (makes_arithmeticRule h.toFielded hb)
  · exact hexpression _ primeRule (by decide) hb rfl makes_primeRule
  · exact hexpression _ booleanRule (by decide) hb rfl (makes_booleanRule h.toFielded)
  · exact hexpression _ compareRule (by decide) hb rfl (makes_compareRule h.toFielded hb)
  · exact hexpression _ negateRule (by decide) hb rfl makes_negateRule
  · exact hexpression _ getRule (by decide) hb rfl (makes_getRule h.toFielded (Or.inl hb))
  · exact hcode _ printRule (by decide) hb rfl makes_printRule
  · exact hcode _ setRule (by decide) hb rfl (makes_setRule h.toFielded (Or.inr hb))
  · exact hcode _ ifRule (by decide) hb rfl makes_ifRule
  · exact hcode _ repeatRule (by decide) hb rfl makes_repeatRule

/-! ## Every request is answered -/

section Answers

variable {config : Config} {nested : Workspace → Action String} {indent : String}

/-- Whatever place takes an expression can take this code. -/
def Operand (config : Config) (code : Code) : Prop :=
  ∀ outer, ∃ text, (Language.python config).Gives outer code text

def Statements (code : Code) : Prop := ∃ text, code = .statements text

theorem operand_nothing : Operand config (.statements "") := fun _ => ⟨"", .nothing⟩

theorem identifier_comes {name : Value} (h : name.IsText) :
    Effect.Comes (fun _ => True) (Session.identifier name (.str "variable") false) := by
  intro s
  obtain ⟨g, hg⟩ := Names.getFor_variable s.pass.names h
  rw [Session.identifier_apply, hg, Session.grant_ok]
  exact ⟨_, _, rfl, trivial⟩

theorem counter_comes :
    Effect.Comes (fun _ => True) (Session.ownIdentifier (.str "count") (.str "variable")) := by
  intro s
  obtain ⟨g, hg⟩ := Names.ownFor_text s.pass.names
    (rfl : (Value.str "count").spelling? = _) (.str "variable")
  rw [Session.ownIdentifier_apply, hg, Session.grant_ok]
  exact ⟨_, _, rfl, trivial⟩

theorem helper_comes (config : Config) :
    Effect.Comes (fun _ => True) (Session.helper (Language.python config) (.str "math_isPrime")
      (.list (primeHelper.map Value.str))) := by
  intro s
  obtain ⟨identifier, hok⟩ := Helpers.ask_answers s.pass.helpers s.pass.names
    (rfl : (Value.str "math_isPrime").spelling? = _) config.stableNames.truth linesOf_primeHelper
  rw [Session.helper_apply]
  exact ⟨identifier, _, congrArg (·, _) hok, trivial⟩

/-- Every request is answered when every input holds code of its kind. -/
theorem answer_comes (hindent : config.indent = .str indent) (hslots : Slotted inputs)
    (hvalues : ∀ c ∈ inputs.targets .value,
      Effect.Comes (Operand config) ((Language.python config).codeOf nested false c))
    (hbodies : ∀ c ∈ inputs.targets .statement,
      Effect.Comes Statements ((Language.python config).codeOf nested false c))
    (b : Block) {r : Request} (hr : May r) :
    Effect.Comes (fun _ => True) (answers config nested b inputs r) := by
  cases hr with
  | @value input order hinput horder =>
    have htarget : Effect.Comes (Operand config)
        ((Language.python config).codeOf nested false (inputs.target (.str input))) := by
      rw [Inputs.target_eq_at?]
      rcases hat : inputs.at? (.str input) with _ | ⟨n, kind, target⟩
      · exact .pure operand_nothing
      · obtain rfl := hslots.expressions input hinput n kind target hat
        exact hvalues target (Inputs.mem_targets_of_at? hat)
    intro s
    obtain ⟨code, s', hcode, hoperand⟩ := htarget s
    obtain ⟨text, hgives⟩ := hoperand (.int order)
    exact ⟨text, s', Language.plugged_iff.mpr ⟨isOrder_of_mem horder, .str input, code, rfl, hcode,
      hgives⟩, trivial⟩
  | @statements input hinput =>
    have htarget : Effect.Comes Statements
        ((Language.python config).codeOf nested false (inputs.target (.str input))) := by
      rw [Inputs.target_eq_at?]
      rcases hat : inputs.at? (.str input) with _ | ⟨n, kind, target⟩
      · exact .pure ⟨"", rfl⟩
      · obtain rfl := hslots.bodies input hinput n kind target hat
        exact hbodies target (Inputs.mem_targets_of_at? hat)
    have hnest : ∀ made, ∃ text, (Language.python config).nest made = .ok text := by
      intro made
      unfold Language.nest Config.indented
      split
      · exact ⟨"", rfl⟩
      · exact ⟨_, by rw [show (Language.python config).config = config from rfl, hindent]; rfl⟩
    intro s
    obtain ⟨_, s', hcode, made, rfl⟩ := htarget s
    obtain ⟨text, htext⟩ := hnest made
    exact ⟨text, s', Language.nestedStatements_iff.mpr ⟨.str input, made, rfl, hcode, htext⟩,
      trivial⟩
  | identifier htext => exact identifier_comes htext
  | prime => exact helper_comes config
  | counter => exact counter_comes

end Answers

/-! ## Every program is made -/

section Programs

variable {config : Config} {nested : Workspace → Action String} {indent marker : String}

/-- What comes of a chain is told by its head: something for an expression if the head gives
a value, and statements if it gives none. -/
def Sorted (config : Config) (nested : Workspace → Action String) (c : Chain) : Prop :=
  c.All WellTyped → ∀ alone,
    (c.GivesValue →
      Effect.Comes (Operand config) ((Language.python config).codeOf nested alone c)) ∧
    (c.GivesNone →
      Effect.Comes Statements ((Language.python config).codeOf nested alone c))

/-- The code of an enabled block is made when the code of all that hangs on it is. -/
theorem enabled_comes (hindent : config.indent = .str indent)
    (hmarker : config.commentMarker = .str marker) {next : Chain}
    (hb : WellTyped b inputs next) (henabled : b.isDisabled = false)
    (hin : inputs.Every (Sorted config nested)) (hall : inputs.All WellTyped)
    (hnext : Effect.Comes Statements ((Language.python config).codeOf nested false next))
    (alone : Bool) :
    (b.givesValue = true → Effect.Comes (Operand config)
      ((Language.python config).codeOf nested alone (.cons b inputs next))) ∧
    (b.givesValue = false → Effect.Comes Statements
      ((Language.python config).codeOf nested alone (.cons b inputs next))) := by
  have htyped := hb.typed henabled
  obtain ⟨rule, hrule, hexpression, hcode⟩ := htyped.rule config
  have hanswer : ∀ r, May r → Effect.Comes (fun _ => True) (answers config nested b inputs r) := by
    intro r hr
    refine answer_comes hindent htyped.toSlotted ?_ ?_ b hr
    · exact fun c hc => (hin.of_targets c hc (hall.of_targets c hc) false).1 (hb.values c hc)
    · exact fun c hc => (hin.of_targets c hc (hall.of_targets c hc) false).2 (hb.statements c hc)
  obtain ⟨before, hbefore⟩ : ∃ before, (Language.python config).remarks alone b
      ((Language.python config).plugs nested inputs) = .ok before := by
    refine Language.remarks_ok hmarker hb.commented ?_ alone
    intro c hc
    exact ((hall.of_targets c hc).mono fun b _ _ h => h.commented).blocks
  -- Whatever the rule makes stands between the comments and the code of the chain behind.
  have hmade : ∀ {Kind : RuleResult → Prop} {Made : Code → Prop},
      (rule b inputs).Ends May Kind →
      (∀ result behind, Kind result → ∃ code, result.between before behind = some code ∧ Made code) →
      Effect.Comes Made ((Language.python config).codeOf nested alone (.cons b inputs next)) := by
    intro Kind Made hends hbetween s
    obtain ⟨result, after, hrun, hkind⟩ := hends.perform hanswer s.counted
    obtain ⟨_, s', hbehind, behind, rfl⟩ := hnext after
    obtain ⟨code, hcode, hmade⟩ := hbetween result behind hkind
    exact ⟨code, s', (Language.codeOf_iff henabled).mpr ⟨rule, result, after, before, behind, hrule,
      hrun, hbefore, hbehind, hcode⟩, hmade⟩
  constructor
  · intro hgives
    refine hmade (hexpression hgives) ?_
    rintro _ behind ⟨text, order, rfl, horder⟩
    exact ⟨_, rfl, fun outer => ⟨_, .expression horder⟩⟩
  · intro hnone
    refine hmade (hcode hnone) ?_
    rintro _ behind ⟨text, rfl⟩
    exact ⟨_, rfl, _, rfl⟩

theorem sorted_chain (hindent : config.indent = .str indent)
    (hmarker : config.commentMarker = .str marker) (c : Chain) : Sorted config nested c := by
  induction c using Chain.inductionOn with
  | nil =>
    intro _ alone
    exact ⟨fun _ => .pure operand_nothing, fun _ => .pure ⟨"", rfl⟩⟩
  | cons b inputs next hin hnext =>
    intro hall alone
    obtain ⟨hb, hinputs, hbehind⟩ := Chain.all_cons.mp hall
    obtain ⟨-, hstatements⟩ := hnext hbehind false
    rw [Chain.givesValue_cons, Chain.givesNone_cons]
    rcases henabled : b.isDisabled with _ | _
    · exact enabled_comes hindent hmarker hb henabled hin hinputs (hstatements hb.behind) alone
    · rw [Language.codeOf_disabled henabled]
      refine ⟨fun hgives => ?_, fun _ => hstatements hb.behind⟩
      -- A disabled block that gives a value leaves nothing, since nothing is behind it.
      rw [hb.ends hgives]
      exact .pure operand_nothing

/-- The program of a workspace that is well typed is made, whatever was done before. -/
theorem well_typed_pass_succeeds (hindent : config.indent = .str indent)
    (hmarker : config.commentMarker = .str marker) {w : Workspace} (_ : w.Acyclic)
    (hw : w.All WellTyped) {s : Session} (hs : s.running = false) :
    ∃ program, ((Language.python config).pass w s).1 = .ok program := by
  have hsection : ∀ top ∈ w.trees, Effect.Comes (fun _ => True)
      ((Language.python config).section? (fun _ => (Language.python config).refuse) top) := by
    intro top htop s
    have hcode : Effect.Comes (fun _ => True) ((Language.python config).codeOf
        (fun _ => (Language.python config).refuse) true top) := by
      have hsorted : Sorted config (fun _ => (Language.python config).refuse) top :=
        sorted_chain hindent hmarker top
      have hcomes := hsorted (hw top htop) true
      cases top with
      | nil => exact .pure trivial
      | cons b inputs next =>
        rw [Chain.givesValue_cons, Chain.givesNone_cons] at hcomes
        rcases hb : b.givesValue with _ | _
        · exact (hcomes.2 hb).mono fun _ _ => trivial
        · exact (hcomes.1 hb).mono fun _ _ => trivial
    obtain ⟨code, s', hrun, -⟩ := hcode s
    obtain ⟨made, hmade⟩ : ∃ made, (Language.python config).sectionOf top code.text = .ok made := by
      unfold Language.sectionOf
      split
      · exact ⟨none, rfl⟩
      · split
        · exact ⟨_, rfl⟩
        · exact ⟨_, rfl⟩
    exact ⟨made, s', Language.section_iff.mpr ⟨code, hrun, hmade⟩, trivial⟩
  have hsections := Effect.Comes.mapM hsection
  obtain ⟨made, after, hrun, -⟩ := hsections ((Language.python config).opened w s)
  rw [Language.pass_result w s hs]
  unfold Language.sections
  rw [hrun]
  exact ⟨_, rfl⟩

end Programs

/-- A line is printed with the answer to a comparison, in which a disabled block of no known
type stands for a number. Another disabled block stands before the last. -/
def partlyKnown : List Edit :=
  [.newBlock { type := .str "text_print", id := .str "a", comment := .str "shown" },
    .newBlock { type := .str "logic_compare", id := .str "b",
                fields := .table [(.str "OP", .str "LT")], output := .bool true },
    .newBlock { type := .str "unheard_of", id := .str "c", fields := .null,
                disabled := .bool true, comment := .str "later", output := .bool true },
    .newBlock { type := .str "unheard_of", id := .str "d", disabled := .bool true },
    .newBlock { type := .str "variables_set", id := .str "e",
                fields := .table [(.str "VAR", .str "x")] },
    .connect 0 (.str "TEXT") .value 1, .connect 1 (.str "B") .value 2, .follow 0 3, .follow 3 4]

theorem partlyKnown_acyclic : (Edit.build partlyKnown).Acyclic := by
  have hallowed : Edit.Allowed Edit.Treelike partlyKnown := by decide
  exact Edit.acyclic_build hallowed

theorem partlyKnown_trees : (Edit.build partlyKnown).trees =
    [.cons { handle := 0, type := .str "text_print", id := .str "a", comment := .str "shown" }
      (.cons (.str "TEXT") .value
        (.cons { handle := 1, type := .str "logic_compare", id := .str "b",
                 fields := .table [(.str "OP", .str "LT")], output := .bool true }
          (.cons (.str "B") .value
            (.cons { handle := 2, type := .str "unheard_of", id := .str "c", fields := .null,
                     disabled := .bool true, comment := .str "later", output := .bool true }
              .nil .nil) .nil) .nil) .nil)
      (.cons { handle := 3, type := .str "unheard_of", id := .str "d", disabled := .bool true } .nil
        (.cons { handle := 4, type := .str "variables_set", id := .str "e",
                 fields := .table [(.str "VAR", .str "x")] } .nil .nil))] := rfl

theorem partlyKnown_well_typed : (Edit.build partlyKnown).All WellTyped := by
  unfold Workspace.All
  rw [partlyKnown_trees]
  simp only [List.mem_singleton, forall_eq, Chain.all_cons, Inputs.all_cons, Chain.all_nil,
    Inputs.all_nil, and_true, true_and]
  refine ⟨⟨?_, Or.inr ⟨_, rfl⟩, fun _ => ⟨?_, ?_, ?_, ⟨_, by decide, rfl⟩⟩⟩,
    ⟨⟨?_, Or.inl rfl, fun _ => ⟨?_, ?compared, ?_, ⟨_, by decide, rfl⟩⟩⟩,
      ⟨?_, Or.inr ⟨_, rfl⟩, fun h => absurd h (by decide)⟩⟩,
    ⟨?_, Or.inl rfl, fun h => absurd h (by decide)⟩,
    ⟨?_, Or.inl rfl, fun _ => ⟨?_, ?named, ?_, ⟨_, by decide, rfl⟩⟩⟩⟩
  case compared =>
    exact ⟨⟨_, rfl⟩, by simp [IsVariable], by simp, fun _ => ⟨"LT", by decide, rfl⟩, by simp, by simp⟩
  case named => exact ⟨⟨_, rfl⟩, fun _ => ⟨.str "x", rfl, _, rfl⟩, by simp, by simp, by simp, by simp⟩
  all_goals
    constructor <;>
      simp [Inputs.targets, Inputs.at?, Value.same_str, Block.givesValue, Value.truth, valueTypes,
        statementTypes, valueInputs, bodyInputs, IsVariable]

/-- Its program is made, though nothing is known of two of its blocks. -/
theorem partlyKnown_succeeds :
    ({} : Config).indent = .str "  " ∧ ({} : Config).commentMarker = .str "# " ∧
      (Edit.build partlyKnown).Acyclic ∧ (Edit.build partlyKnown).All WellTyped ∧
      (Session.new (Language.python {})).running = false ∧
      ∃ program, ((Language.python {}).pass (Edit.build partlyKnown)
        (Session.new (Language.python {}))).1 = .ok program :=
  ⟨rfl, rfl, partlyKnown_acyclic, partlyKnown_well_typed, rfl,
    well_typed_pass_succeeds rfl rfl partlyKnown_acyclic partlyKnown_well_typed rfl⟩

end BlockCode.Python
