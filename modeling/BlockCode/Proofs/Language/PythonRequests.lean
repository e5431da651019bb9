-- What the rules of the language of Python programs may ask for. Each asks for the
-- expressions and statements in its inputs; only the blocks of variables, the test for
-- primes and the counted loop ask for identifiers. None says of a type that it has no rule.
import BlockCode.Language.Python
import BlockCode.Proofs.Generation.Blame
import BlockCode.Proofs.Value.Sameness

namespace BlockCode.Python

/-- The block stands for a variable or sets one. -/
def IsVariable (b : Block) : Prop := b.type = .str "variables_get" ∨ b.type = .str "variables_set"

/-- The helper that tells whether a number is prime, as its rule asks for it. -/
def primeRequest : Request :=
  .helper (.str "math_isPrime") (.list (primeHelper.map Value.str))

/-- The counter of a loop, as its rule asks for it. -/
def counterRequest : Request := .ownIdentifier (.str "count") (.str "variable")

/-- The identifier of a variable, as the rules ask for it. -/
def variableRequest (name : Value) : Request := .identifier name (.str "variable") false

inductive Asked (b : Block) : Request → Prop
  | value (input : String) (order : Int) : Asked b (.value (.str input) (.int order))
  | statements (input : String) : Asked b (.statements (.str input))
  | identifier {name : Value} (hb : IsVariable b) (hname : b.field "VAR" = .ok name) :
      Asked b (variableRequest name)
  | prime (hb : b.type = .str "math_is_prime") : Asked b primeRequest
  | counter (hb : b.type = .str "controls_repeat_ext") : Asked b counterRequest

/-! ## What rules are made of -/

variable {b : Block} {α : Type}

theorem asks_field_bind {name : String} {f : Value → Script α}
    (h : ∀ v, b.field name = .ok v → (f v).Asks (Asked b)) :
    (Script.field b name >>= f).Asks (Asked b) := by
  unfold Script.field
  rcases hv : b.field name with fault | v
  · exact trivial
  · exact h v hv

theorem asks_valueOr (input : String) (order : Int) (missing : String) :
    (valueOr input order missing).Asks (Asked b) := by
  apply Script.asks_bind (Script.asks_request (Asked.value input order))
  intro code
  exact trivial

theorem asks_bodyOr (input : String) : (bodyOr input).Asks (Asked b) := by
  apply Script.asks_bind (Script.asks_request (Asked.statements input))
  intro code
  exact trivial

theorem asks_variableOf (hb : IsVariable b) : (variableOf b).Asks (Asked b) := by
  apply asks_field_bind
  intro v hv
  exact Script.asks_request (Asked.identifier hb hv)

/-! ## The rules -/

theorem asks_textRule (inputs : Inputs) : (textRule b inputs).Asks (Asked b) := by
  apply asks_field_bind
  intro v _
  apply Script.asks_bind (Script.asks_done _)
  intro code
  exact trivial

theorem asks_numberRule (inputs : Inputs) : (numberRule b inputs).Asks (Asked b) := by
  apply asks_field_bind
  intro v _
  apply Script.asks_bind (Script.asks_done _)
  intro code
  exact trivial

theorem asks_booleanRule (inputs : Inputs) : (booleanRule b inputs).Asks (Asked b) := by
  apply asks_field_bind
  intro v _
  exact trivial

theorem asks_arithmeticRule (inputs : Inputs) : (arithmeticRule b inputs).Asks (Asked b) := by
  apply asks_field_bind
  intro v _
  apply Script.asks_bind (Script.asks_done _)
  rintro ⟨sign, order⟩
  apply Script.asks_bind (asks_valueOr "A" order "0")
  intro left
  apply Script.asks_bind (asks_valueOr "B" order "0")
  intro right
  exact trivial

theorem asks_compareRule (inputs : Inputs) : (compareRule b inputs).Asks (Asked b) := by
  apply asks_field_bind
  intro v _
  apply Script.asks_bind (Script.asks_done _)
  intro sign
  apply Script.asks_bind (asks_valueOr "A" relational "0")
  intro left
  apply Script.asks_bind (asks_valueOr "B" relational "0")
  intro right
  exact trivial

theorem asks_negateRule (inputs : Inputs) : (negateRule b inputs).Asks (Asked b) := by
  apply Script.asks_bind (asks_valueOr "BOOL" logicalNot "True")
  intro argument
  exact trivial

theorem asks_primeRule (hb : b.type = .str "math_is_prime") (inputs : Inputs) :
    (primeRule b inputs).Asks (Asked b) := by
  apply Script.asks_bind (Script.asks_request (Asked.prime hb))
  intro name
  apply Script.asks_bind (asks_valueOr "NUMBER_TO_CHECK" anything "0")
  intro number
  exact trivial

theorem asks_getRule (hb : IsVariable b) (inputs : Inputs) : (getRule b inputs).Asks (Asked b) := by
  apply Script.asks_bind (asks_variableOf hb)
  intro name
  exact trivial

theorem asks_printRule (inputs : Inputs) : (printRule b inputs).Asks (Asked b) := by
  apply Script.asks_bind (asks_valueOr "TEXT" anything "''")
  intro argument
  exact trivial

theorem asks_setRule (hb : IsVariable b) (inputs : Inputs) : (setRule b inputs).Asks (Asked b) := by
  apply Script.asks_bind (asks_variableOf hb)
  intro name
  apply Script.asks_bind (asks_valueOr "VALUE" anything "0")
  intro value
  exact trivial

theorem asks_ifRule (inputs : Inputs) : (ifRule b inputs).Asks (Asked b) := by
  apply Script.asks_bind (asks_valueOr "IF0" anything "False")
  intro condition
  apply Script.asks_bind (asks_bodyOr "DO0")
  intro body
  simp only
  split
  · apply Script.asks_bind (asks_bodyOr "ELSE")
    intro other
    exact trivial
  · exact trivial

theorem asks_repeatRule (hb : b.type = .str "controls_repeat_ext") (inputs : Inputs) :
    (repeatRule b inputs).Asks (Asked b) := by
  apply Script.asks_bind (asks_valueOr "TIMES" anything "0")
  intro times
  apply Script.asks_bind (asks_bodyOr "DO")
  intro body
  apply Script.asks_bind (Script.asks_request (Asked.counter hb))
  intro counter
  exact trivial

/-- The rule of the language for a type of blocks. -/
inductive RuleOf : String → Rule → Prop
  | text : RuleOf "text" textRule
  | print : RuleOf "text_print" printRule
  | number : RuleOf "math_number" numberRule
  | arithmetic : RuleOf "math_arithmetic" arithmeticRule
  | prime : RuleOf "math_is_prime" primeRule
  | boolean : RuleOf "logic_boolean" booleanRule
  | compare : RuleOf "logic_compare" compareRule
  | negate : RuleOf "logic_negate" negateRule
  | get : RuleOf "variables_get" getRule
  | set : RuleOf "variables_set" setRule
  | branch : RuleOf "controls_if" ifRule
  | loop : RuleOf "controls_repeat_ext" repeatRule

theorem ruleOf_of_mem {name : String} {rule : Rule} (h : (name, rule) ∈ rules) :
    RuleOf name rule := by
  simp only [rules, List.mem_cons, List.not_mem_nil, or_false, Prod.mk.injEq] at h
  rcases h with ⟨rfl, rfl⟩ | ⟨rfl, rfl⟩ | ⟨rfl, rfl⟩ | ⟨rfl, rfl⟩ | ⟨rfl, rfl⟩ | ⟨rfl, rfl⟩ |
    ⟨rfl, rfl⟩ | ⟨rfl, rfl⟩ | ⟨rfl, rfl⟩ | ⟨rfl, rfl⟩ | ⟨rfl, rfl⟩ | ⟨rfl, rfl⟩ <;> constructor

theorem ruleOf_of_ruleFor {config : Config} {type : Value} {rule : Rule}
    (h : (Language.python config).ruleFor type = .ok (some rule)) :
    ∃ name, type = .str name ∧ RuleOf name rule := by
  unfold Language.ruleFor at h
  split at h
  · unfold Language.rule? at h
    simp only [Except.ok.injEq, Option.map_eq_some_iff] at h
    obtain ⟨⟨t, r⟩, hfind, hr⟩ := h
    have hsame := List.find?_some hfind
    obtain ⟨⟨name, r'⟩, hmem, heq⟩ := List.mem_map.mp (List.mem_of_find?_eq_some hfind)
    cases heq
    cases hr
    exact ⟨name, (Value.same_str_iff name type).mp hsame, ruleOf_of_mem hmem⟩
  · cases h

theorem asks_of_ruleFor {config : Config} (b : Block) {rule : Rule}
    (h : (Language.python config).ruleFor b.type = .ok (some rule)) (inputs : Inputs) :
    (rule b inputs).Asks (Asked b) := by
  obtain ⟨name, htype, hof⟩ := ruleOf_of_ruleFor h
  cases hof with
  | text => exact asks_textRule inputs
  | print => exact asks_printRule inputs
  | number => exact asks_numberRule inputs
  | arithmetic => exact asks_arithmeticRule inputs
  | prime => exact asks_primeRule htype inputs
  | boolean => exact asks_booleanRule inputs
  | compare => exact asks_compareRule inputs
  | negate => exact asks_negateRule inputs
  | get => exact asks_getRule (Or.inl htype) inputs
  | set => exact asks_setRule (Or.inr htype) inputs
  | branch => exact asks_ifRule inputs
  | loop => exact asks_repeatRule htype inputs

/-! ## What the rules fail with -/

section PassesOn

open Script (passesOn_bind passesOn_request passesOn_pure passesOn_field)

theorem passesOn_valueOr (input : String) (order : Int) (missing : String) :
    (valueOr input order missing).PassesOn Fault.Plain :=
  passesOn_bind (passesOn_request _) fun _ => passesOn_pure _

theorem passesOn_bodyOr (input : String) : (bodyOr input).PassesOn Fault.Plain :=
  passesOn_bind (passesOn_request _) fun _ => passesOn_pure _

theorem passesOn_variableOf (b : Block) : (variableOf b).PassesOn Fault.Plain :=
  passesOn_bind (passesOn_field b "VAR") fun _ => passesOn_request _

theorem faults_operator (table : List (String × α)) (name : Value) :
    Faults Fault.Plain (operator table name) := by
  unfold operator
  split
  · exact .plain nofun
  · split
    · exact .ok _
    · exact .plain nofun

theorem faults_literal (v : Value) : Faults Fault.Plain (literal v) := by
  unfold literal
  split
  · exact .ok _
  · exact .ok _
  · split
    · exact (Faults.text v).bind fun word => .ok (Text.quoted word)
    · exact .ok (Text.quoted "")

theorem passesOn_ifRule (b : Block) (inputs : Inputs) :
    (ifRule b inputs).PassesOn Fault.Plain := by
  apply passesOn_bind (passesOn_valueOr "IF0" anything "False")
  intro condition
  apply passesOn_bind (passesOn_bodyOr "DO0")
  intro body
  simp only
  split
  · exact passesOn_bind (passesOn_bodyOr "ELSE") fun other => passesOn_pure _
  · exact passesOn_pure _

theorem passesOn_repeatRule (b : Block) (inputs : Inputs) :
    (repeatRule b inputs).PassesOn Fault.Plain := by
  apply passesOn_bind (passesOn_valueOr "TIMES" anything "0")
  intro times
  apply passesOn_bind (passesOn_bodyOr "DO")
  intro body
  exact passesOn_bind (passesOn_request counterRequest) fun counter => passesOn_pure _

/-- No rule of the language raises an error of generation on its own. -/
theorem passesOn_of_ruleFor {config : Config} (b : Block) {rule : Rule}
    (h : (Language.python config).ruleFor b.type = .ok (some rule)) (inputs : Inputs) :
    (rule b inputs).PassesOn Fault.Plain := by
  obtain ⟨name, -, hof⟩ := ruleOf_of_ruleFor h
  cases hof with
  | text =>
    exact passesOn_bind (passesOn_field b "TEXT") fun v =>
      passesOn_bind (faults_literal v) fun code => passesOn_pure _
  | print =>
    exact passesOn_bind (passesOn_valueOr "TEXT" anything "''") fun argument => passesOn_pure _
  | number =>
    exact passesOn_bind (passesOn_field b "NUM") fun v =>
      passesOn_bind (.text v) fun code => passesOn_pure _
  | arithmetic =>
    exact passesOn_bind (passesOn_field b "OP") fun v =>
      passesOn_bind (faults_operator arithmeticOperators v) fun found =>
        passesOn_bind (passesOn_valueOr "A" found.2 "0") fun left =>
          passesOn_bind (passesOn_valueOr "B" found.2 "0") fun right => passesOn_pure _
  | prime =>
    exact passesOn_bind (passesOn_request primeRequest) fun name =>
      passesOn_bind (passesOn_valueOr "NUMBER_TO_CHECK" anything "0") fun number =>
        passesOn_pure _
  | boolean => exact passesOn_bind (passesOn_field b "BOOL") fun v => passesOn_pure _
  | compare =>
    exact passesOn_bind (passesOn_field b "OP") fun v =>
      passesOn_bind (faults_operator comparisons v) fun sign =>
        passesOn_bind (passesOn_valueOr "A" relational "0") fun left =>
          passesOn_bind (passesOn_valueOr "B" relational "0") fun right => passesOn_pure _
  | negate =>
    exact passesOn_bind (passesOn_valueOr "BOOL" logicalNot "True") fun argument => passesOn_pure _
  | get => exact passesOn_bind (passesOn_variableOf b) fun name => passesOn_pure _
  | set =>
    exact passesOn_bind (passesOn_variableOf b) fun name =>
      passesOn_bind (passesOn_valueOr "VALUE" anything "0") fun value => passesOn_pure _
  | branch => exact passesOn_ifRule b inputs
  | loop => exact passesOn_repeatRule b inputs

theorem relays (config : Config) : (Language.python config).Relays where
  rules := fun b _ hrule inputs => (passesOn_of_ruleFor b hrule inputs).relays
    fun _ hplain => .of_none hplain.unknownType?
  standing := fun _ => blames_iff.mpr (.ok _)

end PassesOn

end BlockCode.Python
