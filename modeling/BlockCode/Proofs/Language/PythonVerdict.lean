-- What a program in Python comes to, said beforehand. Each rule is told by a recipe: what it
-- needs of its block, in the order in which it asks, and the kind of the code that it makes.
-- A need that is not met is the only thing that can go wrong in a rule.
import BlockCode.Proofs.Generation.Verdict
import BlockCode.Proofs.Language.PythonTyping

namespace BlockCode.Python

/-! ## Recipes -/

/-- What a rule needs of its block. -/
inductive Need where
  /-- A field that can be read, whatever it holds. -/
  | field (name : String)
  /-- A field that holds something with such a text. -/
  | spoken (name : String) (text : Value → Except Fault String)
  /-- One of these names in the field for the operator. -/
  | operator (names : List String)
  /-- A text in the field for the variable. -/
  | named
  /-- An expression in an input, or nothing. -/
  | value (input : String)
  /-- Statements in an input, or nothing. -/
  | body (input : String)

/-- The need is met, or the fault that comes up when it is not. -/
def Need.check (b : Block) (found : List Finding) : Need → Except Fault Unit
  | field name => (b.field name).map fun _ => ()
  | spoken name text => (b.field name >>= text).map fun _ => ()
  | operator names => do
    let v ← b.field "OP"
    if !v.isKey then .error .wrongKind
    else if names.any fun name => (Value.str name).same v then .ok ()
    else .error (.unknownKey v)
  | named => do
    match (← b.field "VAR").spelling? with
    | some _ => .ok ()
    | none => .error .noParts
  | value input => askedFor found input givesExpression
  | body input => askedFor found input givesStatements

structure Recipe where
  kind : CodeKind
  needs : Inputs → List Need

/-- What all needs come to. -/
def Recipe.estimate (recipe : Recipe) : Estimate := fun b inputs found => do
  (recipe.needs inputs).forM (·.check b found)
  return recipe.kind

def expressionOf (needs : List Need) : Recipe := { kind := .expression, needs := fun _ => needs }

def statementsOf (needs : List Need) : Recipe := { kind := .statements, needs := fun _ => needs }

def ifRecipe : Recipe where
  kind := .statements
  needs inputs :=
    .value "IF0" :: .body "DO0" :: if inputs.has (.str "ELSE") then [.body "ELSE"] else []

def recipes : List (String × Recipe) :=
  [("text", expressionOf [.spoken "TEXT" literal]), ("text_print", statementsOf [.value "TEXT"]),
    ("math_number", expressionOf [.spoken "NUM" Value.text]),
    ("math_arithmetic",
      expressionOf [.operator (arithmeticOperators.map (·.1)), .value "A", .value "B"]),
    ("math_is_prime", expressionOf [.value "NUMBER_TO_CHECK"]),
    ("logic_boolean", expressionOf [.field "BOOL"]),
    ("logic_compare", expressionOf [.operator (comparisons.map (·.1)), .value "A", .value "B"]),
    ("logic_negate", expressionOf [.value "BOOL"]), ("variables_get", expressionOf [.named]),
    ("variables_set", statementsOf [.named, .value "VALUE"]), ("controls_if", ifRecipe),
    ("controls_repeat_ext", statementsOf [.value "TIMES", .body "DO"])]

/-- What is said of the rules of the language. -/
def estimate : Estimate := fun b inputs found =>
  if !b.type.isKey then .error .wrongKind
  else match recipes.find? fun (type, _) => (Value.str type).same b.type with
  | none => .error (GenerationError.unsupportedType (.str "Python") b.type (some b)).fault
  | some (_, recipe) => recipe.estimate b inputs found

/-! ## Rules and their recipes -/

section Rules

variable {config : Config} {nested : Workspace → Action String} {indent : String} {b : Block}
  {inputs : Inputs} {kind : CodeKind} {needs : List Need}

/-- The script comes to code of the kind, or to the fault of the first need that is not met. -/
def Meets (config : Config) (nested : Workspace → Action String) (b : Block) (inputs : Inputs)
    (needs : List Need) (kind : CodeKind) (x : Script RuleResult) : Prop :=
  Judged RuleResult.Of (Language.perform (answers config nested b inputs) x) (do
    needs.forM (·.check b (findings estimate inputs))
    return kind)

theorem Meets.bind {α : Type} {need : Need} {P : α → Prop} {x : Script α}
    {f : α → Script RuleResult}
    (hx : Judged (fun a _ => P a) (Language.perform (answers config nested b inputs) x)
      (need.check b (findings estimate inputs)))
    (hf : ∀ a, P a → Meets config nested b inputs needs kind (f a)) :
    Meets config nested b inputs (need :: needs) kind (x >>= f) := by
  unfold Meets
  have hsplit : (do (need :: needs).forM (·.check b (findings estimate inputs)); return kind) =
      (need.check b (findings estimate inputs) >>= fun _ => do
        needs.forM (·.check b (findings estimate inputs))
        return kind) := by
    show ((need.check b (findings estimate inputs) >>= fun _ => needs.forM _) >>= _) = _
    cases need.check b (findings estimate inputs) <;> rfl
  rw [hsplit, Language.perform_bind]
  exact hx.bind fun a _ ha => hf a ha

theorem Meets.free {α : Type} {x : Script α} {f : α → Script RuleResult}
    (hx : Judged (fun _ (_ : Unit) => True) (Language.perform (answers config nested b inputs) x)
      (.ok ()))
    (hf : ∀ a, Meets config nested b inputs needs kind (f a)) :
    Meets config nested b inputs needs kind (x >>= f) := by
  unfold Meets
  rw [Language.perform_bind]
  show Judged _ _ ((.ok () : Except Fault Unit) >>= fun _ => do
    needs.forM (·.check b (findings estimate inputs))
    return kind)
  exact hx.bind fun a _ _ => hf a

theorem meets_expression {text : String} {order : Int} (horder : order ∈ orders) :
    Meets config nested b inputs [] .expression (pure (expression text order)) :=
  Judged.pure (.expression (isOrder_of_mem (Or.inl horder)))

theorem meets_code {text : String} (htext : text ≠ "") :
    Meets config nested b inputs [] .statements (pure (.code text)) :=
  Judged.pure (.statements htext)

/-! ### Steps of rules -/

theorem judged_field (name : String) :
    Judged (fun _ _ => True) (Language.perform (answers config nested b inputs) (Script.field b name))
      ((Need.field name).check b (findings estimate inputs)) :=
  Judged.lift (Goes.map_unit (b.field name))

theorem judged_spoken (name : String) (text : Value → Except Fault String) :
    Judged (fun _ _ => True) (Language.perform (answers config nested b inputs)
        (Script.field b name >>= fun v => Script.done (text v)))
      ((Need.spoken name text).check b (findings estimate inputs)) := by
  have hdone : (Script.field b name >>= fun v => Script.done (text v)) =
      Script.done (b.field name >>= text) := by
    unfold Script.field
    cases b.field name <;> rfl
  rw [hdone]
  exact Judged.lift (Goes.map_unit (b.field name >>= text))

theorem judged_read (name : String) :
    Judged Eq (Language.perform (answers config nested b inputs) (Script.field b name))
      (b.field name) := by
  refine Judged.lift ?_
  cases b.field name with
  | error fault => exact .error fault
  | ok v => exact .ok rfl

theorem judged_operator {α : Type} (table : List (String × α)) :
    Judged (fun a _ => a ∈ table.map (·.2)) (Language.perform (answers config nested b inputs)
        (Script.field b "OP" >>= fun v => Script.done (operator table v)))
      ((Need.operator (table.map (·.1))).check b (findings estimate inputs)) := by
  have hfound : ∀ v, Goes (fun a (_ : Unit) => a ∈ table.map (·.2)) (operator table v)
      (if !v.isKey then .error .wrongKind
        else if (table.map (·.1)).any fun name => (Value.str name).same v then .ok ()
        else .error (.unknownKey v)) := by
    intro v
    unfold operator
    split
    · exact .error Fault.wrongKind
    · generalize hfind : table.find? _ = found
      rcases found with _ | ⟨name, a⟩
      · have hnone : (table.map (·.1)).any (fun name => (Value.str name).same v) = false := by
          rw [List.any_map]
          exact List.any_eq_false.mpr fun e he => List.find?_eq_none.mp hfind e he
        rw [if_neg (by simp [hnone])]
        exact .error _
      · have hmem := List.mem_of_find?_eq_some hfind
        have hsome : (table.map (·.1)).any (fun name => (Value.str name).same v) = true := by
          rw [List.any_map]
          have hsame := List.find?_some hfind
          exact List.any_eq_true.mpr ⟨_, hmem, hsame⟩
        rw [if_pos hsome]
        exact .ok (List.mem_map.mpr ⟨_, hmem, rfl⟩)
  rw [Language.perform_bind]
  refine (judged_read "OP").bind ?_
  rintro v _ rfl
  exact Judged.lift (hfound v)

theorem judged_variableOf : Judged (fun _ _ => True)
    (Language.perform (answers config nested b inputs) (variableOf b))
    (Need.named.check b (findings estimate inputs)) := by
  unfold variableOf
  rw [Language.perform_bind]
  refine (judged_read "VAR").bind ?_
  rintro v _ rfl
  rw [Language.perform_request]
  intro s
  show Goes _ (Session.identifier v (.str "variable") false s).1 _
  rcases hname : v.spelling? with _ | signs
  · have hkey : Names.keyFor v (.str "variable") false = .error .noParts := by
      rw [Names.keyFor, hname]
      rfl
    rw [Session.identifier_apply, Names.getFor, hkey]
    exact .error Fault.noParts
  · obtain ⟨identifier, s', hrun, -⟩ := identifier_comes ⟨signs, hname⟩ s
    rw [hrun]
    exact .ok trivial

section Inputs

variable (hin : inputs.Every ((Language.python config).Foretold nested estimate))
include hin

theorem judged_valueOr (input missing : String) {order : Int}
    (horder : order ∈ orders ∨ order = anything) : Judged (fun _ _ => True)
      (Language.perform (answers config nested b inputs) (valueOr input order missing))
      ((Need.value input).check b (findings estimate inputs)) := by
  unfold valueOr
  rw [Language.perform_bind, Language.perform_request]
  exact (Language.judged_plugged hin (isOrder_of_mem horder)).followed fun code => Judged.pure trivial

theorem judged_bodyOr (hindent : config.indent = .str indent) (input : String) :
    Judged (fun _ _ => True) (Language.perform (answers config nested b inputs) (bodyOr input))
      ((Need.body input).check b (findings estimate inputs)) := by
  unfold bodyOr
  rw [Language.perform_bind, Language.perform_request]
  exact (Language.judged_nestedStatements hin hindent).followed fun code => Judged.pure trivial

end Inputs

/-! ### The rules -/

/-- The rule does what its recipe says, in a language with this indent. -/
def Obeys (rule : Rule) (recipe : Recipe) : Prop :=
  ∀ (config : Config) (indent : String) (nested : Workspace → Action String) (b : Block)
    (inputs : Inputs), config.indent = .str indent →
    inputs.Every ((Language.python config).Foretold nested estimate) →
    Meets config nested b inputs (recipe.needs inputs) recipe.kind (rule b inputs)

end Rules

theorem obeys_textRule : Obeys textRule (expressionOf [.spoken "TEXT" literal]) := by
  intro config indent nested b inputs _ hin
  unfold textRule
  rw [← Script.bind_assoc]
  exact Meets.bind (judged_spoken "TEXT" literal) fun code _ => meets_expression (by decide)

theorem obeys_numberRule : Obeys numberRule (expressionOf [.spoken "NUM" Value.text]) := by
  intro config indent nested b inputs _ hin
  unfold numberRule
  rw [← Script.bind_assoc]
  refine Meets.bind (judged_spoken "NUM" Value.text) fun code _ => meets_expression ?_
  split <;> decide

theorem obeys_booleanRule : Obeys booleanRule (expressionOf [.field "BOOL"]) := by
  intro config indent nested b inputs _ hin
  exact Meets.bind (judged_field "BOOL") fun v _ => meets_expression (by decide)

theorem obeys_arithmeticRule : Obeys arithmeticRule
    (expressionOf [.operator (arithmeticOperators.map (·.1)), .value "A", .value "B"]) := by
  intro config indent nested b inputs _ hin
  unfold arithmeticRule
  rw [← Script.bind_assoc]
  refine Meets.bind (judged_operator arithmeticOperators) ?_
  rintro ⟨sign, order⟩ hmem
  have horder : order ∈ orders := by
    have hall : ∀ a ∈ arithmeticOperators.map (·.2), a.2 ∈ orders := by decide
    exact hall _ hmem
  refine Meets.bind (judged_valueOr hin "A" "0" (Or.inl horder)) fun left _ => ?_
  exact Meets.bind (judged_valueOr hin "B" "0" (Or.inl horder)) fun right _ =>
    meets_expression horder

theorem obeys_compareRule : Obeys compareRule
    (expressionOf [.operator (comparisons.map (·.1)), .value "A", .value "B"]) := by
  intro config indent nested b inputs _ hin
  unfold compareRule
  rw [← Script.bind_assoc]
  refine Meets.bind (judged_operator comparisons) fun sign _ => ?_
  refine Meets.bind (judged_valueOr hin "A" "0" (Or.inl (by decide))) fun left _ => ?_
  exact Meets.bind (judged_valueOr hin "B" "0" (Or.inl (by decide))) fun right _ =>
    meets_expression (by decide)

theorem obeys_negateRule : Obeys negateRule (expressionOf [.value "BOOL"]) := by
  intro config indent nested b inputs _ hin
  exact Meets.bind (judged_valueOr hin "BOOL" "True" (Or.inl (by decide))) fun argument _ =>
    meets_expression (by decide)

theorem obeys_primeRule : Obeys primeRule (expressionOf [.value "NUMBER_TO_CHECK"]) := by
  intro config indent nested b inputs _ hin
  refine Meets.free ?_ fun name => ?_
  · rw [Language.perform_request]
    intro s
    obtain ⟨identifier, s', hrun, -⟩ := helper_comes config s
    show Goes _ (Session.helper (Language.python config) (.str "math_isPrime")
      (.list (primeHelper.map Value.str)) s).1 _
    rw [hrun]
    exact .ok trivial
  · exact Meets.bind (judged_valueOr hin "NUMBER_TO_CHECK" "0" (Or.inr rfl)) fun number _ =>
      meets_expression (by decide)

theorem obeys_getRule : Obeys getRule (expressionOf [.named]) := by
  intro config indent nested b inputs _ hin
  exact Meets.bind judged_variableOf fun name _ => meets_expression (by decide)

theorem obeys_printRule : Obeys printRule (statementsOf [.value "TEXT"]) := by
  intro config indent nested b inputs _ hin
  exact Meets.bind (judged_valueOr hin "TEXT" "''" (Or.inr rfl)) fun argument _ =>
    meets_code (by simp)

theorem obeys_setRule : Obeys setRule (statementsOf [.named, .value "VALUE"]) := by
  intro config indent nested b inputs _ hin
  refine Meets.bind judged_variableOf fun name _ => ?_
  exact Meets.bind (judged_valueOr hin "VALUE" "0" (Or.inr rfl)) fun value _ => meets_code (by simp)

theorem obeys_ifRule : Obeys ifRule ifRecipe := by
  intro config indent nested b inputs hindent hin
  refine Meets.bind (judged_valueOr hin "IF0" "False" (Or.inr rfl)) fun condition _ => ?_
  refine Meets.bind (judged_bodyOr hin hindent "DO0") fun body _ => ?_
  simp only
  split
  · exact Meets.bind (judged_bodyOr hin hindent "ELSE") fun other _ => meets_code (by simp)
  · exact meets_code (by simp)

theorem obeys_repeatRule : Obeys repeatRule (statementsOf [.value "TIMES", .body "DO"]) := by
  intro config indent nested b inputs hindent hin
  refine Meets.bind (judged_valueOr hin "TIMES" "0" (Or.inr rfl)) fun times _ => ?_
  refine Meets.bind (judged_bodyOr hin hindent "DO") fun body _ => ?_
  refine Meets.free ?_ fun counter => meets_code (by simp)
  rw [Language.perform_request]
  intro s
  obtain ⟨identifier, s', hrun, -⟩ := counter_comes s
  show Goes _ (Session.ownIdentifier (.str "count") (.str "variable") s).1 _
  rw [hrun]
  exact .ok trivial

theorem rules_obey : List.Forall₂ (fun r e => r.1 = e.1 ∧ Obeys r.2 e.2) rules recipes := by
  unfold rules recipes
  refine .cons ⟨rfl, obeys_textRule⟩ <| .cons ⟨rfl, obeys_printRule⟩ <|
    .cons ⟨rfl, obeys_numberRule⟩ <| .cons ⟨rfl, obeys_arithmeticRule⟩ <|
    .cons ⟨rfl, obeys_primeRule⟩ <| .cons ⟨rfl, obeys_booleanRule⟩ <|
    .cons ⟨rfl, obeys_compareRule⟩ <| .cons ⟨rfl, obeys_negateRule⟩ <|
    .cons ⟨rfl, obeys_getRule⟩ <| .cons ⟨rfl, obeys_setRule⟩ <|
    .cons ⟨rfl, obeys_ifRule⟩ <| .cons ⟨rfl, obeys_repeatRule⟩ .nil

/-! ## Programs -/

variable {config : Config} {nested : Workspace → Action String} {indent marker : String}

/-- A rule is found for a type just when a recipe is, and it does what the recipe says. -/
theorem find_obeys {found : List (String × Rule)} {told : List (String × Recipe)}
    (h : List.Forall₂ (fun r e => r.1 = e.1 ∧ Obeys r.2 e.2) found told) (type : Value) :
    (((found.map fun (type, rule) => (Value.str type, rule)).find? fun (t, _) => t.same type) =
        none ∧ (told.find? fun (t, _) => (Value.str t).same type) = none) ∨
      ∃ name rule recipe,
        ((found.map fun (type, rule) => (Value.str type, rule)).find? fun (t, _) => t.same type) =
          some (.str name, rule) ∧
        (told.find? fun (t, _) => (Value.str t).same type) = some (name, recipe) ∧
        Obeys rule recipe := by
  induction h with
  | nil => exact Or.inl ⟨rfl, rfl⟩
  | @cons r e found told hhead _ ih =>
    rcases r with ⟨name, rule⟩
    rcases e with ⟨name', recipe⟩
    obtain ⟨rfl, hobeys⟩ := hhead
    simp only [List.map_cons, List.find?_cons]
    rcases hsame : (Value.str name).same type with _ | _
    · exact ih
    · exact Or.inr ⟨name, rule, recipe, rfl, rfl, hobeys⟩

/-- What is said of the rules is so. -/
theorem estimated (hindent : config.indent = .str indent) :
    (Language.python config).Estimated nested estimate := by
  intro b inputs hin
  unfold Language.ruleOf Language.ruleFor estimate
  rcases b.type.isKey with _ | _
  · exact Or.inl ⟨.wrongKind, rfl, rfl⟩
  · simp only [if_true, Bool.not_true, Bool.false_eq_true, if_false]
    rcases find_obeys rules_obey b.type with
      ⟨hnone, hnone'⟩ | ⟨name, rule, recipe, hsome, hsome', hobeys⟩
    · have hrule : (Language.python config).rule? b.type = none :=
        congrArg (Option.map fun r : Value × Rule => r.2) hnone
      rw [hrule, hnone']
      exact Or.inl ⟨_, rfl, rfl⟩
    · have hrule : (Language.python config).rule? b.type = some rule :=
        congrArg (Option.map fun r : Value × Rule => r.2) hsome
      rw [hrule, hsome']
      exact Or.inr ⟨rule, rfl, hobeys config indent nested b inputs hindent hin⟩

/-- What is said of the program of a workspace. -/
def verdictOn (w : Workspace) : Except Fault Unit := programVerdict estimate w.trees

/-- What is said of a program is so, in every session in which a pass can begin. -/
theorem judged_pass (hindent : config.indent = .str indent)
    (hmarker : config.commentMarker = .str marker) (w : Workspace) {s : Session}
    (hs : s.running = false) :
    Goes (fun _ _ => True) ((Language.python config).pass w s).1 (verdictOn w) :=
  Language.judged_pass (estimated hindent) hmarker (fun line => ⟨line ++ "\n", rfl⟩) w hs

/-! ## Blocks that are fit -/

/-- The need is about the block itself, and not about what is plugged into it. -/
def Need.ofBlock : Need → Bool
  | value _ => false
  | body _ => false
  | _ => true

/-- The comment of a block is a text, and the block can be told. If the block is enabled, its type
can be looked up, and nothing but a missing rule or a misplaced block can go wrong in what the rule
for it needs. -/
structure Fit (b : Block) (inputs : Inputs) : Prop where
  commented : b.Commented
  tellable : b.Tellable
  key : b.isDisabled = false → b.type.isKey = true
  needs : b.isDisabled = false → ∀ e ∈ recipes, b.type = .str e.1 →
    ∀ need ∈ e.2.needs inputs, need.ofBlock = true → Mild (need.check b [])

variable {b : Block} {inputs : Inputs} {found : List Finding}

theorem mild_check (hfound : ∀ f ∈ found, f.Mild) {need : Need}
    (hown : need.ofBlock = true → Mild (need.check b [])) : Mild (need.check b found) := by
  cases need with
  | value input => exact mild_askedFor hfound input mild_givesExpression
  | body input => exact mild_askedFor hfound input mild_givesStatements
  | _ => exact hown rfl

theorem mild_estimate (h : Fit b inputs) (hb : b.isDisabled = false)
    (hfound : ∀ f ∈ found, f.Mild) : Mild (estimate b inputs found) := by
  unfold estimate
  rw [h.key hb]
  simp only [Bool.not_true, Bool.false_eq_true, if_false]
  rcases hfind : recipes.find? fun (type, _) => (Value.str type).same b.type with _ | ⟨name, recipe⟩
  · rw [hfind]
    exact Mild.fault (by simp [GenerationError.unsupportedType, h.tellable.type, h.tellable.id])
  · have hsame : (Value.str name).same b.type = true := by
      have hholds := List.find?_some hfind
      exact hholds
    have htype : b.type = .str name := (Value.same_str_iff name b.type).mp hsame
    have hneeds := h.needs hb (name, recipe) (List.mem_of_find?_eq_some hfind) htype
    rw [hfind]
    refine Mild.bind (Mild.forM fun need hneed => mild_check hfound (hneeds need hneed)) fun _ => ?_
    exact Mild.ok _

/-- If every block is fit, whatever goes wrong is told as a fault of generation. -/
theorem mild_verdictOn {w : Workspace} (h : w.All fun b inputs _ => Fit b inputs) :
    Mild (verdictOn w) :=
  Mild.forM fun top htop => Mild.map (mild_verdict ((h top htop).mono fun _ _ _ hfit =>
    ⟨hfit.commented, hfit.tellable, fun hb _ hfound => mild_estimate hfit hb hfound⟩) true)

end BlockCode.Python
