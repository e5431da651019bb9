-- The texts that the rules of the language make, told of whatever answers they are given. A type
-- for values comes to an expression. A type for statements comes to lines that are put together
-- from the expressions, the bodies and the identifiers that were asked for.
import BlockCode.Proofs.Generation.Remarked
import BlockCode.Proofs.Language.PythonTyping

namespace BlockCode.Python

/-! ## What stands in the place of an answer -/

section Answers

variable (Given : Request → String → Prop)

/-- The expression in an input, or what stands for it when nothing was given. -/
inductive Supplied (input : String) (order : Int) (missing : String) : String → Prop
  | given {text : String} : Given (.value (.str input) (.int order)) text → text ≠ "" →
    Supplied input order missing text
  | missing : Given (.value (.str input) (.int order)) "" → Supplied input order missing missing

/-- The statements in an input. Where none are given, the body passes. -/
inductive BodySupplied (input : String) : String → Prop
  | given {text : String} : Given (.statements (.str input)) text → text ≠ "" → BodySupplied input text
  | passes : Given (.statements (.str input)) "" → BodySupplied input "  pass\n"

/-- The identifier of the variable of a block. -/
def NameSupplied (b : Block) (text : String) : Prop :=
  ∃ name, b.field "VAR" = .ok name ∧ Given (variableRequest name) text

/-- What the rule for a block makes of the answers. -/
inductive Wrote (b : Block) (inputs : Inputs) : RuleResult → Prop
  | expression {type text : String} {order : Value} : type ∈ valueTypes → b.type = .str type →
    Wrote b inputs (.expression text order)
  | print {argument : String} : b.type = .str "text_print" →
    Supplied Given "TEXT" anything "''" argument →
    Wrote b inputs (.code ("print(" ++ argument ++ ")\n"))
  | set {name value : String} : b.type = .str "variables_set" → NameSupplied Given b name →
    Supplied Given "VALUE" anything "0" value →
    Wrote b inputs (.code (name ++ " = " ++ value ++ "\n"))
  | branch {condition body : String} : b.type = .str "controls_if" →
    inputs.has (.str "ELSE") = false → Supplied Given "IF0" anything "False" condition →
    BodySupplied Given "DO0" body → Wrote b inputs (.code ("if " ++ condition ++ ":\n" ++ body))
  | branches {condition body other : String} : b.type = .str "controls_if" →
    inputs.has (.str "ELSE") = true → Supplied Given "IF0" anything "False" condition →
    BodySupplied Given "DO0" body → BodySupplied Given "ELSE" other →
    Wrote b inputs (.code ("if " ++ condition ++ ":\n" ++ body ++ "else:\n" ++ other))
  | loop {times body counter : String} : b.type = .str "controls_repeat_ext" →
    Supplied Given "TIMES" anything "0" times → BodySupplied Given "DO" body →
    Given counterRequest counter →
    Wrote b inputs (.code ("for " ++ counter ++ " in range(" ++ times ++ "):\n" ++ body))

end Answers

/-! ## Lines that open a body -/

theorem headed_eq (head body : String) : head ++ ":\n" ++ body = head ++ ":" ++ "\n" ++ body := by
  show head ++ (":" ++ "\n") ++ body = _
  rw [← String.append_assoc]

theorem branches_eq (condition body other : String) :
    "if " ++ condition ++ ":\n" ++ body ++ "else:\n" ++ other =
      ("if " ++ condition ++ ":\n" ++ body) ++ ("else" ++ ":\n" ++ other) := by
  show _ = ("if " ++ condition ++ ":\n" ++ body) ++ ("else:\n" ++ other)
  exact String.append_assoc

theorem loop_eq (counter times body : String) :
    "for " ++ counter ++ " in range(" ++ times ++ "):\n" ++ body =
      "for " ++ counter ++ " in range(" ++ times ++ ")" ++ ":\n" ++ body := by
  show "for " ++ counter ++ " in range(" ++ times ++ (")" ++ ":\n") ++ body = _
  rw [← String.append_assoc]

/-! ## What the rules make -/

variable {Given : Request → String → Prop} {b : Block} {inputs : Inputs}

theorem wrote_valueOr (input : String) (order : Int) (missing : String) :
    (valueOr input order missing).Makes Given (Supplied Given input order missing) := by
  refine (Script.Makes.request (.value (.str input) (.int order))).bind fun text htext => ?_
  refine Script.Makes.pure ?_
  split
  · rename_i hnone
    rw [beq_iff_eq.mp hnone] at htext
    exact .missing htext
  · rename_i hne
    exact .given htext (by simpa using hne)

theorem wrote_bodyOr (input : String) : (bodyOr input).Makes Given (BodySupplied Given input) := by
  refine (Script.Makes.request (.statements (.str input))).bind fun text htext => ?_
  refine Script.Makes.pure ?_
  split
  · rename_i hnone
    rw [beq_iff_eq.mp hnone] at htext
    exact .passes htext
  · rename_i hne
    exact .given htext (by simpa using hne)

theorem wrote_done {α : Type} (result : Except Fault α) :
    (Script.done result).Makes Given fun a => result = .ok a := fun _ h => h

theorem wrote_field (name : String) :
    (Script.field b name).Makes Given fun v => b.field name = .ok v := wrote_done _

theorem wrote_variableOf : (variableOf b).Makes Given (NameSupplied Given b) := by
  refine (wrote_field "VAR").bind fun name hname => ?_
  exact Script.Makes.mono (Script.Makes.request (variableRequest name))
    fun text htext => ⟨name, hname, htext⟩

theorem wrote_expression {type : String} (htype : type ∈ valueTypes) (hb : b.type = .str type)
    (text : String) (order : Int) :
    (pure (expression text order) : Script RuleResult).Makes Given (Wrote Given b inputs) :=
  Script.Makes.pure (.expression htype hb)

theorem wrote_ifRule (hb : b.type = .str "controls_if") :
    (ifRule b inputs).Makes Given (Wrote Given b inputs) := by
  refine (wrote_valueOr "IF0" anything "False").bind fun condition hcondition => ?_
  refine (wrote_bodyOr "DO0").bind fun body hbody => ?_
  simp only
  split
  · rename_i hother
    refine (wrote_bodyOr "ELSE").bind fun other helse => ?_
    exact Script.Makes.pure (.branches hb hother hcondition hbody helse)
  · rename_i hnone
    exact Script.Makes.pure (.branch hb (by simpa using hnone) hcondition hbody)

theorem wrote_repeatRule (hb : b.type = .str "controls_repeat_ext") :
    (repeatRule b inputs).Makes Given (Wrote Given b inputs) := by
  refine (wrote_valueOr "TIMES" anything "0").bind fun times htimes => ?_
  refine (wrote_bodyOr "DO").bind fun body hbody => ?_
  refine (Script.Makes.request counterRequest).bind fun counter hcounter => ?_
  exact Script.Makes.pure (.loop hb htimes hbody hcounter)

theorem wrote_rule {config : Config} {rule : Rule}
    (hrule : (Language.python config).ruleFor b.type = .ok (some rule)) :
    (rule b inputs).Makes Given (Wrote Given b inputs) := by
  obtain ⟨type, hb, hof⟩ := ruleOf_of_ruleFor hrule
  cases hof with
  | text =>
    refine (wrote_field "TEXT").bind fun v _ => ?_
    exact (wrote_done (literal v)).bind fun _ _ => wrote_expression (by decide) hb _ _
  | print =>
    exact (wrote_valueOr "TEXT" anything "''").bind fun _ hargument =>
      Script.Makes.pure (.print hb hargument)
  | number =>
    refine (wrote_field "NUM").bind fun v _ => ?_
    exact (wrote_done v.text).bind fun _ _ => wrote_expression (by decide) hb _ _
  | arithmetic =>
    refine (wrote_field "OP").bind fun op _ => ?_
    refine (wrote_done (operator arithmeticOperators op)).bind fun found _ => ?_
    refine (wrote_valueOr "A" found.2 "0").bind fun _ _ => ?_
    exact (wrote_valueOr "B" found.2 "0").bind fun _ _ => wrote_expression (by decide) hb _ _
  | prime =>
    refine (Script.Makes.request primeRequest).bind fun _ _ => ?_
    exact (wrote_valueOr "NUMBER_TO_CHECK" anything "0").bind fun _ _ =>
      wrote_expression (by decide) hb _ _
  | boolean => exact (wrote_field "BOOL").bind fun _ _ => wrote_expression (by decide) hb _ _
  | compare =>
    refine (wrote_field "OP").bind fun op _ => ?_
    refine (wrote_done (operator comparisons op)).bind fun sign _ => ?_
    refine (wrote_valueOr "A" relational "0").bind fun _ _ => ?_
    exact (wrote_valueOr "B" relational "0").bind fun _ _ => wrote_expression (by decide) hb _ _
  | negate =>
    exact (wrote_valueOr "BOOL" logicalNot "True").bind fun _ _ =>
      wrote_expression (by decide) hb _ _
  | get => exact wrote_variableOf.bind fun _ _ => wrote_expression (by decide) hb _ _
  | set =>
    refine wrote_variableOf.bind fun _ hname => ?_
    exact (wrote_valueOr "VALUE" anything "0").bind fun _ hvalue =>
      Script.Makes.pure (.set hb hname hvalue)
  | branch => exact wrote_ifRule hb
  | loop => exact wrote_repeatRule hb

end BlockCode.Python
