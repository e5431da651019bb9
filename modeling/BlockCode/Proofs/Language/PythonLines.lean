-- The lines that the rules of the language write. When the expressions and identifiers that a rule
-- is given fit into a line, so does the expression that it writes; and its statements are lines of
-- their own, with the bodies that it was given between them.
import BlockCode.Proofs.Language.PythonComments
import BlockCode.Proofs.Language.PythonStatements

namespace BlockCode.Python

open BlockCode.Text (Inline noted)

variable {G : Request → String → Prop} {b : Block} {inputs : Inputs}

/-! ## What is given, and what is written -/

/-- The expressions and identifiers that are given fit into a line. -/
structure Inlined (G : Request → String → Prop) : Prop where
  value : ∀ input order text, G (.value input order) text → text = "" ∨ Inline text
  name : ∀ r text, r.opensInput = false → G r text → Inline text

/-- What the rule for a block writes: an expression, a line, or lines that end in a colon with a
body behind each. -/
inductive Ruled (G : Request → String → Prop) (b : Block) (inputs : Inputs) : RuleResult → Prop
  | expression {type text : String} {order : Value} : type ∈ valueTypes → b.type = .str type →
    Inline text → Ruled G b inputs (.expression text order)
  | line {type line : String} : type ∈ ["text_print", "variables_set"] → b.type = .str type →
    Inline line → Ruled G b inputs (.code (line ++ "\n"))
  | branch {head body : String} : b.type = .str "controls_if" → inputs.has (.str "ELSE") = false →
    Inline head → BodySupplied G "DO0" body → Ruled G b inputs (.code (head ++ ":\n" ++ body))
  | branches {head body other : String} : b.type = .str "controls_if" →
    inputs.has (.str "ELSE") = true → Inline head → BodySupplied G "DO0" body →
    BodySupplied G "ELSE" other →
    Ruled G b inputs (.code (head ++ ":\n" ++ body ++ ("else" ++ ":\n" ++ other)))
  | loop {head body : String} : b.type = .str "controls_repeat_ext" → Inline head →
    BodySupplied G "DO" body → Ruled G b inputs (.code (head ++ ":\n" ++ body))

theorem Supplied.inline (hG : Inlined G) {input missing text : String} {order : Int}
    (h : Supplied G input order missing text) (hmissing : Inline missing) : Inline text := by
  cases h with
  | given hgiven hne => exact (hG.value _ _ _ hgiven).resolve_left hne
  | missing _ => exact hmissing

theorem NameSupplied.inline (hG : Inlined G) {text : String} (h : NameSupplied G b text) :
    Inline text := by
  obtain ⟨name, -, hgiven⟩ := h
  exact hG.name _ text rfl hgiven

theorem Wrote.ruled (hG : Inlined G) {text : String} (h : Wrote G b inputs (.code text)) :
    Ruled G b inputs (.code text) := by
  cases h with
  | @print argument hb hargument =>
    have hline : Inline ("print(" ++ argument ++ ")") :=
      ((by decide : Inline "print(").append (hargument.inline hG (by decide))).append (by decide)
    have hcode : "print(" ++ argument ++ ")\n" = "print(" ++ argument ++ ")" ++ "\n" := by
      show "print(" ++ argument ++ (")" ++ "\n") = _
      exact String.append_assoc.symm
    rw [hcode]
    exact .line (by decide) hb hline
  | set hb hname hvalue =>
    exact .line (by decide) hb ((hname.inline hG).around (by decide) (hvalue.inline hG (by decide)))
  | @branch condition body hb hnone hcondition hbody =>
    have hhead : Inline ("if" ++ " " ++ condition) :=
      (by decide : Inline "if").around (by decide) (hcondition.inline hG (by decide))
    exact .branch hb hnone hhead hbody
  | @branches condition body other hb helse hcondition hbody hother =>
    have hhead : Inline ("if" ++ " " ++ condition) :=
      (by decide : Inline "if").around (by decide) (hcondition.inline hG (by decide))
    rw [branches_eq]
    exact .branches hb helse hhead hbody hother
  | @loop times body counter hb htimes hbody hcounter =>
    have hhead : Inline ("for" ++ " " ++ counter ++ " in range(" ++ times ++ ")") :=
      (((by decide : Inline "for").around (by decide) (hG.name _ _ rfl hcounter)).around (by decide)
        (htimes.inline hG (by decide))).append (by decide)
    rw [loop_eq]
    exact .loop hb hhead hbody

theorem headed {head body : String} (hhead : Inline head) (hbody : Lined body) :
    Lined (head ++ ":\n" ++ body) ∧ noted (head ++ ":\n" ++ body) = noted body := by
  have hline : Inline (head ++ ":") := hhead.append (by decide)
  rw [headed_eq]
  exact ⟨hbody.behind _, hline.noted_behind body⟩

/-- What is written for a block that gives a value or none: one line, or lines that have ended. -/
inductive Formed : Bool → RuleResult → Prop
  | expression {text : String} {order : Value} : Inline text → Formed true (.expression text order)
  | code {text : String} : Lined text → Formed false (.code text)

theorem Ruled.formed {result : RuleResult} (hflagged : Flagged b)
    (hbodies : ∀ input text, BodySupplied G input text → Lined text)
    (h : Ruled G b inputs result) : Formed b.givesValue result := by
  have hcode : ∀ type ∈ statementTypes, b.type = .str type → b.givesValue = false :=
    hflagged.statements
  cases h with
  | expression htype hb hinline =>
    rw [hflagged.values _ htype hb]
    exact .expression hinline
  | line htype hb hinline =>
    have hlines : ∀ type ∈ ["text_print", "variables_set"], type ∈ statementTypes := by decide
    rw [hcode _ (hlines _ htype) hb]
    exact .code hinline.firm.lined
  | branch hb _ hhead hbody =>
    rw [hcode _ (by decide) hb]
    exact .code (headed hhead (hbodies _ _ hbody)).1
  | branches hb _ hhead _ hother =>
    rw [hcode _ (by decide) hb]
    exact .code ((headed (by decide : Inline "else") (hbodies _ _ hother)).1.behind _)
  | loop hb hhead hbody =>
    rw [hcode _ (by decide) hb]
    exact .code (headed hhead (hbodies _ _ hbody)).1

theorem bodiless {type : String} (h : type ∈ valueTypes) :
    type ≠ "controls_if" ∧ type ≠ "controls_repeat_ext" := by
  have hall : ∀ type ∈ valueTypes, type ≠ "controls_if" ∧ type ≠ "controls_repeat_ext" := by
    decide
  exact hall type h

/-! ## Rules for expressions -/

theorem inline_valueOr (hG : Inlined G) {missing : String} (hmissing : Inline missing)
    (input : String) (order : Int) : (valueOr input order missing).Makes G Inline :=
  (wrote_valueOr input order missing).mono fun _ h => h.inline hG hmissing

theorem ruled_expression {type text : String} (htype : type ∈ valueTypes) (hb : b.type = .str type)
    (h : Inline text) (order : Int) :
    (pure (expression text order) : Script RuleResult).Makes G (Ruled G b inputs) :=
  Script.Makes.pure (.expression htype hb h)

theorem mem_of_operator {α : Type} {table : List (String × α)} {v : Value} {a : α}
    (h : operator table v = .ok a) : a ∈ table.map (·.2) := by
  unfold operator at h
  split at h
  · cases h
  · split at h
    · rename_i n b hfind
      cases h
      exact List.mem_map.mpr ⟨(n, _), List.mem_of_find?_eq_some hfind, rfl⟩
    · cases h

theorem ruled_arithmeticRule (hG : Inlined G) (hb : b.type = .str "math_arithmetic") :
    (arithmeticRule b inputs).Makes G (Ruled G b inputs) := by
  refine (wrote_field "OP").bind fun v _ => ?_
  have hsign : (Script.done (operator arithmeticOperators v)).Makes G
      fun made => '\n' ∉ made.1.toList := by
    have hall : ∀ a ∈ arithmeticOperators.map (·.2), '\n' ∉ a.1.toList := by decide
    exact fun a ha => hall a (mem_of_operator ha)
  refine hsign.bind ?_
  rintro ⟨sign, order⟩ hnewline
  refine (inline_valueOr hG (by decide) "A" order).bind fun left hleft => ?_
  refine (inline_valueOr hG (by decide) "B" order).bind fun right hright => ?_
  exact ruled_expression (by decide) hb (hleft.around hnewline hright) order

theorem ruled_primeRule (hG : Inlined G) (hb : b.type = .str "math_is_prime") :
    (primeRule b inputs).Makes G (Ruled G b inputs) := by
  refine (Script.Makes.request primeRequest).bind fun name hname => ?_
  refine (inline_valueOr hG (by decide) "NUMBER_TO_CHECK" anything).bind fun number hnumber => ?_
  have hcall : Inline (name ++ "(" ++ number ++ ")") :=
    ((hG.name _ _ rfl hname).around (by decide) hnumber).append (by decide)
  exact ruled_expression (by decide) hb hcall functionCall

theorem ruled_compareRule (hG : Inlined G) (hb : b.type = .str "logic_compare") :
    (compareRule b inputs).Makes G (Ruled G b inputs) := by
  refine (wrote_field "OP").bind fun v _ => ?_
  have hsign : (Script.done (operator comparisons v)).Makes G Inline := by
    have hall : ∀ a ∈ comparisons.map (·.2), Inline a := by decide
    exact fun a ha => hall a (mem_of_operator ha)
  refine hsign.bind fun sign hsign => ?_
  refine (inline_valueOr hG (by decide) "A" relational).bind fun left hleft => ?_
  refine (inline_valueOr hG (by decide) "B" relational).bind fun right hright => ?_
  exact ruled_expression (by decide) hb
    ((hleft.around (by decide) hsign).around (by decide) hright) relational

theorem ruled_negateRule (hG : Inlined G) (hb : b.type = .str "logic_negate") :
    (negateRule b inputs).Makes G (Ruled G b inputs) := by
  refine (inline_valueOr hG (by decide) "BOOL" logicalNot).bind fun argument hargument => ?_
  have hnot : Inline ("not" ++ " " ++ argument) :=
    (by decide : Inline "not").around (by decide) hargument
  exact ruled_expression (by decide) hb hnot logicalNot

theorem ruled_rule {config : Config} {rule : Rule} (hG : Inlined G)
    (hrule : (Language.python config).ruleFor b.type = .ok (some rule))
    (hnumber : b.type = .str "math_number" → ∀ v, b.field "NUM" = .ok v → Countable v) :
    (rule b inputs).Makes G (Ruled G b inputs) := by
  obtain ⟨type, hb, hof⟩ := ruleOf_of_ruleFor hrule
  have hcode : type ∈ statementTypes → (rule b inputs).Makes G (Ruled G b inputs) := by
    refine fun htype => (wrote_rule hrule).mono fun result hwrote => ?_
    cases result with
    | code text => exact hwrote.ruled hG
    | expression text order =>
      obtain ⟨other, hvalue, hother⟩ : ∃ other ∈ valueTypes, b.type = .str other := by
        cases hwrote with
        | expression hvalue hother => exact ⟨_, hvalue, hother⟩
      have hapart : ∀ type ∈ statementTypes, type ∉ valueTypes := by decide
      rw [hb] at hother
      cases hother
      exact absurd hvalue (hapart type htype)
    | other v => cases hwrote
  cases hof with
  | text =>
    refine (wrote_field "TEXT").bind fun v _ => ?_
    exact (wrote_done (literal v)).bind fun _ hcode =>
      ruled_expression (by decide) hb (inline_literal hcode) atomic
  | print => exact hcode (by decide)
  | number =>
    refine (wrote_field "NUM").bind fun v hv => ?_
    exact (wrote_done v.text).bind fun _ hcode =>
      ruled_expression (by decide) hb ((hnumber hb v hv).inline hcode) _
  | arithmetic => exact ruled_arithmeticRule hG hb
  | prime => exact ruled_primeRule hG hb
  | boolean =>
    exact (wrote_field "BOOL").bind fun _ _ =>
      ruled_expression (by decide) hb (by split <;> decide) atomic
  | compare => exact ruled_compareRule hG hb
  | negate => exact ruled_negateRule hG hb
  | get =>
    exact wrote_variableOf.bind fun _ hname =>
      ruled_expression (by decide) hb (hname.inline hG) atomic
  | set => exact hcode (by decide)
  | branch => exact hcode (by decide)
  | loop => exact hcode (by decide)

end BlockCode.Python
