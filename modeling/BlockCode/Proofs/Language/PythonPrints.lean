-- Texts cannot break out of their quotes. A block that prints a text has a whole line of the
-- program to itself, however deep it is nested and whatever stands around it, and the literal on
-- that line is read as the text.
import BlockCode.Proofs.Language.PythonLiterals
import BlockCode.Proofs.Language.PythonLiveness
import BlockCode.Proofs.Language.PythonStatements
import BlockCode.Proofs.Text.Whole

namespace BlockCode.Python

open BlockCode.Language
open BlockCode.Text (Ended wholeLines)

/-! ## Where blocks stand in a program -/

/-- A block that is translated, its inputs, and how many inputs for statements it is nested in. -/
structure Spot where
  block : Block
  inputs : Inputs
  depth : Nat := 0

/-- The spot, nested in one input more. -/
def Spot.deeper (p : Spot) : Spot := { p with depth := p.depth + 1 }

/-- The spots under the name of an input. Those in an input for statements are one level further
in. -/
def nestedUnder (name : String) (spots : List Spot) : List Spot :=
  if name ∈ bodyInputs then spots.map Spot.deeper else spots

mutual
/-- The spots of a chain: its live blocks, each before what hangs on it. -/
def spots : Chain → List Spot
  | .nil => []
  | .cons b inputs next =>
    if b.isDisabled then spots next
    else
      let below := spotsIn inputs
      let under name := ((below.find? (·.1.same (.str name))).map (·.2)).getD []
      { block := b, inputs } ::
        ((reads b).flatMap (fun name => nestedUnder name (under name)) ++ spots next)

/-- The spots of what is plugged into the inputs, as they are without the inputs around them. -/
def spotsIn : Inputs → List (Value × List Spot)
  | .nil => []
  | .cons name _ target rest => (name, spots target) :: spotsIn rest
end

variable {config : Config} {indent : String} {b : Block} {inputs : Inputs}

/-- The spots of what is in the input of a name. -/
def spotsAt (inputs : Inputs) (name : String) : List Spot :=
  nestedUnder name (spots (inputs.target (.str name)))

theorem spots_enabled (hb : b.isDisabled = false) (inputs : Inputs) (next : Chain) :
    spots (.cons b inputs next) =
      { block := b, inputs } :: ((reads b).flatMap (spotsAt inputs) ++ spots next) := by
  have hunder : ∀ name : String,
      (((spotsIn inputs).find? (·.1.same (.str name))).map (·.2)).getD [] =
        spots (inputs.target (.str name)) :=
    fun name => Inputs.getD_listed rfl (fun _ _ _ _ => rfl) rfl inputs (.str name)
  rw [spots, if_neg (by simp [hb])]
  simp only [hunder]
  rfl

theorem spots_disabled (hb : b.isDisabled = true) (inputs : Inputs) (next : Chain) :
    spots (.cons b inputs next) = spots next := by
  rw [spots, if_pos hb]

theorem map_spots (c : Chain) : (spots c).map (·.block) = c.live reads := by
  induction c using Chain.inductionOn with
  | nil => simp [spots, Chain.live]
  | cons b inputs next hin hnext =>
    rcases hb : b.isDisabled with _ | _
    · have hunder : ∀ name, (spotsAt inputs name).map (·.block) =
          (inputs.target (.str name)).live reads := by
        intro name
        rw [← hin.of_target (by simp [spots, Chain.live]) (.str name), spotsAt, nestedUnder]
        split
        · rw [List.map_map]
          rfl
        · rfl
      rw [spots_enabled hb, Chain.live_enabled hb, List.map_cons, List.map_append, hnext,
        List.map_flatMap]
      simp only [hunder]
    · rw [spots_disabled hb, Chain.live_disabled hb, hnext]

/-! ## Lines that are promised -/

/-- The text that a chain gives, if it is one enabled block for a text. -/
def textAlone? : Chain → Option String
  | .cons b _ .nil =>
    match b.isDisabled, b.givesValue, b.type, b.field "TEXT" with
    | false, true, .str "text", .ok (.str text) => some text
    | _, _, _, _ => none
  | _ => none

/-- The text that a block is to print. -/
def Spot.prints? (p : Spot) : Option String :=
  match p.block.type with
  | .str "text_print" => textAlone? (p.inputs.target (.str "TEXT"))
  | _ => none

/-- A line that prints what a literal stands for, so many levels in. -/
def printLine (indent : String) (depth : Nat) (literal : String) : List Char :=
  (List.replicate depth indent.toList).flatten ++ ("print(" ++ literal ++ ")").toList

/-- The line that a block which prints a text has to itself. -/
def Spot.line? (indent : String) (p : Spot) : Option (List Char) :=
  p.prints?.map fun text => printLine indent p.depth (Text.quoted text)

/-- The lines of the blocks that print texts. -/
def promised (indent : String) (ps : List Spot) : List (List Char) :=
  ps.filterMap (Spot.line? indent)

theorem promised_append (ps ps' : List Spot) :
    promised indent (ps ++ ps') = promised indent ps ++ promised indent ps' :=
  List.filterMap_append

theorem promised_deeper (ps : List Spot) :
    promised indent (ps.map Spot.deeper) = (promised indent ps).map (indent.toList ++ ·) := by
  unfold promised
  rw [List.filterMap_map, List.map_filterMap]
  refine List.filterMap_congr fun p _ => ?_
  simp only [Function.comp, Spot.line?, Spot.prints?, Spot.deeper, Option.map_map]
  refine congrArg (Option.map · _) (funext fun text => ?_)
  simp only [Function.comp, printLine]
  rw [List.replicate_succ, List.flatten_cons, List.append_assoc]

theorem promised_spotsAt (name : String) : promised indent (spotsAt inputs name) =
    if name ∈ bodyInputs then (promised indent (spots (inputs.target (.str name)))).map
      (indent.toList ++ ·)
    else promised indent (spots (inputs.target (.str name))) := by
  unfold spotsAt nestedUnder
  split
  · exact promised_deeper _
  · rfl

/-- What an enabled block promises, with what is plugged into it. -/
def owed (indent : String) (b : Block) (inputs : Inputs) : List (List Char) :=
  promised indent ({ block := b, inputs } :: (reads b).flatMap (spotsAt inputs))

theorem promised_enabled (hb : b.isDisabled = false) (next : Chain) :
    promised indent (spots (.cons b inputs next)) =
      owed indent b inputs ++ promised indent (spots next) := by
  rw [spots_enabled hb, ← List.cons_append, promised_append]
  rfl

theorem owed_eq {type : String} (hb : b.type = .str type) : owed indent b inputs =
    (Spot.line? indent { block := b, inputs }).toList ++
      ((readInputs.lookup type).getD []).flatMap fun name =>
        promised indent (spotsAt inputs name) := by
  have hreads : reads b = (readInputs.lookup type).getD [] := by rw [reads, hb]
  unfold owed promised
  rw [hreads, List.filterMap_cons, List.filterMap_flatMap]
  rcases Spot.line? indent { block := b, inputs } with _ | line <;> rfl

theorem line?_none {type : String} (hb : b.type = .str type) (hnot : type ≠ "text_print") :
    Spot.line? indent { block := b, inputs } = none := by
  unfold Spot.line? Spot.prints?
  simp only [hb]
  split
  · rename_i heq
    exact absurd (Value.str.inj heq) hnot
  · rfl

theorem owed_inputs {type : String} (hb : b.type = .str type) (hnot : type ≠ "text_print") :
    owed indent b inputs = ((readInputs.lookup type).getD []).flatMap fun name =>
      promised indent (spotsAt inputs name) := by
  rw [owed_eq hb, line?_none hb hnot]
  rfl

/-! ## What rules are given -/

/-- Code in which these lines stand whole. No line stands in an expression. -/
inductive Holds (ls : List (List Char)) : Code → Prop
  | statements {text : String} : Ended text → ls.Sublist (wholeLines text) →
    Holds ls (.statements text)
  | expression {text : String} {order : Value} : ls = [] → Holds ls (.expression text order)

/-- What the rule for a block is given when it asks. An expression hides no line, and a text that is
alone comes in quotes; statements come with their lines, one level further in. -/
def Handed (indent : String) (inputs : Inputs) : Request → String → Prop
  | .value input _, text => promised indent (spots (inputs.target input)) = [] ∧
    ∀ shown, textAlone? (inputs.target input) = some shown → text = Text.quoted shown
  | .statements input, text => Ended text ∧
    ((promised indent (spots (inputs.target input))).map (indent.toList ++ ·)).Sublist
      (wholeLines text)
  | _, _ => True

/-- No line is owed where an expression is given. -/
theorem Supplied.hides {input missing text : String} {order : Int}
    (h : Supplied (Handed indent inputs) input order missing text) (hinput : input ∉ bodyInputs) :
    promised indent (spotsAt inputs input) = [] := by
  rw [promised_spotsAt, if_neg hinput]
  cases h with
  | given hgiven _ => exact hgiven.1
  | missing hgiven => exact hgiven.1

theorem Supplied.quoted {input missing text shown : String} {order : Int}
    (h : Supplied (Handed indent inputs) input order missing text)
    (hshown : textAlone? (inputs.target (.str input)) = some shown) : text = Text.quoted shown := by
  cases h with
  | given hgiven _ => exact hgiven.2 shown hshown
  | missing hgiven =>
    exact absurd (hgiven.2 shown hshown) (Text.inline_quoted shown).firm.ne_empty.symm

theorem BodySupplied.holds {input text : String}
    (h : BodySupplied (Handed indent inputs) input text) (hinput : input ∈ bodyInputs) :
    Ended text ∧ (promised indent (spotsAt inputs input)).Sublist (wholeLines text) := by
  rw [promised_spotsAt, if_pos hinput]
  cases h with
  | given hgiven _ => exact hgiven
  | passes hgiven =>
    have hnone := List.sublist_nil.mp hgiven.2
    rw [hnone]
    exact ⟨Ended.newline "  pass", List.nil_sublist _⟩

/-! ## What rules write -/

/-- What a rule writes holds the lines that its block owes. -/
inductive Pays (indent : String) (b : Block) (inputs : Inputs) : RuleResult → Prop
  | code {text : String} : Ended text → (owed indent b inputs).Sublist (wholeLines text) →
    Pays indent b inputs (.code text)
  | expression {type text : String} {order : Value} : type ∈ valueTypes → b.type = .str type →
    owed indent b inputs = [] → Pays indent b inputs (.expression text order)

theorem pays_expression {type : String} (htype : type ∈ valueTypes) (hb : b.type = .str type)
    (hnone : ∀ name ∈ (readInputs.lookup type).getD [], promised indent (spotsAt inputs name) = [])
    (text : String) (order : Int) :
    (pure (expression text order) : Script RuleResult).Makes (Handed indent inputs)
      (Pays indent b inputs) := by
  have hprints : "text_print" ∉ valueTypes := by decide
  have hnot : type ≠ "text_print" := fun h => hprints (h ▸ htype)
  refine Script.Makes.pure (.expression htype hb ?_)
  rw [owed_inputs hb hnot]
  exact List.flatMap_eq_nil_iff.mpr hnone

theorem pays_operands {type : String} (htype : type ∈ valueTypes) (hb : b.type = .str type)
    (hreads : readInputs.lookup type = some ["A", "B"]) (order : Int)
    (join : String → String → String) :
    (valueOr "A" order "0" >>= fun left => valueOr "B" order "0" >>= fun right =>
      pure (expression (join left right) order)).Makes (Handed indent inputs)
        (Pays indent b inputs) := by
  refine (wrote_valueOr "A" order "0").bind fun left hleft => ?_
  refine (wrote_valueOr "B" order "0").bind fun right hright => ?_
  refine pays_expression htype hb ?_ _ _
  rw [hreads]
  exact List.forall_mem_cons.mpr
    ⟨hleft.hides (by decide), List.forall_mem_singleton.mpr (hright.hides (by decide))⟩

theorem BodySupplied.headed {input body : String}
    (h : BodySupplied (Handed indent inputs) input body) (hinput : input ∈ bodyInputs)
    (head : String) : Ended (head ++ ":\n" ++ body) ∧
      (promised indent (spotsAt inputs input)).Sublist (wholeLines (head ++ ":\n" ++ body)) := by
  obtain ⟨hended, hlines⟩ := h.holds hinput
  rw [headed_eq, Text.wholeLines_append]
  exact ⟨(Ended.newline _).append hended, hlines.trans (List.sublist_append_right _ _)⟩

/-- A block that prints owes its own line, if it prints a text that is alone. -/
theorem pays_print {argument : String} (hb : b.type = .str "text_print")
    (h : Supplied (Handed indent inputs) "TEXT" anything "''" argument) :
    Pays indent b inputs (.code ("print(" ++ argument ++ ")\n")) := by
  have hcode : "print(" ++ argument ++ ")\n" = "print(" ++ argument ++ ")" ++ "\n" := by
    show _ ++ (")" ++ "\n") = _
    exact String.append_assoc.symm
  have howed : owed indent b inputs = (Spot.line? indent { block := b, inputs }).toList := by
    rw [owed_eq hb]
    show _ ++ ["TEXT"].flatMap _ = _
    rw [List.flatMap_singleton, h.hides (by decide), List.append_nil]
  rw [hcode]
  refine .code (Ended.newline _) ?_
  rw [howed, Text.wholeLines_newline]
  unfold Spot.line? Spot.prints?
  simp only [hb]
  rcases hshown : textAlone? (inputs.target (.str "TEXT")) with _ | shown
  · exact List.nil_sublist _
  · have hline : printLine indent 0 (Text.quoted shown) =
        ("print(" ++ Text.quoted shown ++ ")").toList := by
      rw [printLine, List.replicate_zero, List.flatten_nil, List.nil_append]
    have hinline : Text.Inline ("print(" ++ Text.quoted shown ++ ")") :=
      (by decide : Text.Inline "print(").around (Text.inline_quoted shown).newline (by decide)
    rw [h.quoted hshown, Text.wholeLines_firm hinline.newline hinline.firm, Option.map_some, hline]
    exact List.Sublist.refl _

theorem pays_branch {condition body : String} (hb : b.type = .str "controls_if")
    (hnone : inputs.has (.str "ELSE") = false)
    (hcondition : Supplied (Handed indent inputs) "IF0" anything "False" condition)
    (hbody : BodySupplied (Handed indent inputs) "DO0" body) :
    Pays indent b inputs (.code ("if " ++ condition ++ ":\n" ++ body)) := by
  obtain ⟨hended, hlines⟩ := hbody.headed (by decide) ("if " ++ condition)
  have hother : promised indent (spotsAt inputs "ELSE") = [] := by
    rw [promised_spotsAt, Inputs.target_of_not_has hnone]
    rfl
  refine .code hended ?_
  rw [owed_inputs hb (by decide)]
  show (["IF0", "DO0", "ELSE"].flatMap _).Sublist _
  simpa only [List.flatMap_cons, List.flatMap_nil, hcondition.hides (by decide), hother,
    List.nil_append, List.append_nil] using hlines

theorem pays_branches {condition body other : String} (hb : b.type = .str "controls_if")
    (hcondition : Supplied (Handed indent inputs) "IF0" anything "False" condition)
    (hbody : BodySupplied (Handed indent inputs) "DO0" body)
    (hother : BodySupplied (Handed indent inputs) "ELSE" other) :
    Pays indent b inputs (.code ("if " ++ condition ++ ":\n" ++ body ++ "else:\n" ++ other)) := by
  obtain ⟨hended, hlines⟩ := hbody.headed (by decide) ("if " ++ condition)
  obtain ⟨hended', hlines'⟩ := hother.headed (by decide) "else"
  rw [branches_eq]
  refine .code (hended.append hended') ?_
  rw [hended.wholeLines, owed_inputs hb (by decide)]
  show (["IF0", "DO0", "ELSE"].flatMap _).Sublist _
  simpa only [List.flatMap_cons, List.flatMap_nil, hcondition.hides (by decide), List.nil_append,
    List.append_nil] using hlines.append hlines'

theorem pays_loop {times body counter : String} (hb : b.type = .str "controls_repeat_ext")
    (htimes : Supplied (Handed indent inputs) "TIMES" anything "0" times)
    (hbody : BodySupplied (Handed indent inputs) "DO" body) : Pays indent b inputs
      (.code ("for " ++ counter ++ " in range(" ++ times ++ "):\n" ++ body)) := by
  obtain ⟨hended, hlines⟩ := hbody.headed (by decide)
    ("for " ++ counter ++ " in range(" ++ times ++ ")")
  rw [loop_eq]
  refine .code hended ?_
  rw [owed_inputs hb (by decide)]
  show (["TIMES", "DO"].flatMap _).Sublist _
  simpa only [List.flatMap_cons, List.flatMap_nil, htimes.hides (by decide), List.nil_append,
    List.append_nil] using hlines

theorem Wrote.pays {type : String} {result : RuleResult} (hnot : type ∉ valueTypes)
    (hb : b.type = .str type) (h : Wrote (Handed indent inputs) b inputs result) :
    Pays indent b inputs result := by
  cases h with
  | expression htype hb' =>
    rw [hb] at hb'
    exact absurd htype (Value.str.inj hb' ▸ hnot)
  | print hb hargument => exact pays_print hb hargument
  | set hb hname hvalue =>
    have hnone : owed indent b inputs = [] := by
      rw [owed_inputs hb (by decide)]
      exact List.flatMap_eq_nil_iff.mpr (List.forall_mem_singleton.mpr (hvalue.hides (by decide)))
    refine .code (Ended.newline _) ?_
    rw [hnone]
    exact List.nil_sublist _
  | branch hb hnone hcondition hbody => exact pays_branch hb hnone hcondition hbody
  | branches hb _ hcondition hbody hother => exact pays_branches hb hcondition hbody hother
  | loop hb htimes hbody _ => exact pays_loop hb htimes hbody

theorem pays_rule {config : Config} {rule : Rule}
    (hrule : (Language.python config).ruleFor b.type = .ok (some rule)) :
    (rule b inputs).Makes (Handed indent inputs) (Pays indent b inputs) := by
  obtain ⟨type, hb, hof⟩ := ruleOf_of_ruleFor hrule
  have hstatements : type ∉ valueTypes →
      (rule b inputs).Makes (Handed indent inputs) (Pays indent b inputs) :=
    fun hnot => (wrote_rule hrule).mono fun _ h => h.pays hnot hb
  cases hof with
  | text =>
    refine (wrote_field "TEXT").bind fun v _ => ?_
    exact (wrote_done (literal v)).bind fun _ _ =>
      pays_expression (by decide) hb (List.forall_mem_nil _) _ _
  | print => exact hstatements (by decide)
  | number =>
    refine (wrote_field "NUM").bind fun v _ => ?_
    exact (wrote_done v.text).bind fun _ _ =>
      pays_expression (by decide) hb (List.forall_mem_nil _) _ _
  | arithmetic =>
    refine (wrote_field "OP").bind fun op _ => ?_
    refine (wrote_done (operator arithmeticOperators op)).bind fun found _ => ?_
    exact pays_operands (by decide) hb rfl found.2 fun left right => left ++ found.1 ++ right
  | prime =>
    refine (Script.Makes.request primeRequest).bind fun name _ => ?_
    refine (wrote_valueOr "NUMBER_TO_CHECK" anything "0").bind fun number hnumber => ?_
    exact pays_expression (by decide) hb
      (List.forall_mem_singleton.mpr (hnumber.hides (by decide))) _ _
  | boolean =>
    exact (wrote_field "BOOL").bind fun _ _ =>
      pays_expression (by decide) hb (List.forall_mem_nil _) _ _
  | compare =>
    refine (wrote_field "OP").bind fun op _ => ?_
    refine (wrote_done (operator comparisons op)).bind fun sign _ => ?_
    exact pays_operands (by decide) hb rfl relational fun left right =>
      left ++ " " ++ sign ++ " " ++ right
  | negate =>
    refine (wrote_valueOr "BOOL" logicalNot "True").bind fun argument hargument => ?_
    exact pays_expression (by decide) hb
      (List.forall_mem_singleton.mpr (hargument.hides (by decide))) _ _
  | get =>
    exact wrote_variableOf.bind fun _ _ =>
      pays_expression (by decide) hb (List.forall_mem_nil _) _ _
  | set => exact hstatements (by decide)
  | branch => exact hstatements (by decide)
  | loop => exact hstatements (by decide)

/-! ## Every chain holds its lines -/

/-- A block that makes an expression ends its chain. -/
def ValuesEnd (b : Block) (_ : Inputs) (next : Chain) : Prop :=
  ∀ type ∈ valueTypes, b.type = .str type → next = .nil

instance decidableValuesEnd (b : Block) (inputs : Inputs) (next : Chain) :
    Decidable (ValuesEnd b inputs next) :=
  inferInstanceAs (Decidable (∀ type ∈ valueTypes, b.type = .str type → next = .nil))

/-- The lines that are promised stand whole in the code of the chain. -/
def Upholds (config : Config) (indent : String) (nested : Workspace → Action String)
    (c : Chain) : Prop :=
  c.All ValuesEnd → ∀ alone, Yields (fun _ => True) (Holds (promised indent (spots c)))
    ((Language.python config).codeOf nested alone c)

variable {nested : Workspace → Action String}

theorem upholds_nothing : Upholds config indent nested .nil :=
  fun _ _ => Yields.pure (.statements Ended.empty (List.nil_sublist _))

theorem textRule_eq {text : String} (hfield : b.field "TEXT" = .ok (.str text)) :
    textRule b inputs = .done (.ok (expression (Text.quoted text) atomic)) := by
  unfold textRule Script.field
  rw [hfield]
  rfl

theorem of_textAlone {c : Chain} {text : String} (h : textAlone? c = some text) :
    ∃ b inputs, c = .cons b inputs .nil ∧ b.isDisabled = false ∧ b.givesValue = true ∧
      b.type = .str "text" ∧ b.field "TEXT" = .ok (.str text) := by
  unfold textAlone? at h
  split at h
  · split at h
    · cases h
      exact ⟨_, _, rfl, ‹_›, ‹_›, ‹_›, ‹_›⟩
    · cases h
  · cases h

theorem codeOf_textAlone {c : Chain} {text : String} (h : textAlone? c = some text)
    {s s' : Session} {code : Code}
    (hrun : (Language.python config).codeOf nested false c s = (.ok code, s')) :
    code = .expression (Text.quoted text) (.int atomic) := by
  obtain ⟨b, inputs, rfl, henabled, hgives, htype, hfield⟩ := of_textAlone h
  obtain ⟨rule, result, after, before, behind, hrule, hresult, hbefore, hbehind, hcode⟩ :=
    (codeOf_iff henabled).mp hrun
  obtain ⟨name, hname, hof⟩ := ruleOf_of_ruleFor hrule
  rw [htype] at hname
  obtain rfl : rule = textRule := by
    cases hof with
    | text => rfl
    | _ => exact absurd (Value.str.inj hname) (by decide)
  rw [textRule_eq hfield] at hresult
  cases hresult
  cases hbehind
  rw [unremarked hbefore hgives rfl] at hcode
  cases hcode
  simp

theorem handed_answer (hindent : config.indent = .str indent)
    (hgaps : ∀ c ∈ indent.toList, Text.isGap c = true)
    (hin : inputs.Every (Upholds config indent nested)) (hall : inputs.All ValuesEnd)
    (r : Request) :
    Yields (fun _ => True) (Handed indent inputs r)
      ((Language.python config).answer nested b
        ((Language.python config).plugs nested inputs) r) := by
  intro s text s' _ hrun
  refine ⟨trivial, ?_⟩
  have htarget : ∀ {name code},
      (Language.python config).codeOf nested false (inputs.target name) s = (.ok code, s') →
      Holds (promised indent (spots (inputs.target name))) code :=
    fun hcode => (hin.of_target upholds_nothing _ (hall.of_target _) false s _ s' trivial hcode).2
  cases r with
  | value input outer =>
    obtain ⟨-, name, code, hname, hcode, hgives⟩ := plugged_iff.mp hrun
    obtain rfl := Value.eq_of_asKey hname
    constructor
    · cases htarget hcode with
      | statements hended hlines =>
        cases hgives
        exact List.sublist_nil.mp hlines
      | expression hnone => exact hnone
    · intro shown hshown
      rw [codeOf_textAlone hshown hcode] at hgives
      cases hgives
      have hfree : (Language.python config).isFree (.int atomic) = true := rfl
      rw [bracketed, needsBrackets, hfree, Bool.not_true, Bool.and_false, Bool.and_false,
        if_neg Bool.false_ne_true]
  | statements input =>
    obtain ⟨name, made, hname, hcode, htext⟩ := nestedStatements_iff.mp hrun
    obtain rfl := Value.eq_of_asKey hname
    cases htarget hcode with
    | statements hended hlines =>
      by_cases hempty : made = ""
      · subst hempty
        cases htext
        exact ⟨Ended.empty, by rw [List.sublist_nil.mp hlines]; exact List.nil_sublist _⟩
      · obtain rfl := (nest_statements hindent hempty).mp htext
        refine ⟨Text.ended_leadLines hended hempty, ?_⟩
        rw [Text.wholeLines_indented hgaps]
        exact hlines.map _
  | _ => exact trivial

theorem upholds (hindent : config.indent = .str indent)
    (hgaps : ∀ c ∈ indent.toList, Text.isGap c = true) (c : Chain) :
    Upholds config indent nested c := by
  induction c using Chain.inductionOn with
  | nil => exact upholds_nothing
  | cons b inputs next hin hnext =>
    intro hall alone
    obtain ⟨hb, hbelow, hbehind⟩ := Chain.all_cons.mp hall
    rcases hdisabled : b.isDisabled with _ | _
    · refine codeOf_yields (P := Pays indent b inputs) hdisabled (fun _ _ => trivial)
        (fun rule hrule => ?_) (hnext hbehind false)
        fun result before behind code after s' hpays hbefore hholds hchain hcode => ?_
      · exact (pays_rule hrule).perform
          (fun r _ => handed_answer hindent hgaps hin hbelow r) (asks_of_ruleFor b hrule inputs)
      rw [promised_enabled hdisabled]
      cases hholds with
      | statements hended hlines =>
        have hfirst := ended_remarks hbefore
        cases hpays with
        | code hwritten howed =>
          cases hcode
          refine .statements ((hfirst.append hwritten).append hended) ?_
          rw [(hfirst.append hwritten).wholeLines, hfirst.wholeLines]
          exact (howed.trans (List.sublist_append_right _ _)).append hlines
        | expression htype htyped hnone =>
          cases hcode
          rw [hb _ htype htyped, hnone]
          exact .expression rfl
    · rw [codeOf_disabled hdisabled, spots_disabled hdisabled]
      exact hnext hbehind false

/-! ## Programs -/

theorem wholeLines_section {top : Chain} {text : String} {made : Option String}
    (h : (Language.python config).sectionOf top text = .ok made) :
    made.toList.flatMap wholeLines = wholeLines text :=
  flatMap_sectionOf (fun _ => rfl) rfl Text.wholeLines_newline h

theorem wholeLines_program (s : Session) (texts : List String) :
    (texts.flatMap wholeLines).Sublist
      (wholeLines (Text.clean (s.withDefinitions (joinSections texts)))) := by
  refine List.Sublist.trans ?_ (Text.wholeLines_clean _)
  have hjoined : wholeLines (joinSections texts) = texts.flatMap wholeLines := by
    rw [Text.wholeLines_eq, gather_joinSections rfl]
    exact List.flatMap_congr fun text _ => (Text.wholeLines_eq text).symm
  rw [← hjoined]
  unfold Session.withDefinitions
  split
  · exact List.Sublist.refl _
  · rename_i definitions _
    have hunder : ∀ before : String, before ++ "\n\n\n" = before ++ "\n\n" ++ "\n" := by
      intro before
      rw [String.append_assoc]
      rfl
    rw [hunder, Text.wholeLines_append]
    exact List.sublist_append_right _ _

/-- Every block that prints a text has a line of the program to itself. The line is as far in as the
block is nested, and the literal on it breaks no line and is read as the text. The blocks are those
that the pass translates. -/
theorem printed_texts_stay_whole (hindent : config.indent = .str indent)
    (hgaps : ∀ c ∈ indent.toList, Text.isGap c = true) {w : Workspace} (_ : w.Acyclic)
    (hw : w.All ValuesEnd) {s : Session} {program : String}
    (hmade : ((Language.python config).pass w s).1 = .ok program) :
    (w.trees.flatMap spots).map (·.block) = (Language.python config).passVisits w s ∧
      (promised indent (w.trees.flatMap spots)).Sublist (Text.lines program.toList) ∧
      ∀ p ∈ w.trees.flatMap spots, ∀ text, p.prints? = some text →
        ∃ literal, Unbroken literal ∧ literal? literal = some text ∧
          printLine indent p.depth literal ∈ Text.lines program.toList := by
  have hs : s.running = false := idle_of_pass_ok hmade
  have hvisits :
      (w.trees.flatMap spots).map (·.block) = (Language.python config).passVisits w s := by
    rw [(reads_rules config).visits_pass hs hmade, List.map_flatMap]
    exact List.flatMap_congr fun top _ => map_spots top
  have hsections : ∀ top ∈ w.trees, Yields (fun _ => True)
      (fun made => (promised indent (spots top)).Sublist (made.toList.flatMap wholeLines))
      ((Language.python config).section? (fun _ => (Language.python config).refuse) top) := by
    intro top htop
    rw [section_eq]
    refine (upholds hindent hgaps top (hw top htop) true).bind fun code hcode =>
      Yields.lift fun made hmade => ?_
    rw [wholeLines_section hmade]
    cases hcode with
    | statements _ hlines => exact hlines
    | expression hnone => rw [hnone]; exact List.nil_sublist _
  obtain ⟨texts, after, hwritten, rfl⟩ := (pass_ok_iff hs).mp hmade
  have hlines : (promised indent (w.trees.flatMap spots)).Sublist (texts.flatMap wholeLines) := by
    refine (written_yields
      (P := fun top texts => (promised indent (spots top)).Sublist (texts.flatMap wholeLines))
      (Q := fun tops texts => (promised indent (tops.flatMap spots)).Sublist
        (texts.flatMap wholeLines)) (List.nil_sublist _) ?_ hsections _ _ _ trivial hwritten).2
    intro top rest made others hmade hothers
    rw [List.flatMap_cons, List.flatMap_append, promised_append]
    exact hmade.append hothers
  have hshown := hlines.trans ((wholeLines_program after texts).trans (Text.wholeLines_sublist _))
  refine ⟨hvisits, hshown, fun p hp text htext => ?_⟩
  refine ⟨Text.quoted text, unbroken_quoted text, literal?_quoted text, hshown.subset ?_⟩
  exact List.mem_filterMap.mpr ⟨p, hp, by rw [Spot.line?, htext]; rfl⟩

/-- A text with both quotes, a backslash and the ends of lines in it. -/
def trap : String := "it's\r\n\"\\n\" "

/-- The other branch of a branch in a branch prints the text. -/
def nestedTrap : List Edit :=
  [.newBlock { type := .str "controls_if", id := .str "a" },
    .newBlock { type := .str "controls_if", id := .str "b" },
    .newBlock { type := .str "text_print", id := .str "c" },
    .newBlock { type := .str "text", id := .str "d", output := .bool true,
                fields := .table [(.str "TEXT", .str trap)] },
    .connect 0 (.str "DO0") .statement 1, .connect 1 (.str "ELSE") .statement 2,
    .connect 2 (.str "TEXT") .value 3]

def trapProgram : String :=
  "if False:\n\tif False:\n\t  pass\n\telse:\n\t\tprint('it\\'s\\r\\n\"\\\\n\" ')\n"

theorem nestedTrap_treelike : Edit.Allowed Edit.Treelike nestedTrap := by decide

theorem nestedTrap_valuesEnd : (Edit.build nestedTrap).All ValuesEnd := by decide

/-- The text stays on its line, two levels in. -/
theorem nestedTrap_stays_whole :
    (∀ c ∈ "\t".toList, Text.isGap c = true) ∧ (Edit.build nestedTrap).Acyclic ∧
      (Edit.build nestedTrap).All ValuesEnd ∧
      ((Language.python { indent := .str "\t" }).pass (Edit.build nestedTrap)
        (Session.new (Language.python { indent := .str "\t" }))).1 = .ok trapProgram ∧
      ∃ literal, Unbroken literal ∧ literal? literal = some trap ∧
        "\t\tprint(".toList ++ literal.toList ++ [')'] ∈ Text.lines trapProgram.toList := by
  have hgaps : ∀ c ∈ "\t".toList, Text.isGap c = true := List.all_eq_true.mp rfl
  have hac := Edit.acyclic_build nestedTrap_treelike
  have hmade : ((Language.python { indent := .str "\t" }).pass (Edit.build nestedTrap)
      (Session.new (Language.python { indent := .str "\t" }))).1 = .ok trapProgram :=
    eq_ok_of_toOption (by decide +kernel)
  have hspots : ((Edit.build nestedTrap).trees.flatMap spots).map (fun p => (p.depth, p.prints?)) =
      [(0, none), (1, none), (2, some trap), (2, none)] := by decide +kernel
  obtain ⟨p, hp, hspot⟩ := List.mem_map.mp (by rw [hspots]; decide :
    (2, some trap) ∈
      ((Edit.build nestedTrap).trees.flatMap spots).map (fun p => (p.depth, p.prints?)))
  obtain ⟨hdepth, hprints⟩ := Prod.mk.inj hspot
  obtain ⟨-, -, hwhole⟩ := printed_texts_stay_whole rfl hgaps hac nestedTrap_valuesEnd hmade
  obtain ⟨literal, hunbroken, hliteral, hline⟩ := hwhole p hp trap hprints
  refine ⟨hgaps, hac, nestedTrap_valuesEnd, hmade, literal, hunbroken, hliteral, ?_⟩
  rw [hdepth] at hline
  simpa [printLine] using hline

end BlockCode.Python
