-- The rules of the language of Python programs are plain: what they ask for does not depend
-- on what they are told, and everything that they are told stands in their code.
import BlockCode.Proofs.Generation.Course
import BlockCode.Proofs.Language.PythonRequests

namespace BlockCode

open BlockCode.Text (Within Solid)

/-! ## What rules are made of -/

namespace Script

variable {α β : Type} {told : List String}

theorem Plain.less {x : Script RuleResult} {less : List String} (hx : x.Plain told)
    (h : ∀ text ∈ less, ∃ more ∈ told, Within text more) : x.Plain less := by
  induction x generalizing told less with
  | done result =>
    cases result with
    | error fault => exact trivial
    | ok result =>
      intro text htext
      obtain ⟨more, hmore, hwithin⟩ := h text htext
      exact hwithin.trans (hx more hmore)
  | ask r next ih =>
    refine ⟨hx.1, fun text => ⟨(hx.2 text).1, ih (.ok text) (hx.2 text).2 ?_⟩⟩
    intro other hother
    rcases List.mem_cons.mp hother with rfl | hother
    · exact ⟨other, List.mem_cons_self, Within.refl other⟩
    · obtain ⟨more, hmore, hwithin⟩ := h other hother
      exact ⟨more, List.mem_cons_of_mem _ hmore, hwithin⟩

theorem plain_done {result : Except Fault α} {f : α → Script RuleResult}
    (h : ∀ a, (f a).Plain told) : (done result >>= f).Plain told := by
  cases result with
  | error fault => exact trivial
  | ok a => exact h a

/-- One request, after which the script goes on in one way. -/
theorem plain_request {r : Request} {f : String → Script RuleResult}
    (hcourse : ∀ text other, (f text).course = (f other).course)
    (h : ∀ text, (f text).Plain (text :: told)) : (request r >>= f).Plain told :=
  ⟨fun _ => rfl, fun text => ⟨hcourse text "", h text⟩⟩

theorem plain_requestOr {r : Request} (missing : String) {f : String → Script RuleResult}
    (hcourse : ∀ text other, (f text).course = (f other).course)
    (h : ∀ text, (f text).Plain (text :: told)) :
    ((do
      let code ← request r
      return if code == "" then missing else code : Script String) >>= f).Plain told := by
  rw [bind_assoc]
  refine plain_request (fun text other => hcourse _ _) fun text => ?_
  show (f (if text == "" then missing else text)).Plain (text :: told)
  split
  · rename_i hempty
    rw [beq_iff_eq.mp hempty]
    refine (h missing).less fun other hother => ?_
    rcases List.mem_cons.mp hother with rfl | hother
    · exact ⟨missing, List.mem_cons_self, Within.empty missing⟩
    · exact ⟨other, List.mem_cons_of_mem _ hother, Within.refl other⟩
  · exact h text

end Script

namespace Python

open Script

variable {told : List String} {b : Block} {f : String → Script RuleResult}

theorem plain_valueOr (input : String) (order : Int) (missing : String)
    (hcourse : ∀ text other, (f text).course = (f other).course)
    (h : ∀ text, (f text).Plain (text :: told)) :
    (valueOr input order missing >>= f).Plain told :=
  plain_requestOr missing hcourse h

theorem plain_bodyOr (input : String) (hcourse : ∀ text other, (f text).course = (f other).course)
    (h : ∀ text, (f text).Plain (text :: told)) : (bodyOr input >>= f).Plain told :=
  plain_requestOr "  pass\n" hcourse h

theorem plain_variableOf (hcourse : ∀ text other, (f text).course = (f other).course)
    (h : ∀ text, (f text).Plain (text :: told)) : (variableOf b >>= f).Plain told := by
  unfold variableOf
  rw [bind_assoc]
  exact plain_done fun name => plain_request hcourse h

/-! ## The rules -/

theorem plain_textRule (inputs : Inputs) : (textRule b inputs).Plain [] :=
  plain_done fun _ => plain_done fun _ => List.forall_mem_nil _

theorem plain_numberRule (inputs : Inputs) : (numberRule b inputs).Plain [] :=
  plain_done fun _ => plain_done fun _ => List.forall_mem_nil _

theorem plain_booleanRule (inputs : Inputs) : (booleanRule b inputs).Plain [] :=
  plain_done fun _ => List.forall_mem_nil _

theorem plain_arithmeticRule (inputs : Inputs) : (arithmeticRule b inputs).Plain [] := by
  refine plain_done fun v => plain_done ?_
  rintro ⟨sign, order⟩
  refine plain_valueOr "A" order "0" (fun _ _ => rfl) fun left => ?_
  refine plain_valueOr "B" order "0" (fun _ _ => rfl) fun right => ?_
  refine List.forall_mem_cons.mpr ⟨?_, List.forall_mem_singleton.mpr ?_⟩
  · exact (Within.refl right).behind _
  · exact ((Within.refl left).before sign).before right

theorem plain_compareRule (inputs : Inputs) : (compareRule b inputs).Plain [] := by
  refine plain_done fun v => plain_done fun sign => ?_
  refine plain_valueOr "A" relational "0" (fun _ _ => rfl) fun left => ?_
  refine plain_valueOr "B" relational "0" (fun _ _ => rfl) fun right => ?_
  refine List.forall_mem_cons.mpr ⟨?_, List.forall_mem_singleton.mpr ?_⟩
  · exact (Within.refl right).behind _
  · exact ((((Within.refl left).before " ").before sign).before " ").before right

theorem plain_negateRule (inputs : Inputs) : (negateRule b inputs).Plain [] := by
  refine plain_valueOr "BOOL" logicalNot "True" (fun _ _ => rfl) fun argument => ?_
  exact List.forall_mem_singleton.mpr ((Within.refl argument).behind _)

theorem plain_primeRule (inputs : Inputs) : (primeRule b inputs).Plain [] := by
  refine plain_request (fun _ _ => rfl) fun name => ?_
  refine plain_valueOr "NUMBER_TO_CHECK" anything "0" (fun _ _ => rfl) fun number => ?_
  refine List.forall_mem_cons.mpr ⟨?_, List.forall_mem_singleton.mpr ?_⟩
  · exact ((Within.refl number).behind _).before ")"
  · exact (((Within.refl name).before "(").before number).before ")"

theorem plain_getRule (inputs : Inputs) : (getRule b inputs).Plain [] :=
  plain_variableOf (fun _ _ => rfl) fun name => List.forall_mem_singleton.mpr (Within.refl name)

theorem plain_printRule (inputs : Inputs) : (printRule b inputs).Plain [] := by
  refine plain_valueOr "TEXT" anything "''" (fun _ _ => rfl) fun argument => ?_
  exact List.forall_mem_singleton.mpr (((Within.refl argument).behind _).before _)

theorem plain_setRule (inputs : Inputs) : (setRule b inputs).Plain [] := by
  refine plain_variableOf (fun _ _ => rfl) fun name => ?_
  refine plain_valueOr "VALUE" anything "0" (fun _ _ => rfl) fun value => ?_
  refine List.forall_mem_cons.mpr ⟨?_, List.forall_mem_singleton.mpr ?_⟩
  · exact ((Within.refl value).behind _).before _
  · exact (((Within.refl name).before " = ").before value).before _

theorem plain_ifRule (inputs : Inputs) : (ifRule b inputs).Plain [] := by
  unfold ifRule
  rcases hother : inputs.has (.str "ELSE") with _ | _
  · refine plain_valueOr "IF0" anything "False" (fun _ _ => rfl) fun condition => ?_
    refine plain_bodyOr "DO0" (fun _ _ => rfl) fun body => ?_
    refine List.forall_mem_cons.mpr ⟨?_, List.forall_mem_singleton.mpr ?_⟩
    · exact (Within.refl body).behind _
    · exact (((Within.refl condition).behind "if ").before _).before body
  · refine plain_valueOr "IF0" anything "False" (fun _ _ => rfl) fun condition => ?_
    refine plain_bodyOr "DO0" (fun _ _ => rfl) fun body => ?_
    refine plain_bodyOr "ELSE" (fun _ _ => rfl) fun other => ?_
    refine List.forall_mem_cons.mpr
      ⟨?_, List.forall_mem_cons.mpr ⟨?_, List.forall_mem_singleton.mpr ?_⟩⟩
    · exact (Within.refl other).behind _
    · exact (((Within.refl body).behind _).before _).before other
    · exact (((((Within.refl condition).behind "if ").before _).before body).before _).before other

theorem plain_repeatRule (inputs : Inputs) : (repeatRule b inputs).Plain [] := by
  refine plain_valueOr "TIMES" anything "0" (fun _ _ => rfl) fun times => ?_
  refine plain_bodyOr "DO" (fun _ _ => rfl) fun body => ?_
  refine plain_request (fun _ _ => rfl) fun counter => ?_
  refine List.forall_mem_cons.mpr
    ⟨?_, List.forall_mem_cons.mpr ⟨?_, List.forall_mem_singleton.mpr ?_⟩⟩
  · exact (((((Within.refl counter).behind "for ").before _).before times).before _).before body
  · exact (Within.refl body).behind _
  · exact (((Within.refl times).behind _).before _).before body

theorem plain (config : Config) : (Language.python config).Plain where
  rules := by
    intro b rule hrule inputs
    obtain ⟨name, -, hof⟩ := ruleOf_of_ruleFor hrule
    cases hof with
    | text => exact plain_textRule inputs
    | print => exact plain_printRule inputs
    | number => exact plain_numberRule inputs
    | arithmetic => exact plain_arithmeticRule inputs
    | prime => exact plain_primeRule inputs
    | boolean => exact plain_booleanRule inputs
    | compare => exact plain_compareRule inputs
    | negate => exact plain_negateRule inputs
    | get => exact plain_getRule inputs
    | set => exact plain_setRule inputs
    | branch => exact plain_ifRule inputs
    | loop => exact plain_repeatRule inputs
  standing := by
    intro line text word hstanding _ hwithin
    cases hstanding
    exact hwithin.before "\n"

end Python
end BlockCode
