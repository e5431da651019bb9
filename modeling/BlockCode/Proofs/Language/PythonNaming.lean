-- The identifiers in a program, block by block. Every translated block of a variable, every test
-- for primes and every counted loop is given an identifier, and is written with it. Variables
-- share one exactly when their names differ in case at most; the helper for primes and the
-- counter of every loop have identifiers that nothing else has.
import BlockCode.Proofs.Generation.Translations
import BlockCode.Proofs.Language.PythonCourses
import BlockCode.Proofs.Language.PythonHygiene
import BlockCode.Proofs.Language.PythonStatements
import BlockCode.Proofs.Names.Places

namespace BlockCode

open BlockCode.Language

/-- The rule asked for this by itself and was given this text. -/
def Translation.Given (t : Translation) (r : Request) (text : String) : Prop :=
  ∃ e ∈ t.asked, e.Given r text

/-- What a rule comes to is made of what it was given. -/
theorem Script.Makes.of_served {α : Type} {Given : Request → String → Prop} {Kind : α → Prop}
    {answer : Request → Action String} {b : Block} {inputs : Inputs} {x : Script α} {s : Session}
    {a : α} (hx : x.Makes Given Kind)
    (hgiven : ∀ e ∈ x.served answer (fun _ _ => []) b inputs s, ∀ text,
      e.outcome = .ok text → Given e.request text)
    (h : (Language.perform answer x s).1 = .ok a) : Kind a := by
  induction x generalizing s with
  | done result => exact hx a h
  | ask r next ih =>
    rcases ha : answer r s with ⟨fault | text, after⟩
    · rw [Language.perform_ask ha, hx.1 fault] at h
      cases h
    · unfold Script.served at hgiven
      simp only [ha, List.nil_append] at hgiven
      rw [Language.perform_ask ha] at h
      have htext : Given r text := hgiven _ List.mem_cons_self text rfl
      exact ih (.ok text) (hx.2 text htext)
        (fun e he => hgiven e (List.mem_cons_of_mem _ he)) h

namespace Python

/-! ## What the blocks of a pass get -/

/-- The block of a variable of this name was given an identifier. -/
structure VariableHas (t : Translation) (name : Value) (identifier : String) : Prop where
  block : IsVariable t.block
  field : t.block.field "VAR" = .ok name
  gets : t.Gets identifier

/-- A test for primes was given the identifier of the helper. -/
structure PrimeHas (t : Translation) (identifier : String) : Prop where
  block : t.block.type = .str "math_is_prime"
  gets : t.Gets identifier

/-- A counted loop was given the identifier of its counter. -/
structure LoopHas (t : Translation) (identifier : String) : Prop where
  block : t.block.type = .str "controls_repeat_ext"
  gets : t.Gets identifier

/-- What a rule that asks for an identifier writes with it. -/
inductive WrittenWith (t : Translation) : RuleResult → Prop
  | get {name : Value} {identifier : String} : t.block.type = .str "variables_get" →
    VariableHas t name identifier → WrittenWith t (expression identifier atomic)
  | set {name : Value} {identifier value : String} : t.block.type = .str "variables_set" →
    VariableHas t name identifier →
    WrittenWith t (.code (identifier ++ " = " ++ value ++ "\n"))
  | prime {identifier number : String} : PrimeHas t identifier →
    WrittenWith t (expression (identifier ++ "(" ++ number ++ ")") functionCall)
  | loop {identifier times body : String} : LoopHas t identifier →
    WrittenWith t (.code ("for " ++ identifier ++ " in range(" ++ times ++ "):\n" ++ body))

/-- The types of blocks that are written with an identifier. -/
def namedTypes : List String :=
  ["variables_get", "variables_set", "math_is_prime", "controls_repeat_ext"]

/-- What is promised of the identifiers in a program. -/
structure Hygienic (T : List Translation) : Prop where
  /-- A variable whose name is a text is given an identifier. -/
  variable_named : ∀ t ∈ T, IsVariable t.block → ∀ name, t.block.field "VAR" = .ok name →
    name.IsText → ∃ identifier, VariableHas t name identifier
  helper_named : ∀ t ∈ T, t.block.type = .str "math_is_prime" →
    ∃ identifier, PrimeHas t identifier
  /-- A rule that comes to a result has written the identifier that it was given. -/
  written : ∀ t ∈ T, ∀ type ∈ namedTypes, t.block.type = .str type → ∀ result,
    t.result = .ok result → WrittenWith t result
  /-- Two variables share an identifier when their names are the same but for case. -/
  sharing : ∀ t ∈ T, ∀ u ∈ T, ∀ m n i j, VariableHas t m i → VariableHas u n j →
    (i = j ↔ Names.sameValue m n = .ok true)
  /-- There is one helper. -/
  helper : ∀ t ∈ T, ∀ u ∈ T, ∀ i j, PrimeHas t i → PrimeHas u j → i = j
  helper_ne_variable : ∀ t ∈ T, ∀ u ∈ T, ∀ n i j, PrimeHas t i → VariableHas u n j → i ≠ j
  counter_ne_variable : ∀ t ∈ T, ∀ u ∈ T, ∀ n i j, LoopHas t i → VariableHas u n j → i ≠ j
  counter_ne_helper : ∀ t ∈ T, ∀ u ∈ T, ∀ i j, LoopHas t i → PrimeHas u j → i ≠ j
  /-- No two loops share a counter. -/
  counters : T.Pairwise fun t u => ∀ i j, LoopHas t i → LoopHas u j → i ≠ j

/-! ## What the rules write -/

section Written

variable {Given : Request → String → Prop} {b : Block} {inputs : Inputs}

theorem written_getRule : (getRule b inputs).Makes Given fun result =>
    ∃ identifier, NameSupplied Given b identifier ∧ result = expression identifier atomic :=
  wrote_variableOf.bind fun identifier hname => Script.Makes.pure ⟨identifier, hname, rfl⟩

theorem written_setRule : (setRule b inputs).Makes Given fun result =>
    ∃ identifier value, NameSupplied Given b identifier ∧
      result = .code (identifier ++ " = " ++ value ++ "\n") := by
  refine wrote_variableOf.bind fun identifier hname => ?_
  refine (wrote_valueOr "VALUE" anything "0").bind fun value _ => ?_
  exact Script.Makes.pure ⟨identifier, value, hname, rfl⟩

theorem written_primeRule : (primeRule b inputs).Makes Given fun result =>
    ∃ identifier number, Given primeRequest identifier ∧
      result = expression (identifier ++ "(" ++ number ++ ")") functionCall := by
  refine (Script.Makes.request primeRequest).bind fun identifier hname => ?_
  refine (wrote_valueOr "NUMBER_TO_CHECK" anything "0").bind fun number _ => ?_
  exact Script.Makes.pure ⟨identifier, number, hname, rfl⟩

theorem written_repeatRule : (repeatRule b inputs).Makes Given fun result =>
    ∃ identifier times body, Given counterRequest identifier ∧
      result = .code ("for " ++ identifier ++ " in range(" ++ times ++ "):\n" ++ body) := by
  refine (wrote_valueOr "TIMES" anything "0").bind fun times _ => ?_
  refine (wrote_bodyOr "DO").bind fun body _ => ?_
  refine (Script.Makes.request counterRequest).bind fun identifier hname => ?_
  exact Script.Makes.pure ⟨identifier, times, body, hname, rfl⟩

end Written

section Translations

variable {config : Config} {nested : Workspace → Action String} {t : Translation}

theorem Translation.gets_of_given {r : Request} {text : String} (h : t.Given r text)
    (hr : r.isForName = true) : t.Gets text := by
  obtain ⟨e, he, hrequest, hok⟩ := h
  exact ⟨e, he, by rw [hrequest]; exact hr, hok⟩

theorem made_of_given {b : Block} {inputs : Inputs} {rule : Rule} {s : Session}
    {answer : Request → Action String} {Kind : RuleResult → Prop} {result : RuleResult}
    (hmakes : (rule b inputs).Makes (rule.translate answer b inputs s).Given Kind)
    (h : (rule.translate answer b inputs s).result = .ok result) : Kind result :=
  hmakes.of_served (fun e he _ hok => ⟨e, he, rfl, hok⟩) h

theorem written_of_translates (ht : (Language.python config).Translates nested t) {type : String}
    (htype : type ∈ namedTypes) (hblock : t.block.type = .str type) {result : RuleResult}
    (hresult : t.result = .ok result) : WrittenWith t result := by
  obtain ⟨b, inputs, rule, s, hrule, rfl⟩ := ht
  obtain ⟨name, hb, hof⟩ := ruleOf_of_ruleFor hrule
  obtain rfl : type = name := Value.str_unique hblock hb
  cases hof with
  | get =>
    obtain ⟨identifier, ⟨name, hfield, hgiven⟩, rfl⟩ := made_of_given written_getRule hresult
    exact .get hb ⟨Or.inl hb, hfield, Translation.gets_of_given hgiven rfl⟩
  | set =>
    obtain ⟨identifier, value, ⟨name, hfield, hgiven⟩, rfl⟩ := made_of_given written_setRule hresult
    exact .set hb ⟨Or.inr hb, hfield, Translation.gets_of_given hgiven rfl⟩
  | prime =>
    obtain ⟨identifier, number, hgiven, rfl⟩ := made_of_given written_primeRule hresult
    exact .prime ⟨hb, Translation.gets_of_given hgiven rfl⟩
  | loop =>
    obtain ⟨identifier, times, body, hgiven, rfl⟩ := made_of_given written_repeatRule hresult
    exact .loop ⟨hb, Translation.gets_of_given hgiven rfl⟩
  | _ => exact absurd htype (by decide)

/-- The first thing that is asked for a variable is its identifier. -/
theorem asked_variable (ht : (Language.python config).Translates nested t)
    (hblock : IsVariable t.block) {name : Value} (hfield : t.block.field "VAR" = .ok name) :
    ∃ e ∈ t.asked, e.request = variableRequest name := by
  obtain ⟨b, inputs, rule, s, hrule, rfl⟩ := ht
  have hname : Script.field b "VAR" = .done (.ok name) := congrArg Script.done hfield
  obtain ⟨type, hb, hof⟩ := ruleOf_of_ruleFor hrule
  have htype : type = "variables_get" ∨ type = "variables_set" :=
    hblock.imp (Value.str_unique hb) (Value.str_unique hb)
  have hfirst : ∃ next, rule b inputs = .ask (variableRequest name) next := by
    cases hof with
    | get =>
      unfold getRule variableOf
      rw [hname]
      exact ⟨_, rfl⟩
    | set =>
      unfold setRule variableOf
      rw [hname]
      exact ⟨_, rfl⟩
    | _ => exact absurd htype (by decide)
  obtain ⟨next, hfirst⟩ := hfirst
  unfold Rule.translate
  rw [hfirst]
  exact ⟨_, List.mem_cons_self, rfl⟩

theorem asked_prime (ht : (Language.python config).Translates nested t)
    (hblock : t.block.type = .str "math_is_prime") : ∃ e ∈ t.asked, e.request = primeRequest := by
  obtain ⟨b, inputs, rule, s, hrule, rfl⟩ := ht
  obtain ⟨type, hb, hof⟩ := ruleOf_of_ruleFor hrule
  have htype : type = "math_is_prime" := Value.str_unique hb hblock
  cases hof with
  | prime => exact ⟨_, List.mem_cons_self, rfl⟩
  | _ => exact absurd htype (by decide)

end Translations

/-! ## They are told apart -/

section Apart

variable {config : Config} {nested : Workspace → Action String} {T : List Translation}
  {B : List Block} {E : List Served} {p : PassState} {t : Translation} {identifier : String}

theorem Recorded.of_variable (h : Recorded E p) (hT : (Language.python config).Tallies nested T B E)
    (ht : t ∈ T) {name : Value} (hhas : VariableHas t name identifier) :
    ∃ signs, name.spelling? = some signs ∧
      p.names.known? (Names.variableKey signs) = some identifier := by
  obtain ⟨hblock, hfield, e, he, hgets⟩ := hhas
  have hown := (hT.made t ht).block_of_asked e he
  rw [← hown] at hblock hfield
  exact h.known (hT.mem_asked ht he) ⟨hblock, hfield, hgets⟩

theorem Recorded.of_prime (h : Recorded E p) (hT : (Language.python config).Tallies nested T B E)
    (ht : t ∈ T) (hhas : PrimeHas t identifier) :
    ∃ helper ∈ p.helpers, p.helpers.find? (.str "math_isPrime") = some helper ∧
      helper.identifier = identifier := by
  obtain ⟨hblock, e, he, hgets⟩ := hhas
  have hremembers := h.remembered e (hT.mem_asked ht he)
  rw [← (hT.made t ht).block_of_asked e he] at hblock
  obtain ⟨helper, hfind, hid⟩ :=
    hremembers.defined identifier (given_prime hremembers.asked hgets hblock)
  exact ⟨helper, List.mem_of_find?_eq_some hfind, hfind, hid⟩

theorem Recorded.of_loop (h : Recorded E p) (hT : (Language.python config).Tallies nested T B E)
    (ht : t ∈ T) (hhas : LoopHas t identifier) : (∀ key, p.names.known? key ≠ some identifier) ∧
      ∀ helper ∈ p.helpers, helper.identifier ≠ identifier := by
  obtain ⟨hblock, e, he, hgets⟩ := hhas
  have hremembers := h.remembered e (hT.mem_asked ht he)
  rw [← (hT.made t ht).block_of_asked e he] at hblock
  exact (hremembers.alone identifier (given_counter hremembers.asked hgets hblock)).2

/-- The requests of different loops stand apart in the trail, so their counters differ. -/
theorem Recorded.counters_apart (h : Recorded E p)
    (hT : (Language.python config).Tallies nested T B E) :
    T.Pairwise fun t u => ∀ i j, LoopHas t i → LoopHas u j → i ≠ j := by
  have hasked := (hT.asked.pairwise_iff
    (fun h i j hi hj heq => h j i hj hi heq.symm)).mpr h.counters
  refine (List.pairwise_flatMap.mp hasked).2.imp_of_mem ?_
  rintro t u ht hu hapart i j ⟨hloop, d, hd, hi⟩ ⟨hloop', e, he, hj⟩
  rw [← (hT.made t ht).block_of_asked d hd] at hloop
  rw [← (hT.made u hu).block_of_asked e he] at hloop'
  exact hapart d hd e he i j
    (given_counter (h.remembered d (hT.mem_asked ht hd)).asked hi hloop)
    (given_counter (h.remembered e (hT.mem_asked hu he)).asked hj hloop')

/-- A request that goes unanswered is for a variable whose name is no text. -/
theorem Recorded.gets (h : Recorded E p) (hT : (Language.python config).Tallies nested T B E)
    (ht : t ∈ T) {e : Served} (he : e ∈ t.asked) (hr : e.request.isForName = true)
    (hcloses : e.request.opensInput = false)
    (hname : ∀ name, e.request = variableRequest name → name.IsText) :
    ∃ identifier, t.Gets identifier := by
  obtain ⟨identifier, hok⟩ := (h.remembered e (hT.mem_asked ht he)).answered hcloses hname
  exact ⟨identifier, e, he, hr, hok⟩

/-- What is remembered of all answers tells them apart. -/
theorem Recorded.hygienic (h : Recorded E p)
    (hT : (Language.python config).Tallies nested T B E) : Hygienic T where
  variable_named := by
    intro t ht hblock name hfield htext
    obtain ⟨e, he, hrequest⟩ := asked_variable (hT.made t ht) hblock hfield
    obtain ⟨identifier, hgets⟩ := h.gets hT ht he (by rw [hrequest]; rfl) (by rw [hrequest]; rfl) (by
      intro other hother
      cases hrequest.symm.trans hother
      exact htext)
    exact ⟨identifier, hblock, hfield, hgets⟩
  helper_named := by
    intro t ht hblock
    obtain ⟨e, he, hrequest⟩ := asked_prime (hT.made t ht) hblock
    obtain ⟨identifier, hgets⟩ := h.gets hT ht he (by rw [hrequest]; rfl) (by rw [hrequest]; rfl) (by
      intro name hother
      exact absurd (hother.symm.trans hrequest) (variableRequest_ne_prime name))
    exact ⟨identifier, hblock, hgets⟩
  written := fun t ht type htype hblock result hresult =>
    written_of_translates (hT.made t ht) htype hblock hresult
  sharing := by
    intro t ht u hu m n i j hi hj
    obtain ⟨signs, hm, hknown⟩ := h.of_variable hT ht hi
    obtain ⟨signs', hn, hknown'⟩ := h.of_variable hT hu hj
    rw [Names.sameValue_iff hm hn, ← Names.variableKey_inj]
    constructor
    · rintro rfl
      exact h.orderly.clean.memo_apart _ _ _ hknown hknown'
    · intro heq
      rw [heq, hknown'] at hknown
      exact (Option.some.inj hknown).symm
  helper := by
    intro t ht u hu i j hi hj
    obtain ⟨first, -, hfirst, rfl⟩ := h.of_prime hT ht hi
    obtain ⟨second, -, hsecond, rfl⟩ := h.of_prime hT hu hj
    rw [hfirst] at hsecond
    rw [Option.some.inj hsecond]
  helper_ne_variable := by
    rintro t ht u hu n i j hi hj rfl
    obtain ⟨helper, hmem, -, rfl⟩ := h.of_prime hT ht hi
    obtain ⟨signs, -, hknown⟩ := h.of_variable hT hu hj
    exact Names.variableKey_ne_primeKey signs (h.helpers helper hmem _ hknown)
  counter_ne_variable := by
    rintro t ht u hu n i j hi hj rfl
    obtain ⟨signs, -, hknown⟩ := h.of_variable hT hu hj
    exact (h.of_loop hT ht hi).1 _ hknown
  counter_ne_helper := by
    rintro t ht u hu i j hi hj rfl
    obtain ⟨helper, hmem, -, hid⟩ := h.of_prime hT hu hj
    exact (h.of_loop hT ht hi).2 helper hmem hid
  counters := h.counters_apart hT

/-- In every pass of every session, whatever its settings and its workspace, each block that
needs an identifier is given one and is written with it, and the identifiers are told apart. A
pass that succeeds has written every block that it handed to a rule. -/
theorem names_apart_in_every_pass {s : Session} (h : Lived (Language.python config) s)
    (w : Workspace) :
    let T := (Language.python config).passTranslations w s
    T.map (·.block) = (Language.python config).passVisits w s ∧ Hygienic T ∧
      ∀ program, ((Language.python config).pass w s).1 = .ok program →
        ∀ t ∈ T, ∃ result, t.result = .ok result := by
  have hT := (Language.python config).tallies_pass w s
  refine ⟨hT.blocks, (recorded_pass h w).hygienic hT, fun program hpass t ht => ?_⟩
  have hfinished := (plain config).strict.finished_pass hpass t ht
  rcases hresult : t.result with fault | result
  · rw [hresult] at hfinished
    cases hfinished
  · exact ⟨result, rfl⟩

end Apart

/-- Two names that differ in case, and a loop. -/
def totals : Workspace where
  nodes :=
    [{ block := { handle := 0, type := .str "variables_set",
                  fields := .table [(.str "VAR", .str "Total")] }, next := some 1 },
      { block := { handle := 1, type := .str "variables_set",
                   fields := .table [(.str "VAR", .str "total")] }, next := some 2, parent := some 0 },
      { block := { handle := 2, type := .str "controls_repeat_ext" }, parent := some 1 }]
  members := [0, 1, 2]

/-- All three blocks are written, and with identifiers that are told apart. -/
theorem totals_apart :
    (((Language.python {}).passTranslations totals (Session.new (Language.python {}))).take 3).map
        (fun t => (t.block.handle, t.result.isOk)) = [(0, true), (1, true), (2, true)] ∧
      Hygienic ((Language.python {}).passTranslations totals (Session.new (Language.python {}))) := by
  refine ⟨by decide +kernel, ?_⟩
  exact (names_apart_in_every_pass Lived.new totals).2.1

end Python
end BlockCode
