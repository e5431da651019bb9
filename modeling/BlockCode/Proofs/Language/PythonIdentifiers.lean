-- Which identifiers of variables are legal. Every identifier comes from a name that differs
-- from the name of its variable in case at most, so what is wrong with it can be told from
-- that name: a number in front that is no digit, or a keyword that is not reserved.
import BlockCode.Proofs.Language.PythonHygiene
import BlockCode.Proofs.Names.Legal

namespace BlockCode

open BlockCode.Text (lowerSpelling)

namespace Names

/-! ## Where the identifiers of variables come from -/

/-- The identifier of a variable is made from a name that is the same for a person. -/
def Traceable (names : Names) : Prop :=
  ∀ signs identifier, names.known? (variableKey signs) = some identifier →
    ∃ (made : Spelling) (k : Nat), lowerSpelling made = lowerSpelling signs ∧
      identifier = candidate (plainIdentifier (made.shown '_')) k

variable {names : Names}

theorem traceable_empty : Traceable {} := by
  intro signs identifier h
  cases h

theorem Traceable.own (h : names.Traceable) {name category : Value} {g : Granted}
    (hg : names.ownFor name category = .ok g) : g.names.Traceable := by
  obtain ⟨base, -, -, hnames⟩ := ownFor_ok hg
  rw [hnames]
  exact h

theorem Traceable.get (h : names.Traceable) {name category : Value} {caseSensitive : Bool}
    {g : Granted} (hg : names.getFor name category caseSensitive = .ok g)
    (hkey : ∀ signs, keyFor name category caseSensitive = .ok (variableKey signs) →
      ∃ made, name.spelling? = some made ∧ lowerSpelling made = lowerSpelling signs) :
    g.names.Traceable := by
  obtain ⟨key, hk, ⟨-, hnames⟩ | ⟨-, base, hbase, hid, hnames⟩⟩ := getFor_ok hg
  · rw [hnames]
    exact h
  · intro signs identifier hknown
    rw [hnames, known?_keep] at hknown
    split at hknown
    · rename_i hplace
      cases hknown
      rw [← hplace] at hk
      obtain ⟨made, hmade, hsame⟩ := hkey signs hk
      rw [plainFor_text hmade] at hbase
      cases hbase
      obtain ⟨k, heq, -, -⟩ := fresh_spec names.inUse (plainIdentifier (made.shown '_'))
      exact ⟨made, k, hsame, hid.trans heq⟩
    · exact h signs identifier hknown

/-- The identifier of a variable is put where its own name has it. -/
theorem Traceable.variable (h : names.Traceable) {name : Value} {g : Granted}
    (hg : names.getFor name (.str "variable") false = .ok g) : g.names.Traceable := by
  refine h.get hg fun signs hplace => ?_
  obtain ⟨made, hmade, hsame⟩ := Python.keyFor_variable hplace
  exact ⟨made, hmade, (variableKey_inj made signs).mp hsame.symm⟩

/-- The identifier of the helper is put where no variable has one. -/
theorem Traceable.helper (h : names.Traceable) {stable : Bool} {g : Granted}
    (hg : Helpers.granted names (.str "math_isPrime") stable = .ok g) : g.names.Traceable := by
  cases stable with
  | false => exact h.own hg
  | true =>
    refine h.get hg fun signs hplace => ?_
    have hprime : Except.ok primeKey = (.ok (variableKey signs) : Except Fault Spelling) := hplace
    exact absurd (Except.ok.inj hprime).symm (variableKey_ne_primeKey signs)

end Names

namespace Python

open Names (variableKey)

variable {config : Config} {s : Session}

theorem keeps_traceable (config : Config) :
    Keeps (Language.python config) (fun _ => (Language.python config).refuse) Asked
      fun _ s => s.pass.names.Traceable where
  rules := fun b rule hrule inputs => asks_of_ruleFor b hrule inputs
  counted := fun _ _ h => h
  told := fun _ _ _ _ h => h
  named := by
    intro E b inputs r s outcome after hasked hr ha h
    cases hasked with
    | value input order => cases hr
    | statements input => cases hr
    | identifier hb hname =>
      rcases Language.grant_cases ha with ⟨fault, -, -, rfl⟩ | ⟨g, hg, -, rfl⟩
      · exact h
      · exact h.variable hg
    | prime hb =>
      rcases Language.helper_cases ha with ⟨-, hnames, -⟩ | ⟨-, g, hg, hnames, -⟩
      · rw [hnames]
        exact h
      · rw [hnames]
        exact h.helper hg
    | counter hb =>
      have hgrant : Session.ownIdentifier (.str "count") (.str "variable") s = (outcome, after) := ha
      rw [Session.ownIdentifier_apply] at hgrant
      rcases Language.grant_cases hgrant with ⟨fault, -, -, rfl⟩ | ⟨g, hg, -, rfl⟩
      · exact h
      · exact h.own hg
  opened := fun _ _ _ _ _ _ _ _ _ _ _ _ h => h

theorem traceable_opened (w : Workspace)
    (h : config.stableNames.truth = true → s.pass.names.Traceable) :
    ((Language.python config).opened w s).pass.names.Traceable := by
  show (Session.begun (Language.python config) s).names.Traceable
  unfold Session.begun
  split
  · rename_i hstable
    exact h hstable
  · exact Names.traceable_empty

theorem traceable (h : Lived (Language.python config) s) :
    config.stableNames.truth = true → s.pass.names.Traceable := by
  induction h with
  | new => exact fun _ => Names.traceable_empty
  | pass w hs ih =>
    exact fun _ => (keeps_traceable config).pass w _ hs.not_running (traceable_opened w ih)
  | reserve words _ ih => cases words <;> exact ih
  | aside _ hpassing _ _ _ =>
    intro hstable
    exact absurd hstable (by rw [show config.stableNames.truth = false from hpassing]; decide)

/-! ## What is illegal about an identifier -/

/-- The keywords that are not among the reserved words. -/
def forgotten : List String := ["async", "await"]

theorem keyword_reserved :
    ∀ word ∈ keywords, word ∈ reservedWords ↔ word ∉ forgotten := by
  decide

/-- What can be seen from the name of a variable of how legal its identifier is. -/
structure Appraisal (e : Served) (signs : Spelling) (identifier : String) : Prop where
  /-- An identifier is legal but for a number in front and the forgotten keywords. -/
  legal_iff : Legal identifier ↔
    beginsWithNumber (signs.shown '_') = false ∧ identifier ∉ forgotten
  /-- Only a name that differs from a forgotten keyword in case at most becomes one. -/
  same : identifier ∈ forgotten → lowerSpelling identifier = lowerSpelling signs
  /-- It does when nobody has it yet. -/
  kept : ∀ word ∈ forgotten, signs = word →
    e.before.pass.names.known? (variableKey signs) = none →
    word ∉ e.before.pass.names.inUse → identifier = word

theorem not_keyword_iff {identifier : String} (h : identifier ∉ reservedWords) :
    identifier ∉ keywords ↔ identifier ∉ forgotten := by
  constructor
  · intro hkeyword hforgotten
    have hall : ∀ word ∈ forgotten, word ∈ keywords := by decide
    exact hkeyword (hall identifier hforgotten)
  · intro hforgotten hkeyword
    exact h ((keyword_reserved identifier hkeyword).mpr hforgotten)

theorem eq_of_forgotten {made : Spelling} {word : String} {k : Nat} (hword : word ∈ forgotten)
    (h : candidate (plainIdentifier (made.shown '_')) k = word) : made = word := by
  have hplain : ∀ word ∈ forgotten, word.toList.getLast?.all (!·.isDigit) = true ∧
      word.toList.head? ≠ some 'm' ∧ '_' ∉ word.toList ∧ word ≠ "unnamed" := by
    decide
  obtain ⟨hlast, hfirst, hunder, hnone⟩ := hplain word hword
  have hdigit : ∀ c ∈ word.toList.getLast?, c.isDigit = false := by
    simpa [Option.all_eq_true] using hlast
  have hshown : made.shown '_' = word :=
    eq_of_plainIdentifier hfirst hunder hnone (eq_of_candidate hdigit h)
  exact Spelling.eq_ofText_of_shown hshown hunder

theorem plainIdentifier_forgotten : ∀ word ∈ forgotten, plainIdentifier word = word := by
  decide +kernel

/-- In every pass of every session the identifier of a variable is legal, except that a
number which is no digit stays in front, and that two keywords are not reserved. -/
theorem identifiers_judged (h : Lived (Language.python config) s) (w : Workspace) {e : Served}
    (he : e ∈ (Language.python config).passTrail w s) {name : Value} {identifier : String}
    (hgets : VariableGets e name identifier) :
    ∃ signs, name.spelling? = some signs ∧ Appraisal e signs identifier := by
  have hrecorded := recorded_pass h w
  have htraceable := (keeps_traceable config).pass w s h.not_running
    (traceable_opened w (traceable h))
  obtain ⟨signs, hname, hknown⟩ := hrecorded.known he hgets
  obtain ⟨made, k, hsame, hid⟩ := htraceable signs identifier hknown
  have hclean := hrecorded.orderly.clean
  have htaken := hclean.memo_taken _ _ hknown
  have hbegins : beginsWithNumber identifier = beginsWithNumber (signs.shown '_') := by
    rw [hid, beginsWithNumber_candidate (shaped_plainIdentifier _).ne_empty,
      beginsWithNumber_plainIdentifier, beginsWithNumber_of_same hsame]
  refine ⟨signs, hname, ?_, ?_, ?_⟩
  · rw [(hclean.shaped identifier htaken).legal_iff, hbegins,
      not_keyword_iff (hclean.unreserved identifier htaken)]
  · intro hforgotten
    rw [← eq_of_forgotten hforgotten hid.symm]
    exact hsame
  · rintro word hforgotten rfl hnone hfree
    have hasked := (hrecorded.remembered e he).asked
    obtain ⟨hr, hok⟩ := hgets.given hasked
    have hanswer := (h.answered w e he).answer
    rw [hr, hok] at hanswer
    rcases Language.grant_cases hanswer with ⟨fault, -, hfault, -⟩ | ⟨g, hg, hgiven, -⟩
    · cases hfault
    · cases hgiven
      obtain ⟨key, hkey, ⟨hheld, -⟩ | ⟨-, base, hbase, hfresh, -⟩⟩ := Names.getFor_ok hg
      · rw [Names.keyFor_text hname rfl] at hkey
        cases hkey
        exact absurd (hnone.symm.trans hheld) (by simp)
      · rw [Names.plainFor_text hname, Spelling.shown_ofText,
          plainIdentifier_forgotten word hforgotten] at hbase
        cases hbase
        rw [hfresh]
        exact fresh_eq_candidate (k := 0) hfree fun i hi => absurd hi (Nat.not_lt_zero i)

/-- A program that only names a variable. -/
def onlyVariable (name : String) : Workspace where
  nodes :=
    [{ block := { type := .str "variables_get", output := .bool true,
                  fields := .table [(.str "VAR", .str name)] } }]
  members := [0]

/-- What nobody gets in the first pass. -/
def firstInUse : List String :=
  (Session.begun (Language.python {}) (Session.new (Language.python {}))).names.inUse

theorem fresh_half : fresh firstInUse (plainIdentifier "½") = "½" := by
  have hplain : plainIdentifier "½" = "½" := by decide +kernel
  rw [hplain]
  exact fresh_eq_candidate (k := 0) (by decide +kernel) fun i hi => absurd hi (Nat.not_lt_zero i)

theorem fresh_async : fresh firstInUse (plainIdentifier "async") = "async" := by
  rw [plainIdentifier_forgotten "async" (by decide)]
  exact fresh_eq_candidate (k := 0) (by decide +kernel) fun i hi => absurd hi (Nat.not_lt_zero i)

theorem half_given : ∃ e ∈ (Language.python {}).passTrail (onlyVariable "½")
    (Session.new (Language.python {})), VariableGets e (.str "½") "½" := by
  have hgets : ∃ e ∈ (Language.python {}).passTrail (onlyVariable "½")
      (Session.new (Language.python {})),
      VariableGets e (.str "½") (fresh firstInUse (plainIdentifier "½")) :=
    ⟨_, List.mem_cons_self, .inl rfl, rfl, rfl, rfl⟩
  rwa [fresh_half] at hgets

theorem async_given : ∃ e ∈ (Language.python {}).passTrail (onlyVariable "async")
    (Session.new (Language.python {})), VariableGets e (.str "async") "async" := by
  have hgets : ∃ e ∈ (Language.python {}).passTrail (onlyVariable "async")
      (Session.new (Language.python {})),
      VariableGets e (.str "async") (fresh firstInUse (plainIdentifier "async")) :=
    ⟨_, List.mem_cons_self, .inl rfl, rfl, rfl, rfl⟩
  rwa [fresh_async] at hgets

/-- The identifier that a half is given is judged by the half. -/
theorem half_judged : ∃ e ∈ (Language.python {}).passTrail (onlyVariable "½")
    (Session.new (Language.python {})), VariableGets e (.str "½") "½" ∧
      ∃ signs, (Value.str "½").spelling? = some signs ∧ Appraisal e signs "½" := by
  obtain ⟨e, he, hgets⟩ := half_given
  exact ⟨e, he, hgets, identifiers_judged Lived.new (onlyVariable "½") he hgets⟩

/-- A fraction and a keyword are given as they were typed, and neither is legal. -/
theorem half_and_async_illegal :
    (∃ e ∈ (Language.python {}).passTrail (onlyVariable "½") (Session.new (Language.python {})),
        VariableGets e (.str "½") "½") ∧ ¬ Legal "½" ∧
      (∃ e ∈ (Language.python {}).passTrail (onlyVariable "async")
        (Session.new (Language.python {})), VariableGets e (.str "async") "async") ∧
      ¬ Legal "async" := by
  refine ⟨half_given, ?_, async_given, ?_⟩
  · rintro ⟨hfirst, -, -⟩
    revert hfirst
    decide +kernel
  · rintro ⟨-, -, hkeyword⟩
    revert hkeyword
    decide

end Python
end BlockCode
