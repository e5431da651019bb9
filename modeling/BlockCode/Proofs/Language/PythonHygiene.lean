-- The identifiers in a program are told apart. Variables share one exactly when their
-- names differ in case at most; the helper for primes and the counter of every loop
-- have identifiers that nothing else has. It is so in every pass of every session, in
-- whatever order the blocks are met.
import BlockCode.Proofs.Generation.Identifiers
import BlockCode.Proofs.Language.PythonRequests

namespace BlockCode

/-- The request was answered with this text. -/
def Served.Given (e : Served) (r : Request) (text : String) : Prop :=
  e.request = r ∧ e.outcome = .ok text

/-! ## The places of identifiers -/

namespace Names

open Text (lowerSpelling)

/-- Where the identifier of a variable is kept. -/
def variableKey (name : Spelling) : Spelling := place name "variable" false

/-- Where the identifier of the helper for primes is kept, if it is kept at all. -/
def primeKey : Spelling := Helpers.home "math_isPrime"

theorem variableKey_inj (m n : Spelling) :
    variableKey m = variableKey n ↔ lowerSpelling m = lowerSpelling n := List.append_left_inj _

theorem variableKey_ne_primeKey (name : Spelling) : variableKey name ≠ primeKey := by
  intro h
  have hlast : (variableKey name).getLast? = primeKey.getLast? := congrArg List.getLast? h
  have hvariable : (variableKey name).getLast? = some (.char 'e') :=
    List.getLast?_append_of_ne_nil _ (List.cons_ne_nil _ _)
  have hprime : primeKey.getLast? = some (.char 'n') := by decide
  rw [hvariable, hprime] at hlast
  cases hlast

theorem getFor_variable (names : Names) {name : Value} (h : name.IsText) :
    ∃ g, names.getFor name (.str "variable") false = .ok g := by
  obtain ⟨signs, hname⟩ := h
  exact getFor_text names hname (spell_text rfl) false

end Names

namespace Python

/-! ## What a pass remembers -/

/-- What the pass still knows of an answer that was given. -/
structure Remembers (p : PassState) (e : Served) : Prop where
  asked : Asked e.block e.request
  /-- Only the name of a variable can be no text, and nothing else goes wrong. -/
  answered : e.request.opensInput = false →
    (∀ name, e.request = variableRequest name → name.IsText) → ∃ text, e.outcome = .ok text
  /-- A variable has its identifier in the place of its name. -/
  named : ∀ name text, e.Given (variableRequest name) text →
    ∃ signs, name.spelling? = some signs ∧ p.names.known? (Names.variableKey signs) = some text
  /-- The helper is there under its identifier. -/
  defined : ∀ text, e.Given primeRequest text →
    ∃ helper, p.helpers.find? (.str "math_isPrime") = some helper ∧ helper.identifier = text
  /-- The counter of a loop has no place, and no helper has its identifier. -/
  alone : ∀ text, e.Given counterRequest text → text ∈ p.names.taken ∧
    (∀ key, p.names.known? key ≠ some text) ∧ ∀ helper ∈ p.helpers, helper.identifier ≠ text

structure Recorded (E : List Served) (p : PassState) : Prop where
  orderly : p.Orderly reservedWords
  /-- The identifier of a helper is in no place but its own. -/
  helpers : ∀ helper ∈ p.helpers, ∀ key, p.names.known? key = some helper.identifier →
    key = Names.primeKey
  remembered : ∀ e ∈ E, Remembers p e
  counters : E.Pairwise fun d e => ∀ i j, d.Given counterRequest i → e.Given counterRequest j → i ≠ j

variable {E : List Served} {p : PassState}

/-! ## Names and helpers grow -/

theorem Recorded.with_names (h : Recorded E p) {later : Names}
    (horderly : { p with names := later }.Orderly reservedWords)
    (hext : p.names.Extends later) : Recorded E { p with names := later } where
  orderly := horderly
  helpers := by
    intro helper hmem key hkey
    exact h.helpers helper hmem key (hext.places key _ (h.orderly.helpers helper hmem) hkey)
  remembered := by
    intro e he
    obtain ⟨hasked, hanswered, hnamed, hdefined, hcounter⟩ := h.remembered e he
    refine ⟨hasked, hanswered, ?_, hdefined, ?_⟩
    · intro name text hgiven
      obtain ⟨s, hs, hknown⟩ := hnamed name text hgiven
      exact ⟨s, hs, hext.known _ _ hknown⟩
    · intro text hgiven
      obtain ⟨htaken, hnowhere, hother⟩ := hcounter text hgiven
      refine ⟨hext.taken htaken, ?_, hother⟩
      intro key hkey
      exact hnowhere key (hext.places key text htaken hkey)
  counters := h.counters

/-- The first request for the helper puts it into the empty place. -/
theorem Recorded.with_helper (h : Recorded E p) {helper : Helper}
    (horderly : { p with helpers := p.helpers ++ [helper] }.Orderly reservedWords)
    (hnone : p.helpers.find? (.str "math_isPrime") = none)
    (hplace : ∀ key, p.names.known? key = some helper.identifier → key = Names.primeKey)
    (hcounter : ∀ e ∈ E, ∀ text, e.Given counterRequest text → helper.identifier ≠ text) :
    Recorded E { p with helpers := p.helpers ++ [helper] } where
  orderly := horderly
  helpers := by
    intro other hmem key hkey
    rcases List.mem_append.mp hmem with hmem | hmem
    · exact h.helpers other hmem key hkey
    · rw [List.mem_singleton.mp hmem] at hkey
      exact hplace key hkey
  remembered := by
    intro e he
    obtain ⟨hasked, hanswered, hnamed, hdefined, hold⟩ := h.remembered e he
    refine ⟨hasked, hanswered, hnamed, ?_, ?_⟩
    · intro text hgiven
      obtain ⟨first, hfind, -⟩ := hdefined text hgiven
      rw [hnone] at hfind
      cases hfind
    · intro text hgiven
      obtain ⟨htaken, hnowhere, hother⟩ := hold text hgiven
      refine ⟨htaken, hnowhere, ?_⟩
      intro other hmem
      rcases List.mem_append.mp hmem with hmem | hmem
      · exact hother other hmem
      · rw [List.mem_singleton.mp hmem]
        exact hcounter e he text hgiven
  counters := h.counters

theorem Recorded.of_eq {q : PassState} (h : Recorded E p) (hnames : q.names = p.names)
    (hhelpers : q.helpers = p.helpers) : Recorded E q := by
  rcases p with ⟨helpers, names, handled⟩
  rcases q with ⟨helpers', names', handled'⟩
  cases hnames
  cases hhelpers
  refine ⟨⟨h.orderly.clean, h.orderly.bars, h.orderly.helpers⟩, h.helpers, ?_, h.counters⟩
  intro e he
  obtain ⟨hasked, hanswered, hnamed, hdefined, halone⟩ := h.remembered e he
  exact ⟨hasked, hanswered, hnamed, hdefined, halone⟩

theorem Recorded.append (h : Recorded E p) {e : Served} (he : Remembers p e)
    (hnew : ∀ text, e.Given counterRequest text →
      ∀ d ∈ E, ¬ d.Given counterRequest text) : Recorded (E ++ [e]) p where
  orderly := h.orderly
  helpers := h.helpers
  remembered := by
    intro d hd
    rcases List.mem_append.mp hd with hd | hd
    · exact h.remembered d hd
    · rw [List.mem_singleton.mp hd]
      exact he
  counters := by
    refine List.pairwise_append.mpr ⟨h.counters, List.pairwise_singleton _ _, ?_⟩
    intro d hd e' he' i j hi hj heq
    rw [List.mem_singleton.mp he'] at hj
    rw [heq] at hi
    exact hnew j hj d hd hi

/-- A variable without a text for its name gets nothing, and there is nothing to remember. -/
theorem Recorded.append_failed (h : Recorded E p) {e : Served} (hasked : Asked e.block e.request)
    {name : Value} (hr : e.request = variableRequest name) (hname : ¬ name.IsText)
    {fault : Fault} (hfault : e.outcome = .error fault) : Recorded (E ++ [e]) p := by
  have hnot : ∀ r text, ¬ e.Given r text := by
    rintro r text ⟨-, ho⟩
    rw [hfault] at ho
    cases ho
  refine h.append ⟨hasked, ?_, ?_, ?_, ?_⟩ ?_
  · exact fun _ htext => absurd (htext name hr) hname
  · intro name text hgiven
    exact absurd hgiven (hnot _ text)
  · intro text hgiven
    exact absurd hgiven (hnot _ text)
  · intro text hgiven
    exact absurd hgiven (hnot _ text)
  · intro text hgiven
    exact absurd hgiven (hnot _ text)

/-! ## The three requests for a name -/

theorem variableRequest_ne_prime (name : Value) : variableRequest name ≠ primeRequest := by
  intro h
  cases h

theorem variableRequest_ne_counter (name : Value) : variableRequest name ≠ counterRequest := by
  intro h
  cases h

theorem primeRequest_ne_counter : primeRequest ≠ counterRequest := by
  intro h
  cases h

theorem keyFor_variable {name : Value} {key : Spelling}
    (h : Names.keyFor name (.str "variable") false = .ok key) :
    ∃ signs, name.spelling? = some signs ∧ key = Names.variableKey signs := by
  rcases hname : name.spelling? with _ | signs
  · unfold Names.keyFor at h
    rw [hname] at h
    cases h
  · rw [Names.keyFor_text hname rfl] at h
    cases h
    exact ⟨signs, rfl, rfl⟩

variable {config : Config} {b : Block} {inputs : Inputs} {plugs : List Plug} {s after : Session}
  {outcome : Except Fault String}

theorem Recorded.served_variable (h : Recorded E s.pass) {name : Value}
    (hasked : Asked b (variableRequest name))
    (ha : Session.identifier name (.str "variable") false s = (outcome, after)) :
    Recorded (E ++ [⟨b, inputs, variableRequest name, s, outcome, after⟩]) after.pass := by
  rw [Session.identifier_apply] at ha
  rcases Language.grant_cases ha with ⟨fault, hget, hfault, hafter⟩ | ⟨g, hg, hok, rfl⟩
  · rw [hafter]
    refine h.append_failed hasked rfl ?_ hfault
    intro hname
    obtain ⟨g, hg⟩ := Names.getFor_variable s.pass.names hname
    rw [hget] at hg
    cases hg
  · have horderly := h.orderly.with_names (h.orderly.clean.getFor h.orderly.bars hg)
      (Names.extends_getFor hg)
    have hlater := h.with_names horderly (Names.extends_getFor hg)
    refine hlater.append ⟨hasked, fun _ _ => ⟨_, hok⟩, ?_, ?_, ?_⟩ ?_
    · rintro name' text ⟨hr, ho⟩
      cases hr
      rw [hok] at ho
      cases ho
      obtain ⟨key, hkey, hknown⟩ := Names.known_getFor hg
      obtain ⟨s', hs', rfl⟩ := keyFor_variable hkey
      exact ⟨s', hs', hknown⟩
    · rintro text ⟨hr, -⟩
      exact absurd hr (variableRequest_ne_prime name)
    · rintro text ⟨hr, -⟩
      exact absurd hr (variableRequest_ne_counter name)
    · rintro text ⟨hr, -⟩
      exact absurd hr (variableRequest_ne_counter name)

theorem Recorded.served_counter (h : Recorded E s.pass) (hasked : Asked b counterRequest)
    (ha : Session.ownIdentifier (.str "count") (.str "variable") s = (outcome, after)) :
    Recorded (E ++ [⟨b, inputs, counterRequest, s, outcome, after⟩]) after.pass := by
  rw [Session.ownIdentifier_apply] at ha
  rcases Language.grant_cases ha with ⟨fault, hown, -, -⟩ | ⟨g, hg, hok, rfl⟩
  · obtain ⟨g, hg⟩ := Names.ownFor_text s.pass.names
      (rfl : (Value.str "count").spelling? = _) (.str "variable")
    rw [hown] at hg
    cases hg
  · have horderly := h.orderly.with_names (h.orderly.clean.ownFor h.orderly.bars hg)
      (Names.extends_ownFor hg)
    have hlater := h.with_names horderly (Names.extends_ownFor hg)
    obtain ⟨base, -, hid, hnames⟩ := Names.ownFor_ok hg
    have hnew := Names.not_taken_of_fresh hid
    refine hlater.append ⟨hasked, fun _ _ => ⟨_, hok⟩, ?_, ?_, ?_⟩ ?_
    · rintro name text ⟨hr, -⟩
      exact absurd hr.symm (variableRequest_ne_counter name)
    · rintro text ⟨hr, -⟩
      exact absurd hr.symm primeRequest_ne_counter
    · rintro text ⟨-, ho⟩
      rw [hok] at ho
      cases ho
      refine ⟨Names.taken_ownFor hg, ?_, ?_⟩
      · -- A place that held the new identifier would have held it before.
        intro key hkey
        have hold : s.pass.names.known? key = some g.identifier := by
          have : g.names.known? key = some g.identifier := hkey
          rw [hnames] at this
          exact this
        exact hnew (h.orderly.clean.memo_taken key _ hold)
      · intro helper hmem heq
        have := h.orderly.helpers helper hmem
        rw [heq] at this
        exact hnew this
    · rintro text ⟨-, ho⟩ d hd hgiven
      rw [hok] at ho
      cases ho
      exact hnew ((h.remembered d hd).alone _ hgiven).1

/-- The identifier of the helper is in no place but its own, and if it was taken before,
it was there. -/
theorem granted_prime {names : Names} (h : names.Sound) {stable : Bool} {g : Names.Granted}
    (hg : Helpers.granted names (.str "math_isPrime") stable = .ok g) :
    (∀ key, g.names.known? key = some g.identifier → key = Names.primeKey) ∧
      (g.identifier ∈ names.taken → names.known? Names.primeKey = some g.identifier) := by
  cases stable with
  | false =>
    obtain ⟨base, -, hid, hnames⟩ := Names.ownFor_ok hg
    have hnew := Names.not_taken_of_fresh hid
    refine ⟨?_, fun htaken => absurd htaken hnew⟩
    intro key hkey
    rw [hnames] at hkey
    exact absurd (h.memo_taken key _ hkey) hnew
  | true =>
    have hsound := h.getFor hg
    obtain ⟨key, hkey, hknown⟩ := Names.known_getFor hg
    have hplace : Names.primeKey = key := by
      cases hkey
      rfl
    refine ⟨fun other hother => ?_, fun htaken => ?_⟩
    · rw [hplace]
      exact hsound.memo_apart other key _ hother hknown
    · rw [hplace]
      exact (Names.extends_getFor hg).places key _ htaken hknown

theorem linesOf_primeHelper :
    Helpers.linesOf (.list (primeHelper.map Value.str)) = .ok primeHelper := rfl

theorem Recorded.append_prime (h : Recorded E after.pass) (hasked : Asked b primeRequest)
    {helper : Helper} (hfind : after.pass.helpers.find? (.str "math_isPrime") = some helper)
    (hok : outcome = .ok helper.identifier) :
    Recorded (E ++ [⟨b, inputs, primeRequest, s, outcome, after⟩]) after.pass := by
  refine h.append ⟨hasked, fun _ _ => ⟨_, hok⟩, ?_, ?_, ?_⟩ ?_
  · rintro name text ⟨hr, -⟩
    exact absurd hr.symm (variableRequest_ne_prime name)
  · rintro text ⟨-, ho⟩
    rw [hok] at ho
    cases ho
    exact ⟨helper, hfind, rfl⟩
  · rintro text ⟨hr, -⟩
    exact absurd hr primeRequest_ne_counter
  · rintro text ⟨hr, -⟩
    exact absurd hr primeRequest_ne_counter

theorem Recorded.served_prime (h : Recorded E s.pass) (hasked : Asked b primeRequest)
    (ha : Session.helper (Language.python config) (.str "math_isPrime")
      (.list (primeHelper.map Value.str)) s = (outcome, after)) :
    Recorded (E ++ [⟨b, inputs, primeRequest, s, outcome, after⟩]) after.pass := by
  have hanswered : ∃ text, outcome = .ok text := by
    have hask := Helpers.ask_answers s.pass.helpers s.pass.names
      (rfl : (Value.str "math_isPrime").spelling? = _) config.stableNames.truth linesOf_primeHelper
    rw [Session.helper_apply] at ha
    cases ha
    exact hask
  obtain ⟨answer, rfl⟩ := hanswered
  rcases Language.helper_cases ha with
    ⟨hhelpers, hnames, ⟨fault, hfault⟩ | ⟨helper, hfind, hok⟩⟩ | ⟨hnone, g, hg, hnames, hrest⟩
  · cases hfault
  · exact (h.of_eq hnames hhelpers).append_prime hasked (by rw [hhelpers]; exact hfind) hok
  · have hclean := Helpers.clean_granted h.orderly.clean h.orderly.bars hg
    have hext := Helpers.extends_granted hg
    have hlater := h.with_names (h.orderly.with_names hclean hext) hext
    obtain ⟨hplace, hbefore⟩ := granted_prime h.orderly.clean.toSound hg
    rcases hrest with ⟨-, fault, hfault⟩ | ⟨body, hhelpers, hok, -⟩
    · cases hfault
    · let helper : Helper :=
        { desired := .str "math_isPrime", identifier := g.identifier, code := body }
      have horderly := h.orderly.with_helper hclean hext helper
        (Helpers.taken_granted h.orderly.clean.toSound hg)
      -- A counter that had the identifier of the helper would have had it in the helper's place.
      have hcounter : ∀ e ∈ E, ∀ text, e.Given counterRequest text → g.identifier ≠ text := by
        rintro e he text hgiven rfl
        obtain ⟨htaken, hnowhere, -⟩ := (h.remembered e he).alone _ hgiven
        exact hnowhere _ (hbefore htaken)
      have hdefined := hlater.with_helper horderly hnone hplace hcounter
      have hfind : after.pass.helpers.find? (.str "math_isPrime") = some helper := by
        rw [hhelpers]
        exact Helpers.find?_defined hnone
      exact (hdefined.of_eq hnames hhelpers).append_prime hasked hfind hok

theorem Recorded.append_opening (h : Recorded E p) {e : Served} (hasked : Asked e.block e.request)
    (ho : e.request.opensInput = true) : Recorded (E ++ [e]) p := by
  have hnot : ∀ r text, r.opensInput = false → ¬ e.Given r text := by
    rintro r text hr ⟨heq, -⟩
    rw [heq, hr] at ho
    cases ho
  refine h.append ⟨hasked, ?_, ?_, ?_, ?_⟩ ?_
  · intro hclosed
    rw [ho] at hclosed
    cases hclosed
  · intro name text hgiven
    exact absurd hgiven (hnot _ text rfl)
  · intro text hgiven
    exact absurd hgiven (hnot _ text rfl)
  · intro text hgiven
    exact absurd hgiven (hnot _ text rfl)
  · intro text hgiven
    exact absurd hgiven (hnot _ text rfl)

theorem keeps_recorded (config : Config) :
    Keeps (Language.python config) (fun _ => (Language.python config).refuse) Asked
      fun E s => Recorded E s.pass where
  rules := fun b rule hrule inputs => asks_of_ruleFor b hrule inputs
  counted := fun E s h => h.of_eq rfl rfl
  told := fun E s running notes h => h
  named := by
    intro E b inputs r s outcome after hasked hr ha h
    cases hasked with
    | value input order => cases hr
    | statements input => cases hr
    | identifier hb hname => exact h.served_variable (.identifier hb hname) ha
    | prime hb => exact h.served_prime (.prime hb) ha
    | counter hb => exact h.served_counter (.counter hb) ha
  opened := fun E inner b inputs r s outcome after hasked hr _ _ h => h.append_opening hasked hr

theorem recorded_pass {s : Session} (h : Lived (Language.python config) s) (w : Workspace) :
    Recorded ((Language.python config).passTrail w s) ((Language.python config).pass w s).2.pass := by
  have horderly := h.opened_orderly w
  refine (keeps_recorded config).pass w s h.not_running ⟨horderly, ?_, ?_, List.Pairwise.nil⟩
  · intro helper hmem
    cases hmem
  · intro e he
    cases he

/-! ## Which request an identifier answers -/

/-- A block of a variable of this name was given an identifier. -/
structure VariableGets (e : Served) (name : Value) (identifier : String) : Prop where
  block : IsVariable e.block
  field : e.block.field "VAR" = .ok name
  gets : e.Gets identifier

theorem not_isVariable {b : Block} {type : String} (hb : b.type = .str type)
    (htype : type ≠ "variables_get" ∧ type ≠ "variables_set") : ¬ IsVariable b := by
  rintro (h | h)
  · exact htype.1 (Value.str_unique hb h)
  · exact htype.2 (Value.str_unique hb h)

theorem VariableGets.given {e : Served} (hasked : Asked e.block e.request) {name : Value}
    {identifier : String} (h : VariableGets e name identifier) :
    e.Given (variableRequest name) identifier := by
  obtain ⟨hblock, hfield, hname, hok⟩ := h
  rcases e with ⟨b, inputs, r, before, outcome, after⟩
  refine ⟨?_, hok⟩
  cases hasked with
  | value input order => cases hname
  | statements input => cases hname
  | identifier hb hother =>
    have heq := hfield.symm.trans hother
    cases heq
    rfl
  | prime hb => exact absurd hblock (not_isVariable hb (by decide))
  | counter hb => exact absurd hblock (not_isVariable hb (by decide))

theorem given_prime {e : Served} (hasked : Asked e.block e.request) {identifier : String}
    (h : e.Gets identifier) (hblock : e.block.type = .str "math_is_prime") :
    e.Given primeRequest identifier := by
  obtain ⟨hname, hok⟩ := h
  rcases e with ⟨b, inputs, r, before, outcome, after⟩
  refine ⟨?_, hok⟩
  cases hasked with
  | value input order => cases hname
  | statements input => cases hname
  | identifier hb hfield => exact absurd hb (not_isVariable hblock (by decide))
  | prime hb => rfl
  | counter hb => exact absurd (Value.str_unique hblock hb) (by decide)

theorem given_counter {e : Served} (hasked : Asked e.block e.request) {identifier : String}
    (h : e.Gets identifier) (hblock : e.block.type = .str "controls_repeat_ext") :
    e.Given counterRequest identifier := by
  obtain ⟨hname, hok⟩ := h
  rcases e with ⟨b, inputs, r, before, outcome, after⟩
  refine ⟨?_, hok⟩
  cases hasked with
  | value input order => cases hname
  | statements input => cases hname
  | identifier hb hfield => exact absurd hb (not_isVariable hblock (by decide))
  | prime hb => exact absurd (Value.str_unique hblock hb) (by decide)
  | counter hb => rfl

theorem Recorded.known (h : Recorded E p) {e : Served} (he : e ∈ E) {name : Value}
    {identifier : String} (hgets : VariableGets e name identifier) :
    ∃ signs, name.spelling? = some signs ∧
      p.names.known? (Names.variableKey signs) = some identifier := by
  have hasked := (h.remembered e he).asked
  exact (h.remembered e he).named name identifier (hgets.given hasked)

end Python
end BlockCode
