-- Reserved words. No pass gives out a word that was reserved when it began, unless the
-- names of earlier passes are kept and the word is the identifier that the same name got
-- in one of them. A name that has such an identifier keeps it, reserved or not.
import BlockCode.Language.Template
import BlockCode.Proofs.Generation.History
import BlockCode.Proofs.Value.Sameness

namespace BlockCode

/-! ## The name and the place of a request -/

/-- The name for which an identifier is asked. -/
def Request.name? : Request → Option Value
  | .identifier name _ _ => some name
  | .ownIdentifier name _ => some name
  | .helper desired _ => some desired
  | _ => none

/-- The identifier that is asked for can be kept in this place. A helper answers to every
value that is the same as its name. -/
def Request.Place : Request → Spelling → Prop
  | .identifier name category caseSensitive, place =>
    Names.keyFor name category caseSensitive = .ok place
  | .helper desired _, place =>
    ∃ v : Value, v.same desired = true ∧ Names.keyFor v Helpers.category true = .ok place
  | _, _ => False

/-! ## Names that began with others -/

namespace Names

/-- The later names have what the first had, and every identifier that came to it is none
of the words. -/
structure Since (words : List String) (first later : Names) : Prop where
  onward : first.Extends later
  bars : later.Bars words
  added : ∀ place identifier, later.known? place = some identifier →
    first.known? place = some identifier ∨ identifier ∉ words

variable {words : List String} {first names : Names} {name category : Value} {g : Granted}

theorem since_refl (h : first.Bars words) : Since words first first where
  onward := extends_refl first
  bars := h
  added := fun _ _ hknown => Or.inl hknown

/-- A name has the identifier that it had at first, or one that is none of the words. -/
theorem Since.getFor {caseSensitive : Bool} (h : Since words first names)
    (hg : names.getFor name category caseSensitive = .ok g) :
    Since words first g.names ∧ ∃ place, keyFor name category caseSensitive = .ok place ∧
      (first.known? place = some g.identifier ∨ g.identifier ∉ words) ∧
      ∀ identifier, first.known? place = some identifier → g.identifier = identifier := by
  have honward := h.onward.trans (extends_getFor hg)
  have hbars := h.bars.of_extends (extends_getFor hg)
  have hadded : ∀ place identifier, g.names.known? place = some identifier →
      first.known? place = some identifier ∨ identifier ∉ words := by
    intro place identifier hknown
    obtain ⟨key, -, ⟨-, hsame⟩ | ⟨-, base, hbase, hid, hnames⟩⟩ := getFor_ok hg
    · rw [hsame] at hknown
      exact h.added place identifier hknown
    · rw [hnames, known?_keep] at hknown
      split at hknown
      · cases hknown
        exact Or.inr (fit_of_fresh h.bars hbase hid).2
      · exact h.added place identifier hknown
  obtain ⟨place, hplace, hgiven⟩ := known_getFor hg
  refine ⟨⟨honward, hbars, hadded⟩, place, hplace, hadded place _ hgiven, ?_⟩
  intro identifier hfirst
  have hkept := honward.known place identifier hfirst
  rw [hgiven] at hkept
  exact Option.some.inj hkept

theorem Since.ownFor (h : Since words first names) (hg : names.ownFor name category = .ok g) :
    Since words first g.names ∧ g.identifier ∉ words := by
  have honward := h.onward.trans (extends_ownFor hg)
  have hbars := h.bars.of_extends (extends_ownFor hg)
  obtain ⟨base, hbase, hid, hnames⟩ := ownFor_ok hg
  refine ⟨⟨honward, hbars, ?_⟩, (fit_of_fresh h.bars hbase hid).2⟩
  intro place identifier hknown
  rw [hnames] at hknown
  exact h.added place identifier hknown

end Names

/-! ## Helpers among them -/

namespace Helpers

variable {words : List String} {first : Names} {stable : Bool}

/-- A helper that is new has its identifier from its place at first, or it is none of the
words. -/
theorem since_granted {names : Names} {desired : Value} {g : Names.Granted}
    (h : Names.Since words first names)
    (hg : granted names desired stable = .ok g) :
    Names.Since words first g.names ∧
      (g.identifier ∈ words → ∃ place, Names.keyFor desired category true = .ok place ∧
        first.known? place = some g.identifier) ∧
      (stable = true → ∀ place identifier,
        Names.keyFor desired category true = .ok place →
          first.known? place = some identifier → g.identifier = identifier) := by
  cases stable with
  | false =>
    obtain ⟨hlater, hnot⟩ := h.ownFor hg
    exact ⟨hlater, fun hword => absurd hword hnot, fun hstable => by cases hstable⟩
  | true =>
    obtain ⟨hlater, place, hplace, hgiven, hkept⟩ := h.getFor hg
    refine ⟨hlater, ?_, ?_⟩
    · intro hword
      rcases hgiven with hfirst | hnot
      · exact ⟨place, hplace, hfirst⟩
      · exact absurd hword hnot
    · intro _ place' identifier hplace' hfirst
      obtain rfl := Except.ok.inj (hplace'.symm.trans hplace)
      exact hkept identifier hfirst

end Helpers

/-! ## What a pass gives out -/

/-- The pass has its identifiers and those of its helpers from its first names, or they
are none of the words. -/
structure PassState.Since (words : List String) (first : Names) (stable : Bool) (p : PassState) :
    Prop where
  names : Names.Since words first p.names
  helpers : ∀ helper ∈ p.helpers, helper.identifier ∈ words → ∃ place,
    Names.keyFor helper.desired Helpers.category true = .ok place ∧
      first.known? place = some helper.identifier
  /-- With names that are kept, a helper has the identifier that it had at first. -/
  renewed : stable = true → ∀ helper ∈ p.helpers, ∀ place identifier,
    Names.keyFor helper.desired Helpers.category true = .ok place →
      first.known? place = some identifier → helper.identifier = identifier

/-- An identifier that is one of the words was there before, and one that was there
before is given again. -/
structure Served.Fair (words : List String) (first : Names) (stable : Bool) (e : Served) : Prop where
  barred : ∀ identifier, e.Gets identifier → identifier ∈ words →
    ∃ place, e.request.Place place ∧ first.known? place = some identifier
  renewed : stable = true → ∀ identifier name signs place before, e.Gets identifier →
    e.request.name? = some name → name.spelling? = some signs → e.request.Place place →
    first.known? place = some before → identifier = before

variable {L : Language} {words : List String} {first : Names} {stable : Bool} {e : Served}

theorem Served.fair_of_not_gets (h : ∀ identifier, ¬ e.Gets identifier) :
    e.Fair words first stable where
  barred := fun identifier hgets => absurd hgets (h identifier)
  renewed := fun _ identifier _ _ _ _ hgets => absurd hgets (h identifier)

theorem Served.fair_of_other (h : e.request.isForName = false) : e.Fair words first stable := by
  apply Served.fair_of_not_gets
  rintro identifier ⟨hname, -⟩
  rw [h] at hname
  cases hname

theorem Served.fair_of_error {fault : Fault} (h : e.outcome = .error fault) :
    e.Fair words first stable := by
  apply Served.fair_of_not_gets
  rintro identifier ⟨-, hok⟩
  rw [h] at hok
  cases hok

theorem Served.fair_of_ok {identifier : String} (h : e.outcome = .ok identifier)
    (hbarred : identifier ∈ words →
      ∃ place, e.request.Place place ∧ first.known? place = some identifier)
    (hrenewed : stable = true → ∀ name signs place before, e.request.name? = some name →
      name.spelling? = some signs → e.request.Place place → first.known? place = some before →
      identifier = before) :
    e.Fair words first stable where
  barred := by
    rintro given ⟨-, hok⟩ hword
    obtain rfl := Except.ok.inj (h.symm.trans hok)
    exact hbarred hword
  renewed := by
    rintro hstable given name signs place before ⟨-, hok⟩
    obtain rfl := Except.ok.inj (h.symm.trans hok)
    exact hrenewed hstable name signs place before

theorem PassState.Since.with_names {p : PassState} (h : p.Since words first stable) {later : Names}
    (hlater : Names.Since words first later) :
    { p with names := later }.Since words first stable :=
  ⟨hlater, h.helpers, h.renewed⟩

theorem PassState.Since.with_helper {p : PassState} (h : p.Since words first stable)
    {helper : Helper}
    (hbarred : helper.identifier ∈ words → ∃ place,
      Names.keyFor helper.desired Helpers.category true = .ok place ∧
        first.known? place = some helper.identifier)
    (hrenewed : stable = true → ∀ place identifier,
      Names.keyFor helper.desired Helpers.category true = .ok place →
        first.known? place = some identifier → helper.identifier = identifier) :
    { p with helpers := p.helpers ++ [helper] }.Since words first stable where
  names := h.names
  helpers := List.forall_mem_append.mpr ⟨h.helpers, List.forall_mem_singleton.mpr hbarred⟩
  renewed := fun hstable =>
    List.forall_mem_append.mpr ⟨h.renewed hstable, List.forall_mem_singleton.mpr (hrenewed hstable)⟩

theorem PassState.Since.of_eq {p q : PassState} (h : p.Since words first stable)
    (hnames : q.names = p.names) (hhelpers : q.helpers = p.helpers) :
    q.Since words first stable :=
  ⟨by rw [hnames]; exact h.names, by rw [hhelpers]; exact h.helpers,
    by rw [hhelpers]; exact h.renewed⟩

namespace Language

variable {b : Block} {inputs : Inputs} {s after : Session} {outcome : Except Fault String}

theorem served_identifier {name category : Value} {caseSensitive : Bool}
    (h : s.pass.Since words first stable)
    (ha : Session.identifier name category caseSensitive s = (outcome, after)) :
    after.pass.Since words first stable ∧
      Served.Fair words first stable
        ⟨b, inputs, .identifier name category caseSensitive, s, outcome, after⟩ := by
  rw [Session.identifier_apply] at ha
  rcases grant_cases ha with ⟨fault, -, hfault, rfl⟩ | ⟨g, hg, hok, rfl⟩
  · exact ⟨h, Served.fair_of_error hfault⟩
  · obtain ⟨hlater, place, hplace, hgiven, hkept⟩ := h.names.getFor hg
    refine ⟨h.with_names hlater, Served.fair_of_ok hok ?_ ?_⟩
    · intro hword
      rcases hgiven with hfirst | hnot
      · exact ⟨place, hplace, hfirst⟩
      · exact absurd hword hnot
    · intro _ text signs place' before _ _ hplace' hbefore
      obtain rfl := Except.ok.inj (hplace'.symm.trans hplace)
      exact hkept before hbefore

theorem served_ownIdentifier {name category : Value} (h : s.pass.Since words first stable)
    (ha : Session.ownIdentifier name category s = (outcome, after)) :
    after.pass.Since words first stable ∧
      Served.Fair words first stable ⟨b, inputs, .ownIdentifier name category, s, outcome, after⟩ := by
  rw [Session.ownIdentifier_apply] at ha
  rcases grant_cases ha with ⟨fault, -, hfault, rfl⟩ | ⟨g, hg, hok, rfl⟩
  · exact ⟨h, Served.fair_of_error hfault⟩
  · obtain ⟨hlater, hnot⟩ := h.names.ownFor hg
    refine ⟨h.with_names hlater, Served.fair_of_ok hok ?_ ?_⟩
    · exact fun hword => absurd hword hnot
    · intro _ text signs place before _ _ hplace
      exact hplace.elim

theorem fair_of_helper {p : PassState} (h : p.Since words first stable) {desired lines : Value}
    {helper : Helper} (hfind : p.helpers.find? desired = some helper)
    (hok : outcome = .ok helper.identifier) :
    Served.Fair words first stable ⟨b, inputs, .helper desired lines, s, outcome, after⟩ := by
  obtain ⟨hmem, hsame⟩ := Helpers.find?_spec hfind
  refine Served.fair_of_ok hok ?_ ?_
  · intro hword
    obtain ⟨place, hplace, hfirst⟩ := h.helpers helper hmem hword
    exact ⟨place, ⟨helper.desired, hsame, hplace⟩, hfirst⟩
  · rintro hstable name signs place before hname hsigns ⟨v, hv, hplace⟩ hbefore
    cases hname
    have hhome := Helpers.keyFor_home (Value.spelling?_of_same hsame hsigns)
    rw [Helpers.keyFor_home (Value.spelling?_of_same hv hsigns), ← hhome] at hplace
    exact h.renewed hstable helper hmem place before hplace hbefore

theorem served_helper {desired lines : Value}
    (h : s.pass.Since words first L.config.stableNames.truth)
    (ha : Session.helper L desired lines s = (outcome, after)) :
    after.pass.Since words first L.config.stableNames.truth ∧
      Served.Fair words first L.config.stableNames.truth
        ⟨b, inputs, .helper desired lines, s, outcome, after⟩ := by
  rcases helper_cases ha with
    ⟨hhelpers, hnames, ⟨fault, hfault⟩ | ⟨helper, hfind, hok⟩⟩ | ⟨hnone, g, hg, hnames, hrest⟩
  · exact ⟨h.of_eq hnames hhelpers, Served.fair_of_error hfault⟩
  · exact ⟨h.of_eq hnames hhelpers, fair_of_helper h hfind hok⟩
  · obtain ⟨hlater, hbarred, hrenewed⟩ := Helpers.since_granted h.names hg
    rcases hrest with ⟨hhelpers, fault, hfault⟩ | ⟨body, hhelpers, hok, -⟩
    · exact ⟨(h.with_names hlater).of_eq hnames hhelpers, Served.fair_of_error hfault⟩
    · have hdefined : after.pass.Since words first L.config.stableNames.truth :=
        ((h.with_names hlater).with_helper hbarred hrenewed).of_eq hnames hhelpers
      have hfind : after.pass.helpers.find? desired =
          some { desired, identifier := g.identifier, code := body } := by
        rw [hhelpers]
        exact Helpers.find?_defined hnone
      exact ⟨hdefined, fair_of_helper hdefined hfind hok⟩

/-- Every request that a rule makes within a pass is fair, and the pass goes on from there. -/
theorem served_fair {plugs : List Plug} {r : Request} (hr : r.opensInput = false)
    (h : s.pass.Since words first L.config.stableNames.truth)
    (ha : L.answer (fun _ => L.refuse) b plugs r s = (outcome, after)) :
    after.pass.Since words first L.config.stableNames.truth ∧
      Served.Fair words first L.config.stableNames.truth ⟨b, inputs, r, s, outcome, after⟩ := by
  cases r with
  | value input order => cases hr
  | statements input => cases hr
  | identifier name category caseSensitive => exact served_identifier h ha
  | ownIdentifier name category => exact served_ownIdentifier h ha
  | helper desired lines => exact served_helper h ha
  | comments input =>
    cases ha
    exact ⟨h, Served.fair_of_other rfl⟩
  | reserve words' =>
    have hpass : after.pass = s.pass := by
      cases words' <;> (cases ha; rfl)
    exact ⟨h.of_eq (by rw [hpass]) (by rw [hpass]), Served.fair_of_other rfl⟩
  | pass w =>
    cases ha
    exact ⟨h, Served.fair_of_other rfl⟩

theorem isForName_of_opensInput {r : Request} (hr : r.opensInput = true) :
    r.isForName = false := by
  cases r <;> first | rfl | cases hr

/-- Every pass that began with names that bar the words is fair, request by request. -/
theorem keeps_fair (L : Language) (words : List String) (first : Names) :
    Keeps L (fun _ => L.refuse) (fun _ _ => True) fun E s =>
      s.pass.Since words first L.config.stableNames.truth ∧
        ∀ e ∈ E, e.Fair words first L.config.stableNames.truth where
  rules := fun _ _ _ _ => Script.asks_anything _
  counted := fun E s h => ⟨h.1.of_eq rfl rfl, h.2⟩
  told := fun _ _ _ _ h => h
  named := by
    intro E b inputs r s outcome after _ hr ha h
    obtain ⟨hlater, he⟩ := served_fair hr h.1 ha
    exact ⟨hlater, Served.forall_snoc h.2 he⟩
  opened := by
    intro E inner b inputs r s outcome after _ hr _ h hinner
    exact ⟨hinner.1, Served.forall_snoc hinner.2
      (Served.fair_of_other (isForName_of_opensInput hr))⟩

/-- The names with which a pass begins know what the kept names know, or nothing. -/
theorem known_begun (s : Session) {place : Spelling} {identifier : String} :
    (s.begun L).names.known? place = some identifier ↔
      L.config.stableNames.truth = true ∧ s.pass.names.known? place = some identifier := by
  unfold Session.begun
  rcases L.config.stableNames.truth with _ | _
  · constructor
    · intro h
      cases h
    · rintro ⟨h, -⟩
      cases h
  · exact ⟨fun h => ⟨rfl, h⟩, fun h => h.2⟩

end Language

/-! ## Which identifiers are reserved words -/

open BlockCode.Language

/-- In every pass of every session, an identifier that is given out and that was reserved
when the pass began was the identifier of the same name in an earlier pass whose names are
kept. When the name is a text this says exactly when: it had an identifier that was
reserved since. So without names that are kept no identifier is a reserved word. -/
theorem reserved_word_given_iff {L : Language} {s : Session} (h : Lived L s) (w : Workspace)
    {e : Served} (he : e ∈ L.passTrail w s) {identifier : String} (hgets : e.Gets identifier) :
    (identifier ∈ s.reserved → L.config.stableNames.truth = true ∧
      ∃ place, e.request.Place place ∧ s.pass.names.known? place = some identifier) ∧
    ∀ name signs, e.request.name? = some name → name.spelling? = some signs →
      (identifier ∈ s.reserved ↔ L.config.stableNames.truth = true ∧
        ∃ place before, e.request.Place place ∧ s.pass.names.known? place = some before ∧
          before ∈ s.reserved) := by
  have hbars : (L.opened w s).pass.names.Bars s.reserved :=
    Names.bars_reserve _ (List.Subset.refl _)
  have hbegun : (L.opened w s).pass.Since s.reserved (s.begun L).names
      L.config.stableNames.truth := by
    refine ⟨Names.since_refl hbars, ?_, ?_⟩
    · intro helper hmem
      cases hmem
    · intro _ helper hmem
      cases hmem
  have hfair := ((keeps_fair L s.reserved (s.begun L).names).pass w s h.not_running
    ⟨hbegun, fun d hd => absurd hd List.not_mem_nil⟩).2 e he
  have hbarred : identifier ∈ s.reserved → L.config.stableNames.truth = true ∧
      ∃ place, e.request.Place place ∧ s.pass.names.known? place = some identifier := by
    intro hword
    obtain ⟨place, hplace, hknown⟩ := hfair.barred identifier hgets hword
    obtain ⟨hstable, hkept⟩ := (known_begun s).mp hknown
    exact ⟨hstable, place, hplace, hkept⟩
  refine ⟨hbarred, fun name signs hname hsigns => ⟨?_, ?_⟩⟩
  · intro hword
    obtain ⟨hstable, place, hplace, hkept⟩ := hbarred hword
    exact ⟨hstable, place, identifier, hplace, hkept, hword⟩
  · rintro ⟨hstable, place, before, hplace, hkept, hword⟩
    have hknown := (known_begun (L := L) s).mpr ⟨hstable, hkept⟩
    rw [hfair.renewed hstable identifier name signs place before hgets hname hsigns hplace hknown]
    exact hword

/-- A language whose only blocks stand for the variables that they name. It keeps its
names from one pass to the next. -/
def naming : Language where
  name := .str "Toy"
  config := { stableNames := .bool true }
  rules := [(.str "name", (Template.code [.identifier (.str "VAR") (.str "variable") false]).rule)]

def onlyTotal : Workspace where
  nodes :=
    [{ block := { type := .str "name", id := .str "b1",
                  fields := .table [(.str "VAR", .str "total")] } }]
  members := [0]

/-- After a pass its only identifier is reserved. -/
def totalReserved : Session :=
  (Session.reserve (.str "total") (naming.pass onlyTotal (Session.new naming)).2).2

theorem lived_totalReserved : Lived naming totalReserved := .reserve _ (.pass _ .new)

/-- The variable is given its identifier again, which was kept for it. -/
theorem total_kept :
    Lived naming totalReserved ∧ ∃ e ∈ naming.passTrail onlyTotal totalReserved, e.Gets "total" ∧
      naming.config.stableNames.truth = true ∧
      ∃ place, e.request.Place place ∧ totalReserved.pass.names.known? place = some "total" := by
  refine ⟨lived_totalReserved, _, List.mem_cons_self, ⟨rfl, rfl⟩, ?_⟩
  exact (reserved_word_given_iff lived_totalReserved onlyTotal List.mem_cons_self ⟨rfl, rfl⟩).1
    (by decide +kernel)

/-- The second pass gives out a word that was reserved when it began. -/
theorem reserved_word_given_again :
    Lived naming totalReserved ∧ "total" ∈ totalReserved.reserved ∧
      (naming.pass onlyTotal totalReserved).1 = .ok "total\n" ∧
      ∃ e ∈ naming.passTrail onlyTotal totalReserved, e.Gets "total" :=
  ⟨lived_totalReserved, by decide +kernel, rfl, _, List.mem_cons_self, ⟨rfl, rfl⟩⟩

end BlockCode
