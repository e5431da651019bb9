-- What lasts from pass to pass when names are stable. A session is told as one long list
-- of requests, over all its passes. Whoever asks again in the same name is given the
-- identifier of the first time, and an identifier of one's own is nobody else's, at any time.
import BlockCode.Proofs.Generation.Replay
import BlockCode.Proofs.Generation.Reserved

namespace BlockCode

open BlockCode.Language

/-! ## The requests of a whole life -/

/-- What the passes of a session have served, the oldest first, and the session behind them.
Each pass has a workspace of its own and may fail. Words may be reserved between passes. -/
inductive Chronicle (L : Language) : List Served → Session → Prop
  | new : Chronicle L [] (Session.new L)
  | pass {E : List Served} {s : Session} (w : Workspace) :
      Chronicle L E s → Chronicle L (E ++ L.passTrail w s) (L.pass w s).2
  | reserve {E : List Served} {s : Session} (words : Value) :
      Chronicle L E s → Chronicle L E (Session.reserve words s).2

theorem Chronicle.lived {L : Language} {E : List Served} {s : Session} (h : Chronicle L E s) :
    Lived L s := by
  induction h with
  | new => exact .new
  | pass w _ ih => exact .pass w ih
  | reserve words _ ih => exact .reserve words ih

/-- What a request is given after an earlier one. -/
structure Served.Lasts (d e : Served) : Prop where
  /-- A name has the identifier that it had. It is the same name when it has the same place,
  so case makes no difference unless it was to tell names apart. -/
  named : ∀ name other category caseSensitive identifier,
    d.request = .identifier name category caseSensitive →
    e.request = .identifier other category caseSensitive →
    Names.keyFor other category caseSensitive = Names.keyFor name category caseSensitive →
    d.outcome = .ok identifier → e.outcome = .ok identifier
  /-- A helper has the identifier that it had, as soon as its lines can be read. -/
  helped : ∀ desired other signs lines later identifier,
    d.request = .helper desired lines → e.request = .helper other later →
    desired.spelling? = some signs → other.spelling? = some signs → d.outcome = .ok identifier →
      (∀ given, e.outcome = .ok given → given = identifier) ∧
      ((∃ texts, Helpers.linesOf later = .ok texts) → e.outcome = .ok identifier)
  /-- Nobody shares an identifier of one's own. -/
  apart : ∀ identifier, d.Gets identifier → e.Gets identifier →
    d.request.isOwn = false ∧ e.request.isOwn = false

/-! ## What the names remember -/

/-- What the names still know of an answer that was given. -/
structure Traced (names : Names) (e : Served) : Prop where
  named : ∀ name category caseSensitive identifier,
    e.request = .identifier name category caseSensitive → e.Gets identifier →
    ∃ place, Names.keyFor name category caseSensitive = .ok place ∧
      names.known? place = some identifier
  helped : ∀ desired signs lines identifier, e.request = .helper desired lines →
    desired.spelling? = some signs → e.Gets identifier →
    names.known? (Helpers.home signs) = some identifier
  taken : ∀ identifier, e.Gets identifier → identifier ∈ names.taken
  /-- An identifier of one's own is in no place. -/
  alone : ∀ identifier, e.Gets identifier → e.request.isOwn = true →
    ∀ place, names.known? place ≠ some identifier

/-- The pass knows all that was served before, and each of its helpers is in its place. -/
structure Traces (E : List Served) (p : PassState) : Prop where
  sound : p.names.Sound
  helpers : ∀ helper ∈ p.helpers, ∃ place,
    Names.keyFor helper.desired Helpers.category true = .ok place ∧
      p.names.known? place = some helper.identifier
  traced : ∀ e ∈ E, Traced p.names e
  lasts : E.Pairwise Served.Lasts

variable {E : List Served} {p : PassState} {names later : Names} {e : Served}

theorem Traced.of_extends (h : Traced names e) (hext : names.Extends later) : Traced later e where
  named := by
    intro name category caseSensitive identifier hr hgets
    obtain ⟨place, hplace, hknown⟩ := h.named name category caseSensitive identifier hr hgets
    exact ⟨place, hplace, hext.known place identifier hknown⟩
  helped := fun desired signs lines identifier hr hsigns hgets =>
    hext.known _ identifier (h.helped desired signs lines identifier hr hsigns hgets)
  taken := fun identifier hgets => hext.taken (h.taken identifier hgets)
  alone := by
    intro identifier hgets hown place hknown
    exact h.alone identifier hgets hown place
      (hext.places place identifier (h.taken identifier hgets) hknown)

theorem Traced.of_not_gets (h : ∀ identifier, ¬ e.Gets identifier) : Traced names e where
  named := fun _ _ _ identifier _ hgets => absurd hgets (h identifier)
  helped := fun _ _ _ identifier _ _ hgets => absurd hgets (h identifier)
  taken := fun identifier hgets => absurd hgets (h identifier)
  alone := fun identifier hgets => absurd hgets (h identifier)

theorem Served.not_gets_of_error {fault : Fault} (h : e.outcome = .error fault)
    (identifier : String) : ¬ e.Gets identifier := by
  rintro ⟨-, hok⟩
  rw [h] at hok
  cases hok

theorem Served.not_gets_of_other (h : e.request.isForName = false) (identifier : String) :
    ¬ e.Gets identifier := by
  rintro ⟨hname, -⟩
  rw [h] at hname
  cases hname

theorem Served.lasts_other (h : e.request.isForName = false) (d : Served) : d.Lasts e where
  named := by
    intro name other category caseSensitive identifier _ hr
    rw [hr] at h
    cases h
  helped := by
    intro desired other signs lines later identifier _ hr
    rw [hr] at h
    cases h
  apart := fun identifier _ hgets => absurd hgets (Served.not_gets_of_other h identifier)

namespace Traces

theorem with_names (h : Traces E p) (hsound : later.Sound) (hext : p.names.Extends later) :
    Traces E { p with names := later } where
  sound := hsound
  helpers := by
    intro helper hmem
    obtain ⟨place, hplace, hknown⟩ := h.helpers helper hmem
    exact ⟨place, hplace, hext.known place _ hknown⟩
  traced := fun e he => (h.traced e he).of_extends hext
  lasts := h.lasts

theorem with_helper (h : Traces E p) {helper : Helper} {place : Spelling}
    (hplace : Names.keyFor helper.desired Helpers.category true = .ok place)
    (hknown : p.names.known? place = some helper.identifier) :
    Traces E { p with helpers := p.helpers ++ [helper] } where
  sound := h.sound
  helpers := List.forall_mem_append.mpr
    ⟨h.helpers, List.forall_mem_singleton.mpr ⟨place, hplace, hknown⟩⟩
  traced := h.traced
  lasts := h.lasts

theorem of_eq {q : PassState} (h : Traces E p) (hnames : q.names = p.names)
    (hhelpers : q.helpers = p.helpers) : Traces E q :=
  ⟨by rw [hnames]; exact h.sound, by rw [hnames, hhelpers]; exact h.helpers,
    by rw [hnames]; exact h.traced, h.lasts⟩

theorem snoc (h : Traces E p) (htraced : Traced p.names e) (hlasts : ∀ d ∈ E, d.Lasts e) :
    Traces (E ++ [e]) p where
  sound := h.sound
  helpers := h.helpers
  traced := Served.forall_snoc h.traced htraced
  lasts := by
    refine List.pairwise_append.mpr ⟨h.lasts, List.pairwise_singleton _ _, ?_⟩
    intro d hd e' he'
    rw [List.mem_singleton.mp he']
    exact hlasts d hd

theorem not_own_of_known (h : Traces E p) {place : Spelling} {identifier : String}
    (hknown : p.names.known? place = some identifier) {d : Served} (hd : d ∈ E)
    (hgets : d.Gets identifier) : d.request.isOwn = false := by
  rw [Bool.eq_false_iff]
  intro hown
  exact (h.traced d hd).alone identifier hgets hown place hknown

theorem getFor_traced (h : Traces E p) {name other category : Value} {caseSensitive : Bool}
    {identifier : String} {d : Served} (hd : d ∈ E)
    (hr : d.request = .identifier name category caseSensitive)
    (hplace : Names.keyFor other category caseSensitive = Names.keyFor name category caseSensitive)
    (ho : d.outcome = .ok identifier) :
    p.names.getFor other category caseSensitive = .ok { identifier, names := p.names } := by
  have hgets : d.Gets identifier := ⟨by rw [hr]; rfl, ho⟩
  obtain ⟨place, hkey, hknown⟩ := (h.traced d hd).named _ _ _ identifier hr hgets
  unfold Names.getFor
  rw [hplace, hkey]
  simp only [bind, Except.bind, hknown]
  rfl

/-! ## Each request -/

variable {b : Block} {inputs : Inputs} {s after : Session} {outcome : Except Fault String}

theorem served_other (h : Traces E p) {r : Request} (hr : r.isForName = false) :
    Traces (E ++ [⟨b, inputs, r, s, outcome, after⟩]) p :=
  h.snoc (.of_not_gets (Served.not_gets_of_other hr)) fun d _ => Served.lasts_other hr d

theorem served_identifier (h : Traces E s.pass) {name category : Value} {caseSensitive : Bool}
    (ha : Session.identifier name category caseSensitive s = (outcome, after)) :
    Traces (E ++ [⟨b, inputs, .identifier name category caseSensitive, s, outcome, after⟩])
      after.pass := by
  rw [Session.identifier_apply] at ha
  rcases grant_cases ha with ⟨fault, hfails, rfl, rfl⟩ | ⟨g, hg, rfl, rfl⟩
  · have hnot := Served.not_gets_of_error
      (e := ⟨b, inputs, .identifier name category caseSensitive, after, .error fault, after⟩) rfl
    refine h.snoc (.of_not_gets hnot) fun d hd => ⟨?_, ?_, ?_⟩
    · intro first other category' caseSensitive' identifier hr hr' hplace ho
      cases hr'
      rw [h.getFor_traced hd hr hplace ho] at hfails
      cases hfails
    · intro desired other signs lines later identifier _ hr'
      cases hr'
    · exact fun identifier _ hgets => absurd hgets (hnot identifier)
  · have hlater := h.with_names (h.sound.getFor hg) (Names.extends_getFor hg)
    obtain ⟨place, hplace, hknown⟩ := Names.known_getFor hg
    refine hlater.snoc ⟨?_, ?_, ?_, ?_⟩ fun d hd => ⟨?_, ?_, ?_⟩
    · rintro name' category' caseSensitive' identifier hr ⟨-, ho⟩
      cases hr
      cases ho
      exact ⟨place, hplace, hknown⟩
    · intro desired signs lines identifier hr
      cases hr
    · rintro identifier ⟨-, ho⟩
      cases ho
      exact Names.taken_getFor h.sound hg
    · intro identifier _ hown
      cases hown
    · intro first other category' caseSensitive' identifier hr hr' hplace ho
      cases hr'
      rw [h.getFor_traced hd hr hplace ho] at hg
      cases hg
      rfl
    · intro desired other signs lines later identifier _ hr'
      cases hr'
    · rintro identifier hgets ⟨-, ho⟩
      cases ho
      exact ⟨hlater.not_own_of_known hknown hd hgets, rfl⟩

theorem served_ownIdentifier (h : Traces E s.pass) {name category : Value}
    (ha : Session.ownIdentifier name category s = (outcome, after)) :
    Traces (E ++ [⟨b, inputs, .ownIdentifier name category, s, outcome, after⟩]) after.pass := by
  rw [Session.ownIdentifier_apply] at ha
  rcases grant_cases ha with ⟨fault, hfails, rfl, rfl⟩ | ⟨g, hg, rfl, rfl⟩
  · have hnot := Served.not_gets_of_error
      (e := ⟨b, inputs, .ownIdentifier name category, after, .error fault, after⟩) rfl
    refine h.snoc (.of_not_gets hnot) fun d hd => ⟨?_, ?_, ?_⟩
    · intro first other category' caseSensitive' identifier _ hr'
      cases hr'
    · intro desired other signs lines later identifier _ hr'
      cases hr'
    · exact fun identifier _ hgets => absurd hgets (hnot identifier)
  · obtain ⟨base, -, hid, hnames⟩ := Names.ownFor_ok hg
    have hnew := Names.not_taken_of_fresh hid
    have hlater := h.with_names (h.sound.ownFor hg) (Names.extends_ownFor hg)
    refine hlater.snoc ⟨?_, ?_, ?_, ?_⟩ fun d hd => ⟨?_, ?_, ?_⟩
    · intro name' category' caseSensitive' identifier hr
      cases hr
    · intro desired signs lines identifier hr
      cases hr
    · rintro identifier ⟨-, ho⟩
      cases ho
      exact Names.taken_ownFor hg
    · rintro identifier ⟨-, ho⟩ _ place hknown
      cases ho
      -- The places are those of before, and what is in a place was taken.
      have hbefore : s.pass.names.known? place = some g.identifier := by
        have hissued : g.names.known? place = some g.identifier := hknown
        rw [hnames] at hissued
        exact hissued
      exact hnew (h.sound.memo_taken place _ hbefore)
    · intro first other category' caseSensitive' identifier _ hr'
      cases hr'
    · intro desired other signs lines later identifier _ hr'
      cases hr'
    · rintro identifier hgets ⟨-, ho⟩
      cases ho
      exact absurd ((h.traced d hd).taken _ hgets) hnew

/-- A helper is given the identifier in a place, which is its own if its name is a text. -/
theorem given_helper (h : Traces E p) {desired lines : Value} {place : Spelling}
    {identifier : String} (hknown : p.names.known? place = some identifier)
    (hplace : ∀ signs, desired.spelling? = some signs → place = Helpers.home signs) :
    Traces (E ++ [⟨b, inputs, .helper desired lines, s, .ok identifier, after⟩]) p := by
  refine h.snoc ⟨?_, ?_, ?_, ?_⟩ fun d hd => ⟨?_, ?_, ?_⟩
  · intro name category caseSensitive identifier hr
    cases hr
  · rintro desired' signs lines' given hr hsigns ⟨-, ho⟩
    cases hr
    cases ho
    rw [← hplace signs hsigns]
    exact hknown
  · rintro given ⟨-, ho⟩
    cases ho
    exact h.sound.memo_taken place _ hknown
  · intro identifier _ hown
    cases hown
  · intro first other category caseSensitive identifier _ hr'
    cases hr'
  · intro first other signs lines' later given hr hr' hfirst hother ho
    cases hr'
    have hgets : d.Gets given := ⟨by rw [hr]; rfl, ho⟩
    have hbefore := (h.traced d hd).helped first signs lines' given hr hfirst hgets
    rw [← hplace signs hother] at hbefore
    obtain rfl : identifier = given := Option.some.inj (hknown.symm.trans hbefore)
    exact ⟨fun other hother => (Except.ok.inj hother).symm, fun _ => rfl⟩
  · rintro given hgets ⟨-, ho⟩
    cases ho
    exact ⟨h.not_own_of_known hknown hd hgets, rfl⟩

/-- A request for a helper only fails when its lines cannot be read, or its name is no text. -/
theorem failed_helper (h : Traces E p) {L : Language} {desired lines : Value} {fault : Fault}
    (ha : Session.helper L desired lines s = (.error fault, after)) :
    Traces (E ++ [⟨b, inputs, .helper desired lines, s, .error fault, after⟩]) p := by
  have hnot := Served.not_gets_of_error
    (e := ⟨b, inputs, .helper desired lines, s, .error fault, after⟩) rfl
  refine h.snoc (.of_not_gets hnot) fun d hd => ⟨?_, ?_, ?_⟩
  · intro first other category caseSensitive identifier _ hr'
    cases hr'
  · intro first other signs lines' later identifier _ hr' _ hother _
    cases hr'
    refine ⟨fun given ho => absurd ⟨rfl, ho⟩ (hnot given), ?_⟩
    rintro ⟨texts, htexts⟩
    obtain ⟨given, hgiven⟩ := Helpers.ask_answers s.pass.helpers s.pass.names hother
      L.config.stableNames.truth htexts
    rw [Session.helper_apply] at ha
    cases hgiven.symm.trans (congrArg Prod.fst ha)
  · exact fun identifier _ hgets => absurd hgets (hnot identifier)

theorem served_helper {L : Language} (hstable : L.config.stableNames.truth = true)
    (h : Traces E s.pass) {desired lines : Value}
    (ha : Session.helper L desired lines s = (outcome, after)) :
    Traces (E ++ [⟨b, inputs, .helper desired lines, s, outcome, after⟩]) after.pass := by
  rcases helper_cases ha with ⟨hhelpers, hnames, ⟨fault, rfl⟩ | ⟨helper, hfind, rfl⟩⟩ |
    ⟨-, g, hg, hnames, hdone⟩
  · exact (h.of_eq hnames hhelpers).failed_helper ha
  · -- The helper is there, under a name that is the same.
    obtain ⟨hmem, hsame⟩ := Helpers.find?_spec hfind
    obtain ⟨place, hplace, hknown⟩ := h.helpers helper hmem
    refine (h.of_eq hnames hhelpers).given_helper (by rw [hnames]; exact hknown) ?_
    intro signs hsigns
    rw [Helpers.keyFor_home (Value.spelling?_of_same hsame hsigns)] at hplace
    exact (Except.ok.inj hplace).symm
  · have hget : s.pass.names.getFor desired Helpers.category true = .ok g := by
      rw [hstable] at hg
      exact hg
    obtain ⟨place, hplace, hknown⟩ := Names.known_getFor hget
    have hlater := h.with_names (h.sound.getFor hget) (Names.extends_getFor hget)
    rcases hdone with ⟨hhelpers, fault, rfl⟩ | ⟨body, hhelpers, rfl, -⟩
    · exact (hlater.of_eq hnames hhelpers).failed_helper ha
    · have hmore : Traces E { s.pass with
          helpers := s.pass.helpers ++ [{ desired, identifier := g.identifier, code := body }]
          names := g.names } := hlater.with_helper hplace hknown
      have hafter : Traces E after.pass := hmore.of_eq hnames hhelpers
      refine hafter.given_helper (by rw [hnames]; exact hknown) ?_
      intro signs hsigns
      rw [Helpers.keyFor_home hsigns] at hplace
      exact (Except.ok.inj hplace).symm

/-- Every request that a rule makes within a pass leaves its trace. -/
theorem served {L : Language} (hstable : L.config.stableNames.truth = true) (h : Traces E s.pass)
    {plugs : List Plug} {r : Request} (hr : r.opensInput = false)
    (ha : L.answer (fun _ => L.refuse) b plugs r s = (outcome, after)) :
    Traces (E ++ [⟨b, inputs, r, s, outcome, after⟩]) after.pass := by
  cases r with
  | value input order => cases hr
  | statements input => cases hr
  | identifier name category caseSensitive => exact h.served_identifier ha
  | ownIdentifier name category => exact h.served_ownIdentifier ha
  | helper desired lines => exact h.served_helper hstable ha
  | comments input =>
    cases ha
    exact h.served_other rfl
  | reserve words =>
    have hpass : after.pass = s.pass := by
      cases words <;> (cases ha; rfl)
    rw [hpass]
    exact h.served_other rfl
  | pass w =>
    cases ha
    exact h.served_other rfl

end Traces

/-! ## Passes -/

/-- A pass adds its requests to those that were traced before. -/
theorem Traces.keeps {L : Language} (hstable : L.config.stableNames.truth = true)
    (E : List Served) :
    Keeps L (fun _ => L.refuse) (fun _ _ => True) fun D s => Traces (E ++ D) s.pass where
  rules := fun _ _ _ _ => Script.asks_anything _
  counted := fun _ _ h => h.of_eq rfl rfl
  told := fun _ _ _ _ h => h
  named := by
    intro D b inputs r s outcome after _ hr ha h
    rw [← List.append_assoc]
    exact h.served hstable hr ha
  opened := by
    intro D inner b inputs r s outcome after _ hr _ _ h
    rw [← List.append_assoc]
    exact h.served_other (isForName_of_opensInput hr)

theorem Traces.opened {L : Language} (hstable : L.config.stableNames.truth = true)
    {E : List Served} {s : Session} (h : Traces E s.pass) (w : Workspace) :
    Traces E (L.opened w s).pass := by
  have hnames : (L.opened w s).pass.names = s.pass.names.reserve s.reserved :=
    begun_names hstable s
  refine ⟨?_, fun helper hmem => absurd hmem List.not_mem_nil, ?_, h.lasts⟩
  · rw [hnames]
    exact h.sound.reserve s.reserved
  · intro e he
    rw [hnames]
    obtain ⟨hnamed, hhelped, htaken, halone⟩ := h.traced e he
    exact ⟨hnamed, hhelped, htaken, halone⟩

theorem Chronicle.traces {L : Language} (hstable : L.config.stableNames.truth = true)
    {E : List Served} {s : Session} (h : Chronicle L E s) : Traces E s.pass := by
  induction h with
  | new =>
    exact ⟨Names.sound_empty, fun _ hmem => absurd hmem List.not_mem_nil,
      fun _ he => absurd he List.not_mem_nil, .nil⟩
  | @pass E s w h ih =>
    refine (Traces.keeps hstable E).pass w s h.lived.not_running ?_
    rw [List.append_nil]
    exact ih.opened hstable w
  | reserve words _ ih => cases words <;> exact ih

/-- With stable names, what is given out lasts through all passes of a session: through
passes over other workspaces, through passes that fail, and whatever is reserved between
them. Of any two requests the later one is given the identifier of the earlier one if it asks
in the same name, and an identifier of one's own is given out once. -/
theorem identifiers_last {L : Language} (hstable : L.config.stableNames.truth = true)
    {E : List Served} {s : Session} (h : Chronicle L E s) : E.Pairwise Served.Lasts :=
  (h.traces hstable).lasts

/-! ## Three passes -/

/-- A language that keeps its names. One kind of block asks for all kinds of names, and the
other kind gives no code. -/
def asking : Language where
  name := .str "Toy"
  config := { stableNames := .bool true }
  rules :=
    [(.str "ask", (Template.code
        [.identifier (.str "VAR") (.str "variable") false,
          .ownIdentifier (.str "x") (.str "variable"),
          .helper (.str "h") (.list [.str "def h"])]).rule),
      (.str "fail", (Template.result (.ok .null)).rule)]

/-- A block that asks, for a variable of this name, and a block behind it. -/
def asksThen (name type : String) : Workspace where
  nodes :=
    [{ block := { type := .str "ask", id := .str "b1", fields := .table [(.str "VAR", .str name)] },
       next := some 1 },
     { block := { type := .str type, id := .str "b2", fields := .table [(.str "VAR", .str name)] },
       parent := some 0 }]
  members := [0, 1]

/-- The session after a pass that fails, and after two words were reserved. -/
def failedOnce : Session :=
  (Session.reserve (.str "Total,h")
    (asking.pass (asksThen "Total" "fail") (Session.new asking)).2).2

/-- All requests up to the end of the pass after that. -/
def askedTwice : List Served :=
  asking.passTrail (asksThen "Total" "fail") (Session.new asking) ++
    asking.passTrail (asksThen "total" "ask") failedOnce

/-- The pass that fails has asked for three names, and the next one asks for each of them
twice. -/
theorem askedTwice_lasts :
    asking.config.stableNames.truth = true ∧
    Chronicle asking askedTwice (asking.pass (asksThen "total" "ask") failedOnce).2 ∧
    (asking.pass (asksThen "Total" "fail") (Session.new asking)).1.isOk = false ∧
    askedTwice.map (fun e => e.request.name?.map Value.shown) =
      [some "Total", some "x", some "h", some "total", some "x", some "h", some "total", some "x",
        some "h"] ∧
    askedTwice.Pairwise Served.Lasts := by
  have hfirst : Chronicle asking ([] ++ asking.passTrail (asksThen "Total" "fail")
      (Session.new asking)) (asking.pass (asksThen "Total" "fail") (Session.new asking)).2 :=
    .pass _ .new
  rw [List.nil_append] at hfirst
  have hasked : Chronicle asking askedTwice (asking.pass (asksThen "total" "ask") failedOnce).2 :=
    .pass _ (.reserve _ hfirst)
  exact ⟨rfl, hasked, by decide +kernel, by decide +kernel, identifiers_last rfl hasked⟩

end BlockCode
