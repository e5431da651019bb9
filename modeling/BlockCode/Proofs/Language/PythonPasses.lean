-- What a pass of the language of Python programs owes to the passes before it. No rule
-- does anything that a later pass could see but for the names that it takes. When names do
-- not last, this is nothing. When they last, the variables and the helper have the names
-- that they had, and only the counter of a loop has a new one each time.
import BlockCode.Proofs.Generation.Renewal
import BlockCode.Proofs.Language.PythonCourses

namespace BlockCode.Python

open BlockCode.Language

/-! ## Names that do not last -/

theorem staysInside_of_asked {b : Block} {r : Request} (h : Asked b r) : r.staysInside = true := by
  cases h <;> rfl

theorem inward (config : Config) : (Language.python config).Inward := by
  intro b rule hrule inputs
  exact (asks_of_ruleFor b hrule inputs).imp fun r => staysInside_of_asked

/-- When names do not last, a pass comes to what it comes to in a new session, whatever
was done before: it makes the same program or fails with the same fault. -/
theorem pass_forgets {config : Config} (hforgets : config.stableNames.truth = false)
    (tasks : List Task) (w : Workspace) :
    ((Language.python config).pass w
        (tasks.foldl (Task.after (Language.python config))
          (Session.new (Language.python config)))).1 =
      ((Language.python config).pass w (Session.new (Language.python config))).1 := by
  have hnew : Rests (Language.python config).reserved
      (Session.new (Language.python config)) := ⟨rfl, rfl⟩
  exact hnew.pass_eq (inward config).unreserving hforgets
    (Task.rests_afterwards (inward config) tasks hnew) w

/-- A loop, and behind it a block that the language does not know. -/
def loopThenJoin : Workspace where
  nodes :=
    [{ block := { handle := 0, type := .str "controls_repeat_ext" }, next := some 1 },
      { block := { handle := 1, type := .str "text_join" }, parent := some 0 }]
  members := [0, 1]

/-- The loop alone. -/
def loopOnly : Workspace where
  nodes := [{ block := { type := .str "controls_repeat_ext" } }]
  members := [0]

/-- A pass that fails, parts of its workspace, and work that is broken off in a pass that
has given out the name of a counter. -/
def beginnings : List Task :=
  [.pass loopThenJoin, .code loopThenJoin 0, .value loopThenJoin 0 (.str "TIMES") (.int 99),
    .statements loopThenJoin 0 (.str "DO"),
    .brokenOff { names := { taken := ["count"] }, handled := 1 } []]

/-- The counter of a loop has its name again, though the name was given out before. -/
theorem count_forgotten :
    (∃ fault, ((Language.python {}).pass loopThenJoin (Session.new (Language.python {}))).1 =
        .error fault) ∧
      (beginnings.foldl (Task.after (Language.python {}))
        (Session.new (Language.python {}))).pass.names.taken = ["count"] ∧
      ({} : Config).stableNames.truth = false ∧
      ((Language.python {}).pass loopOnly
          (beginnings.foldl (Task.after (Language.python {}))
            (Session.new (Language.python {})))).1 =
        ((Language.python {}).pass loopOnly (Session.new (Language.python {}))).1 :=
  ⟨⟨_, rfl⟩, rfl, rfl, pass_forgets rfl beginnings loopOnly⟩

/-! ## Names that last -/

theorem lasting_of_asked {b : Block} {r : Request} (h : Asked b r) : r.Lasting := by
  cases h with
  | value input order => exact trivial
  | statements input => exact trivial
  | identifier hb hname => exact Or.inl rfl
  | prime hb => exact ⟨_, rfl⟩
  | counter hb => exact trivial

theorem lasting (config : Config) : (Language.python config).OnlyAsks Request.Lasting := by
  intro b rule hrule inputs
  exact (asks_of_ruleFor b hrule inputs).imp fun r => lasting_of_asked

theorem counter_of_isOwn {b : Block} {r : Request} (h : Asked b r) (hown : r.isOwn = true) :
    r = counterRequest := by
  cases h with
  | counter hb => rfl
  | _ => cases hown

theorem asked_pass {config : Config} {s : Session} (hs : s.running = false) (w : Workspace) :
    ∀ e ∈ (Language.python config).passTrail w s, Asked e.block e.request :=
  Keeps.allowed_pass (fun b _ hrule inputs => asks_of_ruleFor b hrule inputs) w s hs

/-- A program is made again by every further pass if and only if none of its loops asks for
a counter. -/
theorem program_repeats_iff {config : Config} (hstable : config.stableNames.truth = true)
    {s : Session} (hs : s.running = false) (hsound : s.pass.names.Sound) {w : Workspace}
    {program : String} (h : ((Language.python config).pass w s).1 = .ok program) :
    (∀ n, ((Language.python config).pass w ((Language.python config).passesOver w s n)).1 =
        .ok program) ↔
      ∀ e ∈ (Language.python config).passTrail w s, e.request ≠ counterRequest := by
  constructor
  · intro hall e he
    exact (plain config).not_own hstable hs hall he
  · intro hnone n
    rw [← h]
    refine pass_passesOver hstable (lasting config) hs hsound w ?_ n
    intro e he
    rw [Bool.eq_false_iff]
    intro hown
    exact hnone e he (counter_of_isOwn (asked_pass hs w e he) hown)

/-- The settings with names that last. -/
def lastingNames : Config := { stableNames := .bool true }

/-- It is printed whether a variable is prime. -/
def printsPrime : Workspace where
  nodes :=
    [{ block := { handle := 0, type := .str "text_print" },
       slots := [{ name := .str "TEXT", kind := .value, target := some 1 }] },
      { block := { handle := 1, type := .str "math_is_prime", output := .bool true },
        slots := [{ name := .str "NUMBER_TO_CHECK", kind := .value, target := some 2 }],
        parent := some 0 },
      { block := { handle := 2, type := .str "variables_get",
                   fields := .table [(.str "VAR", .str "Count")], output := .bool true },
        parent := some 1 }]
  members := [0, 1, 2]

/-- The session behind a pass over a loop, with one more word reserved. -/
def countedBefore : Session :=
  (Session.reserve (.str "total")
    ((Language.python lastingNames).pass loopOnly (Session.new (Language.python lastingNames))).2).2

theorem lived_countedBefore : Lived (Language.python lastingNames) countedBefore :=
  .reserve _ (.pass _ .new)

/-- The variable and the helper have the same names in every pass. -/
theorem printsPrime_repeats :
    lastingNames.stableNames.truth = true ∧ countedBefore.running = false ∧
      countedBefore.pass.names.Sound ∧
      ∃ program, ((Language.python lastingNames).pass printsPrime countedBefore).1 = .ok program ∧
        ∀ n, ((Language.python lastingNames).pass printsPrime
          ((Language.python lastingNames).passesOver printsPrime countedBefore n)).1 =
            .ok program := by
  have hidle := lived_countedBefore.not_running
  have hsound := (lived_countedBefore.clean rfl).toSound
  have hrequests : ((Language.python lastingNames).passTrail printsPrime countedBefore).map
      (·.request.isOwn) = [false, false, false, false] := by decide +kernel
  refine ⟨rfl, hidle, hsound, _, rfl, ?_⟩
  refine (program_repeats_iff rfl hidle hsound rfl).mpr fun e he hcounter => ?_
  have hown := List.mem_map_of_mem (f := (·.request.isOwn)) he
  rw [hrequests, hcounter] at hown
  revert hown
  decide

/-- A loop without times and without a body. -/
def emptyLoop (counter : String) : String :=
  "for " ++ counter ++ " in range(" ++ "0" ++ "):\n" ++ "  pass\n"

theorem plainIdentifier_count : plainIdentifier "count" = "count" := by decide +kernel

/-- The counter of a single loop is the first candidate that is free. -/
theorem loopOnly_pass (config : Config) {s : Session} (hs : s.running = false) :
    let names := (s.begun (Language.python config)).names
    let counter := fresh names.inUse "count"
    ((Language.python config).pass loopOnly s).1 =
        .ok (Text.clean (joinSections [emptyLoop counter])) ∧
      ((Language.python config).pass loopOnly s).2.pass.names = names.issued counter ∧
      ((Language.python config).pass loopOnly s).2.reserved = s.reserved := by
  intro names counter
  have hsection : ∃ after, (Language.python config).section?
      (fun _ => (Language.python config).refuse)
      (.cons { type := .str "controls_repeat_ext" } .nil .nil)
      ((Language.python config).opened loopOnly s) = (.ok (some (emptyLoop counter)), after) ∧
      after.pass.helpers = [] ∧ after.pass.names = names.issued counter ∧
      after.reserved = s.reserved := by
    unfold counter
    rw [← plainIdentifier_count, ← String.empty_append (s := emptyLoop _),
      ← String.append_empty (s := "" ++ emptyLoop _)]
    exact ⟨_, rfl, rfl, rfl, rfl⟩
  obtain ⟨after, hcode, hhelpers, hnames, hreserved⟩ := hsection
  have hsections : (Language.python config).sections loopOnly s =
      (.ok [some (emptyLoop counter)], after) := by
    have htrees : loopOnly.trees =
        [.cons { type := .str "controls_repeat_ext" } .nil .nil] := rfl
    unfold sections
    rw [htrees, List.mapM_cons, Effect.bind_ok hcode]
    rfl
  obtain ⟨hpass, hreserved'⟩ := pass_session (L := Language.python config) loopOnly s hs
  rw [pass_result _ s hs, hpass, hreserved', hsections]
  refine ⟨?_, hnames, hreserved⟩
  show Except.ok (Text.clean (after.withDefinitions _)) = _
  unfold Session.withDefinitions
  rw [hhelpers]
  rfl

/-- Though names last, the second pass over a loop makes another program than the first. -/
theorem loop_renamed :
    let first := (Language.python lastingNames).pass loopOnly
      (Session.new (Language.python lastingNames))
    lastingNames.stableNames.truth = true ∧
      first.1 = .ok "for count in range(0):\n  pass\n" ∧
      ((Language.python lastingNames).pass loopOnly first.2).1 =
        .ok "for count2 in range(0):\n  pass\n" := by
  intro first
  have hnew : (Session.new (Language.python lastingNames)).running = false := rfl
  have hidle : first.2.running = false := running_pass _ loopOnly _ hnew
  obtain ⟨hfirst, hnames, hreserved⟩ := loopOnly_pass lastingNames hnew
  obtain ⟨hsecond, -⟩ := loopOnly_pass lastingNames hidle
  have hcount : fresh ((Session.new (Language.python lastingNames)).begun
      (Language.python lastingNames)).names.inUse "count" = "count" :=
    fresh_eq_candidate (k := 0) (by decide +kernel) (fun i hi => absurd hi (Nat.not_lt_zero i))
  rw [hcount] at hfirst hnames
  have hcount' : fresh (first.2.begun (Language.python lastingNames)).names.inUse "count" =
      "count2" := by
    rw [begun_names rfl, hnames, hreserved]
    refine fresh_eq_candidate (k := 1) (by decide +kernel) fun i hi => ?_
    obtain rfl : i = 0 := by omega
    decide +kernel
  rw [hcount'] at hsecond
  refine ⟨rfl, hfirst.trans (congrArg Except.ok ?_), hsecond.trans (congrArg Except.ok ?_)⟩
  · decide +kernel
  · decide +kernel

end BlockCode.Python
