-- Watching a file that changes at any time. A change is told some time after it was made, also
-- while the program is being made or before it is written. Still, when all is told and nothing
-- is stale, the program of the workspace as it stands has been written, if it has one; and
-- what was written is always the whole program of a workspace that once stood there. Of a program
-- with halves nothing is written, and the file is empty.
import BlockCode.Command.Watch
import BlockCode.Language.Template
import BlockCode.Proofs.Command.Files
import BlockCode.Proofs.Command.Shell
import BlockCode.Proofs.Generation.Twins
import BlockCode.Proofs.Names.Fresh
import Mathlib.Logic.Relation

namespace BlockCode

open Relation BlockCode.Language
open Shell (programIn sessionBehind workspaceIn)

/-- The program that is made from these files in a new session, if there is one. -/
def Watcher.fresh (watcher : Watcher) (files : Files) : Option Product :=
  programIn watcher.language (.new watcher.language) files watcher.workspace

namespace Watching

/-! ## Scenes -/

/-- How far a watch has come that has found the program stale. -/
inductive Turn where
  | over
  /-- The program is about to be made. -/
  | begun
  /-- The program is about to be written. -/
  | made (code : Product)

/-- A watch among changes. -/
structure Scene where
  watching : Watching
  /-- How many changes have not been told yet. -/
  untold : Nat := 0
  turn : Turn := .over
  /-- The files as they stood at first and after each change. -/
  had : List Files

namespace Scene

def files (scene : Scene) : Files := scene.watching.shell.files

/-- A watch begins, and the program counts as stale. -/
def start (shell : Shell) : Scene where
  watching := { shell }
  had := [shell.files]

/-- The scene after the workspace has changed. -/
def changed (scene : Scene) (files : Files) : Scene :=
  { scene with
    watching := { scene.watching with shell := { scene.watching.shell with files } }
    untold := scene.untold + 1
    had := files :: scene.had }

end Scene

/-- What can happen next. Changes and their telling can come at any time. The steps of the watch
come in turn: it takes note that the program will be fresh, makes it, and writes it. -/
inductive Step (watcher : Watcher) : Scene → Scene → Prop
  | change {scene : Scene} {place : List String} {entry : Entry}
      (hplace : scene.files.place (Path.shown watcher.workspace) = .ok place)
      (hentry : entry ≠ .folder) : Step watcher scene (scene.changed (scene.files.set place entry))
  | tell {scene : Scene} {untold : Nat} (h : scene.untold = untold + 1) :
      Step watcher scene { scene with
        watching := (modified watcher (Path.absolute scene.files.here watcher.workspace)
          scene.watching).2
        untold }
  | begin {scene : Scene} (hturn : scene.turn = .over) (hstale : scene.watching.stale = true) :
      Step watcher scene { scene with
        watching := { scene.watching with stale := false }, turn := .begun }
  | fail {scene : Scene} {halt : Halt} {watching : Watching} (hturn : scene.turn = .begun)
      (hrun : inShell (Shell.program watcher.language watcher.workspace) scene.watching =
        (.error halt, watching)) : Step watcher scene { scene with watching, turn := .over }
  | make {scene : Scene} {code : Product} {watching : Watching} (hturn : scene.turn = .begun)
      (hrun : inShell (Shell.program watcher.language watcher.workspace) scene.watching =
        (.ok code, watching)) : Step watcher scene { scene with watching, turn := .made code }
  | write {scene : Scene} {code : Product} (hturn : scene.turn = .made code) :
      Step watcher scene { scene with
        watching := (inShell (Shell.deliver code (some watcher.output)) scene.watching).2
        turn := .over }

/-- What can have happened since a watch has begun in a shell. -/
def Reached (watcher : Watcher) (shell : Shell) (scene : Scene) : Prop :=
  ReflTransGen (Step watcher) (.start shell) scene

/-! ## What the parts of a turn do -/

variable {watcher : Watcher} {s : Watching}

theorem modified_run (watcher : Watcher) (scene : Scene) : ∃ log,
    (modified watcher (Path.absolute scene.files.here watcher.workspace) scene.watching).2 =
      { scene.watching with shell := { scene.watching.shell with log }, stale := true } := by
  obtain ⟨s, -, -, -⟩ := scene
  obtain ⟨log, htell⟩ := Shell.tell_run .info ("Detected changes in " ++ watcher.workspace) s.shell
  refine ⟨log, ?_⟩
  have hinfo : inShell (Shell.info ("Detected changes in " ++ watcher.workspace)) s =
      (.ok (), { s with shell := { s.shell with log } }) := by
    unfold inShell Effect.part Shell.info
    rw [htell]
  unfold modified absolute Scene.files
  rw [Effect.read_bind, if_pos (beq_self_eq_true _), Effect.bind_ok hinfo]
  rfl

theorem program_inShell (watcher : Watcher) (s : Watching) : ∃ result log,
    inShell (Shell.program watcher.language watcher.workspace) s =
        (result, { s with shell := { s.shell with
          log
          session := sessionBehind watcher.language s.shell.session s.shell.files
            watcher.workspace } }) ∧
      result.toOption =
        programIn watcher.language s.shell.session s.shell.files watcher.workspace := by
  obtain ⟨result, log, hrun, hresult⟩ :=
    Shell.program_run watcher.language watcher.workspace s.shell
  refine ⟨result, log, ?_, hresult⟩
  unfold inShell Effect.part
  rw [hrun]

theorem deliver_inShell (watcher : Watcher) {code : Product} {files : Files}
    (h : s.shell.files.write (Path.shown watcher.output) code.written = .ok files) : ∃ log,
    inShell (Shell.deliver code (some watcher.output)) s =
      (Shell.delivery code, { s with shell := { s.shell with files, log } }) := by
  obtain ⟨log, hrun⟩ := Shell.deliver_run h
  refine ⟨log, ?_⟩
  unfold inShell Effect.part
  rw [hrun]

/-! ## A turn without anything between its parts -/

/-- A refresh of the program is one turn, or nothing when the program is not stale. -/
theorem refresh_steps (watcher : Watcher) {scene : Scene} (hturn : scene.turn = .over) :
    ReflTransGen (Step watcher) scene
      { scene with watching := (refresh watcher scene.watching).2 } := by
  obtain ⟨s, untold, turn, had⟩ := scene
  obtain rfl : turn = .over := hturn
  unfold refresh
  rw [Effect.read_bind]
  rcases hstale : s.stale with _ | _
  · exact ReflTransGen.refl
  · simp only [Bool.not_true, Bool.false_eq_true, if_false]
    rw [Effect.change_bind, Effect.attempt_bind]
    have hbegin : Step watcher ⟨s, untold, .over, had⟩
        ⟨{ s with stale := false }, untold, .begun, had⟩ := .begin rfl hstale
    rcases hrun : inShell (Shell.program watcher.language watcher.workspace)
      { s with stale := false } with ⟨halt | code, after⟩
    · have hfail : Step watcher ⟨{ s with stale := false }, untold, .begun, had⟩
          ⟨after, untold, .over, had⟩ := .fail rfl hrun
      cases halt <;> exact (ReflTransGen.single hbegin).tail hfail
    · have hmake : Step watcher ⟨{ s with stale := false }, untold, .begun, had⟩
          ⟨after, untold, .made code, had⟩ := .make rfl hrun
      simp only
      rw [Effect.bind_pure_after]
      exact ((ReflTransGen.single hbegin).tail hmake).tail (.write rfl)

/-- What a refresh says when the work on the program comes to this. -/
def saying : Except Fault Product → Except Halt Bool
  | .ok code => (Shell.delivery code).map fun _ => true
  | .error (.generation _) => .ok false
  | .error fault => .error (.fault fault)

/-- The files behind a refresh when the work on the program comes to this. -/
def leaving (files : Files) (target : List String) : Except Fault Product → Files
  | .ok code => files.set target (.text code.written)
  | .error _ => files

/-- A turn with a workspace that can be opened is one pass, and what it comes to is written, told
or raised. -/
theorem refresh_opened {w : Workspace} {target : List String} (hstale : s.stale = true)
    (hw : workspaceIn s.shell.files watcher.workspace = .ok w)
    (htarget : s.shell.files.place (Path.shown watcher.output) = .ok target)
    (hfile : s.shell.files.at? target ≠ some .folder) : ∃ log, refresh watcher s =
      (saying (watcher.language.product w s.shell.session).1, { s with
        shell := { s.shell with
          files := leaving s.shell.files target (watcher.language.product w s.shell.session).1
          log
          session := { (watcher.language.pass w s.shell.session).2 with notes := [] } }
        stale := false }) := by
  obtain ⟨log, hprogram⟩ := Shell.program_opened watcher.language hw
  have hrun : inShell (Shell.program watcher.language watcher.workspace) { s with stale := false } =
      ((watcher.language.product w s.shell.session).1.mapError Shell.halt, { s with
        shell := { s.shell with
          log, session := { (watcher.language.pass w s.shell.session).2 with notes := [] } }
        stale := false }) := by
    unfold inShell Effect.part
    rw [hprogram]
  unfold refresh
  rw [Effect.read_bind, hstale]
  simp only [Bool.not_true, Bool.false_eq_true, if_false]
  rw [Effect.change_bind, Effect.attempt_bind, hrun]
  rcases (watcher.language.product w s.shell.session).1 with fault | code
  · refine ⟨log, ?_⟩
    cases fault <;> rfl
  · have hwrite : s.shell.files.write (Path.shown watcher.output) code.written =
        .ok (s.shell.files.set target (.text code.written)) := Files.write_ok htarget hfile
    obtain ⟨log', hwritten⟩ := deliver_inShell watcher (s := { s with
      shell := { s.shell with
        log, session := { (watcher.language.pass w s.shell.session).2 with notes := [] } }
      stale := false }) hwrite
    refine ⟨log', ?_⟩
    simp only [Except.mapError, Effect.bind_apply, hwritten, saying, leaving]
    rcases Shell.delivery code with _ | _ <;> rfl

/-- A turn in which a program is made and can be written. -/
theorem refresh_run {code : Product} {target : List String} (hstale : s.stale = true)
    (hcode : programIn watcher.language s.shell.session s.shell.files watcher.workspace = some code)
    (htarget : s.shell.files.place (Path.shown watcher.output) = .ok target)
    (hfile : s.shell.files.at? target ≠ some .folder) : ∃ log, refresh watcher s =
      ((Shell.delivery code).map fun _ => true, { s with
        shell := { s.shell with
          files := s.shell.files.set target (.text code.written)
          log
          session := sessionBehind watcher.language s.shell.session s.shell.files watcher.workspace }
        stale := false }) := by
  unfold programIn at hcode
  unfold sessionBehind
  rcases hw : workspaceIn s.shell.files watcher.workspace with fault | w
  · rw [hw] at hcode
    cases hcode
  · rw [hw] at hcode
    obtain ⟨log, hrun⟩ := refresh_opened hstale hw htarget hfile
    refine ⟨log, hrun.trans ?_⟩
    change (watcher.language.product w s.shell.session).1.toOption = some code at hcode
    rcases hpass : (watcher.language.product w s.shell.session).1 with fault | made
    · rw [hpass] at hcode
      cases hcode
    · rw [hpass] at hcode
      cases hcode
      rfl

variable {shell : Shell} {scene : Scene}

/-- A turn that makes a program, with nothing in between. -/
theorem turned {code : Product} {target : List String} (h : Reached watcher shell scene)
    (hturn : scene.turn = .over) (hstale : scene.watching.stale = true)
    (hcode : programIn watcher.language scene.watching.shell.session scene.files
      watcher.workspace = some code)
    (htarget : scene.files.place (Path.shown watcher.output) = .ok target)
    (hfile : scene.files.at? target ≠ some .folder) :
    ∃ later, Reached watcher shell later ∧ later.turn = .over ∧ later.watching.stale = false ∧
      later.untold = scene.untold ∧ later.files = scene.files.set target (.text code.written) ∧
      later.watching.shell.session = sessionBehind watcher.language scene.watching.shell.session
        scene.files watcher.workspace := by
  obtain ⟨log, hrun⟩ := refresh_run hstale hcode htarget hfile
  have hsteps := refresh_steps watcher hturn
  rw [hrun] at hsteps
  exact ⟨_, h.trans hsteps, hturn, rfl, rfl, rfl, rfl⟩

theorem changed_and_told (entry : Entry) {place : List String} (h : Reached watcher shell scene)
    (hplace : scene.files.place (Path.shown watcher.workspace) = .ok place)
    (hentry : entry ≠ .folder) :
    ∃ later, Reached watcher shell later ∧ later.turn = scene.turn ∧ later.watching.stale = true ∧
      later.untold = scene.untold ∧ later.files = scene.files.set place entry ∧
      later.watching.shell.session = scene.watching.shell.session := by
  have hchange := Step.change hplace hentry
  have htell : Step watcher (scene.changed (scene.files.set place entry)) _ := .tell rfl
  obtain ⟨log, hrun⟩ := modified_run watcher (scene.changed (scene.files.set place entry))
  rw [hrun] at htell
  exact ⟨_, (h.tail hchange).tail htell, rfl, rfl, rfl, rfl, rfl⟩

/-! ## What every step keeps -/

variable {source target : List String} {before : Option Entry} {scene' : Scene}

/-- What is due in these files once nothing is stale and all is told, as far as the turn has
come. -/
def Due (watcher : Watcher) (target : List String) (files : Files) : Turn → Prop
  | .over => ∀ code, watcher.fresh files = some code → files.at? target = some (.text code.written)
  | .begun => True
  | .made code => watcher.fresh files = some code

/-- How things stand in a scene. The workspace is at `source`, the program at `target`, where
`before` stood at first. -/
structure Sound (watcher : Watcher) (source target : List String) (before : Option Entry)
    (scene : Scene) : Prop where
  sourceAt : scene.files.place (Path.shown watcher.workspace) = .ok source
  targetAt : scene.files.place (Path.shown watcher.output) = .ok target
  sourceFile : scene.files.at? source ≠ some .folder
  targetFile : scene.files.at? target ≠ some .folder
  session : Rests watcher.language.reserved scene.watching.shell.session
  /-- The workspace that stands there is one that stood there. -/
  present : ∃ files ∈ scene.had, watcher.fresh files = watcher.fresh scene.files
  made : ∀ code, scene.turn = .made code → ∃ files ∈ scene.had, watcher.fresh files = some code
  written : scene.files.at? target = before ∨ ∃ files ∈ scene.had, ∃ code,
    watcher.fresh files = some code ∧ scene.files.at? target = some (.text code.written)
  /-- Then the workspace has not changed since the watch took note that the program would be
  fresh. -/
  settled : scene.watching.stale = false → scene.untold = 0 →
    Due watcher target scene.files scene.turn

/-- What the program of a workspace comes to depends on the reserved words only. -/
theorem programIn_eq {L : Language} (hrules : L.Unreserving)
    (hforgets : L.config.stableNames.truth = false) {words : List String} {s t : Session}
    (hs : Rests words s) (ht : Rests words t) (files : Files) (path : String) :
    programIn L s files path = programIn L t files path := by
  have hother : (L.showing otherMark).Unreserving := hrules
  unfold programIn
  congr 1
  funext w
  rw [product_fst, product_fst, otherwise?, otherwise?, ht.pass_eq hrules hforgets hs w,
    ht.pass_eq hother hforgets hs (w.showing otherMark)]

theorem fresh_set (hfile : scene.files.at? target ≠ some .folder)
    (hsource : scene.files.place (Path.shown watcher.workspace) = .ok source)
    (hne : source ≠ target) {entry : Entry} :
    watcher.fresh (scene.files.set target entry) = watcher.fresh scene.files := by
  unfold Watcher.fresh programIn workspaceIn
  rw [Files.read_set_ne hfile hsource hne]

namespace Sound

theorem start
    (hsource : shell.files.place (Path.shown watcher.workspace) = .ok source)
    (hsourceFile : shell.files.at? source ≠ some .folder)
    (htarget : shell.files.place (Path.shown watcher.output) = .ok target)
    (htargetFile : shell.files.at? target ≠ some .folder)
    (hsession : Rests watcher.language.reserved shell.session) :
    Sound watcher source target (shell.files.at? target) (.start shell) where
  sourceAt := hsource
  targetAt := htarget
  sourceFile := hsourceFile
  targetFile := htargetFile
  session := hsession
  present := ⟨shell.files, List.mem_singleton_self _, rfl⟩
  made := nofun
  written := Or.inl rfl
  settled := nofun

/-- Work of the shell that changes no files keeps how things stand, as far as the turn allows. -/
theorem worked (h : Sound watcher source target before scene) {log : String} {session : Session}
    (hsession : Rests watcher.language.reserved session) {stale : Bool} {untold : Nat} {turn : Turn}
    (hmade : ∀ code, turn = .made code → ∃ files ∈ scene.had, watcher.fresh files = some code)
    (hsettled : stale = false → untold = 0 → Due watcher target scene.files turn) :
    Sound watcher source target before
      { scene with
        watching := { scene.watching with
          shell := { scene.watching.shell with log, session }, stale }
        untold, turn } where
  sourceAt := h.sourceAt
  targetAt := h.targetAt
  sourceFile := h.sourceFile
  targetFile := h.targetFile
  session := hsession
  present := h.present
  made := hmade
  written := h.written
  settled := hsettled

theorem changed (h : Sound watcher source target before scene) (hne : source ≠ target)
    {entry : Entry} (hentry : entry ≠ .folder) :
    Sound watcher source target before (scene.changed (scene.files.set source entry)) where
  sourceAt := Files.place_set h.sourceFile h.sourceAt
  targetAt := Files.place_set h.sourceFile h.targetAt
  sourceFile := by
    show (scene.files.set source entry).at? source ≠ some .folder
    rw [Files.at?_set_self (Files.ne_nil_of_at? h.sourceFile)]
    exact fun heq => hentry (Option.some.inj heq)
  targetFile := by
    show (scene.files.set source entry).at? target ≠ some .folder
    rw [Files.at?_set_ne hne.symm]
    exact h.targetFile
  session := h.session
  present := ⟨_, List.mem_cons_self, rfl⟩
  made := by
    intro code hcode
    obtain ⟨files, hfiles, hfresh⟩ := h.made code hcode
    exact ⟨files, List.mem_cons_of_mem _ hfiles, hfresh⟩
  written := by
    show (scene.files.set source entry).at? target = before ∨ _
    rw [Files.at?_set_ne hne.symm]
    refine h.written.imp_right ?_
    rintro ⟨files, hfiles, code, hcode⟩
    refine ⟨files, List.mem_cons_of_mem _ hfiles, code, hcode.1, ?_⟩
    show (scene.files.set source entry).at? target = _
    rw [Files.at?_set_ne hne.symm, hcode.2]
  settled := nofun

theorem session_after (h : Sound watcher source target before scene)
    (hrules : watcher.language.Unreserving) : Rests watcher.language.reserved
      (sessionBehind watcher.language scene.watching.shell.session scene.files watcher.workspace) := by
  unfold sessionBehind
  rcases (workspaceIn scene.files watcher.workspace).toOption with _ | w
  · exact h.session
  · have hrests := (Twin.pass_of_begun hrules h.session h.session rfl w).2.rests
    exact ⟨hrests.idle, hrests.reserved⟩

/-- In a session at rest the program comes to what it comes to in a new one. -/
theorem fresh_eq (h : Sound watcher source target before scene)
    (hrules : watcher.language.Unreserving)
    (hforgets : watcher.language.config.stableNames.truth = false) :
    programIn watcher.language scene.watching.shell.session scene.files watcher.workspace =
      watcher.fresh scene.files :=
  programIn_eq hrules hforgets h.session ⟨rfl, rfl⟩ scene.files watcher.workspace

theorem wrote (h : Sound watcher source target before scene) (hne : source ≠ target) {code : Product}
    (hturn : scene.turn = .made code) : Sound watcher source target before
      { scene with
        watching := (inShell (Shell.deliver code (some watcher.output)) scene.watching).2
        turn := .over } := by
  obtain ⟨log, hrun⟩ := deliver_inShell watcher (Files.write_ok h.targetAt h.targetFile)
  rw [hrun]
  have hself : (scene.files.set target (.text code.written)).at? target =
      some (.text code.written) := Files.at?_set_self (Files.ne_nil_of_at? h.targetFile)
  have hfresh : watcher.fresh (scene.files.set target (.text code.written)) =
      watcher.fresh scene.files := fresh_set h.targetFile h.sourceAt hne
  refine {
    sourceAt := Files.place_set h.targetFile h.sourceAt
    targetAt := Files.place_set h.targetFile h.targetAt
    sourceFile := ?_
    targetFile := ?_
    session := h.session
    present := ?_
    made := nofun
    written := ?_
    settled := ?_ }
  · show (scene.files.set target (.text code.written)).at? source ≠ some .folder
    rw [Files.at?_set_ne hne]
    exact h.sourceFile
  · show (scene.files.set target (.text code.written)).at? target ≠ some .folder
    rw [hself]
    nofun
  · obtain ⟨files, hfiles, hsame⟩ := h.present
    exact ⟨files, hfiles, hsame.trans hfresh.symm⟩
  · obtain ⟨files, hfiles, hmade⟩ := h.made code hturn
    exact Or.inr ⟨files, hfiles, code, hmade, hself⟩
  · intro hstale htold code' hcode'
    have hsettled := h.settled hstale htold
    rw [hturn] at hsettled
    have hsame : watcher.fresh scene.files = some code' := hfresh.symm.trans hcode'
    rw [show watcher.fresh scene.files = some code from hsettled] at hsame
    cases hsame
    exact hself

/-- Whatever happens next, things stand in the same way. -/
theorem step (h : Sound watcher source target before scene)
    (hrules : watcher.language.Unreserving)
    (hforgets : watcher.language.config.stableNames.truth = false) (hne : source ≠ target)
    (hstep : Step watcher scene scene') :
    Sound watcher source target before scene' := by
  cases hstep with
  | change hplace hentry =>
    obtain rfl := Except.ok.inj (hplace.symm.trans h.sourceAt)
    exact h.changed hne hentry
  | tell huntold =>
    obtain ⟨log, hrun⟩ := modified_run watcher scene
    rw [hrun]
    exact h.worked h.session h.made nofun
  | begin hturn hstale => exact h.worked h.session nofun fun _ _ => trivial
  | fail hturn hrun =>
    obtain ⟨result, log, hrun', hresult⟩ := program_inShell watcher scene.watching
    rw [hrun] at hrun'
    cases hrun'
    have hnone : watcher.fresh scene.files = none :=
      (h.fresh_eq hrules hforgets).symm.trans hresult.symm
    refine h.worked (h.session_after hrules) nofun fun _ _ code hcode => ?_
    rw [hnone] at hcode
    cases hcode
  | make hturn hrun =>
    rename_i code watching
    obtain ⟨result, log, hrun', hresult⟩ := program_inShell watcher scene.watching
    rw [hrun] at hrun'
    cases hrun'
    have hsome : watcher.fresh scene.files = some code :=
      (h.fresh_eq hrules hforgets).symm.trans hresult.symm
    refine h.worked (h.session_after hrules) ?_ fun _ _ => hsome
    intro code' hcode'
    cases hcode'
    obtain ⟨files, hfiles, hsame⟩ := h.present
    exact ⟨files, hfiles, hsame.trans hsome⟩
  | write hturn => exact h.wrote hne hturn

end Sound

/-! ## What every scene has in common -/

/-- When all is told, nothing is stale and no turn is under way, the program of the workspace as
it stands has been written, unless it has none. And what was written is always the whole program
of a workspace that once stood there. In both places a program with halves leaves the file empty. -/
theorem no_change_lost (h : Reached watcher shell scene) (hrules : watcher.language.Unreserving)
    (hforgets : watcher.language.config.stableNames.truth = false)
    (hsource : shell.files.place (Path.shown watcher.workspace) = .ok source)
    (hsourceFile : shell.files.at? source ≠ some .folder)
    (htarget : shell.files.place (Path.shown watcher.output) = .ok target)
    (htargetFile : shell.files.at? target ≠ some .folder) (hne : source ≠ target)
    (hsession : Rests watcher.language.reserved shell.session) :
    (scene.watching.stale = false → scene.untold = 0 → scene.turn = .over →
      watcher.fresh scene.files = none ∨ ∃ code, watcher.fresh scene.files = some code ∧
        scene.files.read (Path.shown watcher.output) =
          .ok (if code.torn = true then "" else code.text)) ∧
    (scene.files.at? target = shell.files.at? target ∨
      ∃ files ∈ scene.had, ∃ code, watcher.fresh files = some code ∧
        scene.files.read (Path.shown watcher.output) =
          .ok (if code.torn = true then "" else code.text)) := by
  have hsound : Sound watcher source target (shell.files.at? target) scene := by
    induction h with
    | refl => exact .start hsource hsourceFile htarget htargetFile hsession
    | tail _ hstep ih => exact ih.step hrules hforgets hne hstep
  constructor
  · intro hstale htold hturn
    have hsettled := hsound.settled hstale htold
    rw [hturn] at hsettled
    rcases hfresh : watcher.fresh scene.files with _ | code
    · exact Or.inl rfl
    · exact Or.inr ⟨code, rfl, (Files.read_ok_iff hsound.targetAt).mpr (hsettled code hfresh)⟩
  · refine hsound.written.imp_right ?_
    rintro ⟨files, hfiles, code, hfresh, hentry⟩
    exact ⟨files, hfiles, code, hfresh, (Files.read_ok_iff hsound.targetAt).mpr hentry⟩

/-! ### Rules that reserve words -/

/-- Each block declares a variable with an identifier that nothing else has, and the other parts
come behind it. -/
def naming (more : List Part) : Language where
  name := .str "Naming"
  rules := [(.str "v", (Template.code
    (.literal "var " :: .ownIdentifier (.str "x") (.str "variable") :: .literal "\n" :: more)).rule)]

def namedText : String := "\x7b\"blocks\":[\x7b\"type\":\"v\"\x7d]\x7d"

def namedFiles : Files where
  here := "/"
  entries := [(["w.json"], .text namedText)]

def namedWorkspace : Workspace where
  nodes := [{ block := { type := .str "v", id := .str "b1" } }]
  members := [0]

def namingWatcher (more : List Part) : Watcher where
  workspace := "/w.json"
  language := naming more
  output := "/out"

def namedShell (more : List Part) : Shell where
  files := namedFiles
  session := .new (naming more)

theorem place_named (files : Files) : files.place (Path.shown "/w.json") = .ok ["w.json"] := by
  have hshown : Path.shown "/w.json" = "/w.json" := by decide +kernel
  rw [hshown]
  exact files.place_below_root (by decide +kernel) rfl (by decide) rfl (by decide) (by decide)

theorem place_out (files : Files) : files.place (Path.shown "/out") = .ok ["out"] := by
  have hshown : Path.shown "/out" = "/out" := by decide +kernel
  rw [hshown]
  exact files.place_below_root (by decide +kernel) rfl (by decide) rfl (by decide) (by decide)

theorem workspaceIn_named {files : Files} (h : files.at? ["w.json"] = some (.text namedText)) :
    workspaceIn files "/w.json" = .ok namedWorkspace := by
  have hdocument : Json.read (String.ofList (Document.unifyLines namedText.toList)) =
      .ok (.table [(.str "blocks", .list [.table [(.str "type", .str "v")]])]) := by
    have hchars : Document.unifyLines namedText.toList =
        ['{', '"', 'b', 'l', 'o', 'c', 'k', 's', '"', ':', '[', '{', '"', 't', 'y', 'p', 'e', '"',
          ':', '"', 'v', '"', '}', ']', '}'] := rfl
    exact Shell.read_unified hchars (by decide) rfl
  exact (Shell.workspaceIn_of_document (place_named files) h hdocument).trans rfl

theorem programIn_named {files : Files} (h : files.at? ["w.json"] = some (.text namedText))
    (more : List Part) {session : Session} {text : String}
    (hpass : ((naming more).pass namedWorkspace session).1.toOption = some text) :
    programIn (naming more) session files "/w.json" = some { text } := by
  unfold programIn
  rw [workspaceIn_named h]
  show ((naming more).product namedWorkspace session).1.toOption = _
  rw [product_whole rfl rfl]
  rcases hcode : ((naming more).pass namedWorkspace session).1 with fault | code
  · rw [hcode] at hpass
    cases hpass
  · rw [hcode] at hpass
    cases hpass
    rfl

theorem unreserving_naming : (naming []).Unreserving := by
  intro b rule hrule inputs
  unfold Language.ruleFor Language.rule? at hrule
  split at hrule
  · simp only [Except.ok.injEq, Option.map_eq_some_iff] at hrule
    obtain ⟨entry, hfind, rfl⟩ := hrule
    obtain rfl := List.mem_singleton.mp (List.mem_of_find?_eq_some hfind)
    refine ⟨rfl, fun answer => ?_⟩
    cases answer <;> exact trivial
  · cases hrule

theorem pass_naming :
    ((naming []).pass namedWorkspace (.new (naming []))).1.toOption = some "var x\n" := by
  decide +kernel

/-- Rules that reserve no words: after the first turn the program has been written. -/
theorem named_written :
    (naming []).Unreserving ∧ (naming []).config.stableNames.truth = false ∧
      namedFiles.place (Path.shown "/w.json") = .ok ["w.json"] ∧
      namedFiles.at? ["w.json"] ≠ some .folder ∧
      namedFiles.place (Path.shown "/out") = .ok ["out"] ∧
      namedFiles.at? ["out"] ≠ some .folder ∧ ["w.json"] ≠ ["out"] ∧
      Rests (naming []).reserved (.new (naming [])) ∧
      ∃ scene, Reached (namingWatcher []) (namedShell []) scene ∧
        scene.watching.stale = false ∧ scene.untold = 0 ∧ scene.turn = .over ∧
        (namingWatcher []).fresh scene.files = some { text := "var x\n" } ∧
        ((scene.watching.stale = false → scene.untold = 0 → scene.turn = .over →
          (namingWatcher []).fresh scene.files = none ∨ ∃ code,
            (namingWatcher []).fresh scene.files = some code ∧
              scene.files.read (Path.shown "/out") =
                .ok (if code.torn = true then "" else code.text)) ∧
        (scene.files.at? ["out"] = namedFiles.at? ["out"] ∨
          ∃ files ∈ scene.had, ∃ code, (namingWatcher []).fresh files = some code ∧
            scene.files.read (Path.shown "/out") =
              .ok (if code.torn = true then "" else code.text))) := by
  have hsession : Rests (naming []).reserved (.new (naming [])) := ⟨rfl, rfl⟩
  have hsource : namedFiles.at? ["w.json"] ≠ some .folder := by decide
  have htarget : namedFiles.at? ["out"] ≠ some .folder := by decide
  have hne : ["w.json"] ≠ ["out"] := by decide
  have hstart : Reached (namingWatcher []) (namedShell []) (.start (namedShell [])) := .refl
  have hcode : programIn (naming []) (.new (naming [])) namedFiles "/w.json" =
      some { text := "var x\n" } := programIn_named rfl [] pass_naming
  obtain ⟨scene, hreached, hturn, hstale, huntold, hfiles, -⟩ :=
    turned hstart rfl rfl hcode (place_out namedFiles) htarget
  have hfresh : (namingWatcher []).fresh scene.files = some { text := "var x\n" } := by
    rw [hfiles]
    refine programIn_named ?_ [] pass_naming
    rw [Files.at?_set_ne hne]
    rfl
  exact ⟨unreserving_naming, rfl, place_named namedFiles, hsource, place_out namedFiles, htarget,
    hne, hsession, scene, hreached, hstale, huntold, hturn, hfresh, no_change_lost hreached
      unreserving_naming rfl (place_named namedFiles) hsource (place_out namedFiles) htarget hne
      hsession⟩

/-- The identifier is reserved while the program is made. -/
def hoarding : List Part := [.reserve (.str "x")]

theorem sessionBehind_hoarding :
    sessionBehind (naming hoarding) (.new (naming hoarding)) namedFiles "/w.json" =
      { ((naming hoarding).pass namedWorkspace (.new (naming hoarding))).2 with notes := [] } := by
  unfold sessionBehind
  rw [workspaceIn_named rfl]
  rfl

/-- The line of the block, with nothing for the part that reserves. -/
def varLine (identifier : String) : String := String.join ["var ", identifier, "\n", ""]

theorem pass_hoarding (session : Session) (h : session.running = false) :
    ((naming hoarding).pass namedWorkspace session).1 = .ok (Text.clean (joinSections
      [varLine (fresh (session.begun (naming hoarding)).names.inUse "x")])) := by
  have hsection : ∃ after, (naming hoarding).section? (fun _ => (naming hoarding).refuse)
      (.cons { type := .str "v", id := .str "b1" } .nil .nil)
      ((naming hoarding).opened namedWorkspace session) =
        (.ok (some (varLine (fresh (session.begun (naming hoarding)).names.inUse "x"))), after) ∧
      after.pass.helpers = [] := by
    have hbase : plainIdentifier "x" = "x" := by decide +kernel
    rw [← hbase, ← String.empty_append (s := varLine _),
      ← String.append_empty (s := "" ++ varLine _)]
    exact ⟨_, rfl, rfl⟩
  obtain ⟨after, hcode, hhelpers⟩ := hsection
  have hwritten : (naming hoarding).written (fun _ => (naming hoarding).refuse) namedWorkspace.trees
      ((naming hoarding).opened namedWorkspace session) =
        (.ok [varLine (fresh (session.begun (naming hoarding)).names.inUse "x")], after) := by
    have htrees : namedWorkspace.trees =
        [.cons { type := .str "v", id := .str "b1" } .nil .nil] := rfl
    rw [htrees, written_cons, Effect.bind_ok hcode]
    rfl
  refine (pass_ok_iff h).mpr ⟨_, after, hwritten, ?_⟩
  unfold Session.withDefinitions
  rw [hhelpers]
  rfl

theorem pass_hoarding_first :
    ((naming hoarding).pass namedWorkspace (.new (naming hoarding))).1.toOption =
      some "var x\n" := by
  decide +kernel

theorem pass_hoarding_again : ((naming hoarding).pass namedWorkspace
    { ((naming hoarding).pass namedWorkspace (.new (naming hoarding))).2 with
      notes := [] }).1.toOption = some "var x2\n" := by
  set first := ((naming hoarding).pass namedWorkspace (.new (naming hoarding))).2 with hfirst
  have hidle : first.running = false := running_pass _ _ _ rfl
  have hused :
      (Session.begun (naming hoarding) { first with notes := [] }).names.inUse = ["x"] := by
    decide +kernel
  have hfresh : fresh ["x"] "x" = "x2" := by
    refine fresh_eq_candidate (k := 1) (by decide +kernel) fun i hi => ?_
    obtain rfl : i = 0 := by omega
    exact List.mem_singleton_self _
  have hline : Text.clean (joinSections [varLine "x2"]) = "var x2\n" := by decide +kernel
  rw [pass_hoarding { first with notes := [] } hidle, hused, hfresh, hline]
  rfl

/-- A rule that reserves a word: the workspace is written again as it was, the change is told, and
the next turn makes another program than a new session would. -/
theorem hoarded_word_outdates :
    (naming hoarding).config.stableNames.truth = false ∧
      namedFiles.place (Path.shown "/w.json") = .ok ["w.json"] ∧
      namedFiles.at? ["w.json"] ≠ some .folder ∧
      namedFiles.place (Path.shown "/out") = .ok ["out"] ∧
      namedFiles.at? ["out"] ≠ some .folder ∧ ["w.json"] ≠ ["out"] ∧
      Rests (naming hoarding).reserved (.new (naming hoarding)) ∧
      ∃ scene, Reached (namingWatcher hoarding) (namedShell hoarding) scene ∧
        scene.watching.stale = false ∧ scene.untold = 0 ∧ scene.turn = .over ∧
        (namingWatcher hoarding).fresh scene.files = some { text := "var x\n" } ∧
        scene.files.read (Path.shown "/out") = .ok "var x2\n" := by
  have hsource : namedFiles.at? ["w.json"] ≠ some .folder := by decide
  have htarget : namedFiles.at? ["out"] ≠ some .folder := by decide
  have hne : ["w.json"] ≠ ["out"] := by decide
  have hstart : Reached (namingWatcher hoarding) (namedShell hoarding)
      (.start (namedShell hoarding)) := .refl
  have hcode : programIn (naming hoarding) (.new (naming hoarding)) namedFiles "/w.json" =
      some { text := "var x\n" } := programIn_named rfl hoarding pass_hoarding_first
  obtain ⟨first, hreached, hturn, -, huntold, hfiles, hsession⟩ :=
    turned hstart rfl rfl hcode (place_out namedFiles) htarget
  obtain ⟨told, hreached, hturn', hstale, huntold', hfiles', hsession'⟩ :=
    changed_and_told (.text namedText) hreached (place_named _) nofun
  have hnamed : told.files.at? ["w.json"] = some (.text namedText) := by
    rw [hfiles', Files.at?_set_self (by decide)]
  have htarget' : told.files.at? ["out"] ≠ some .folder := by
    rw [hfiles', Files.at?_set_ne hne.symm, hfiles, Files.at?_set_self (by decide)]
    nofun
  have hcode' : programIn (naming hoarding) told.watching.shell.session told.files "/w.json" =
      some { text := "var x2\n" } := by
    have hbehind : told.watching.shell.session =
        { ((naming hoarding).pass namedWorkspace (.new (naming hoarding))).2 with notes := [] } :=
      hsession'.trans (hsession.trans sessionBehind_hoarding)
    rw [hbehind]
    exact programIn_named hnamed hoarding pass_hoarding_again
  obtain ⟨last, hreached, hturn'', hstale', huntold'', hfiles'', -⟩ :=
    turned hreached (hturn'.trans hturn) hstale hcode' (place_out _) htarget'
  refine ⟨rfl, place_named _, hsource, place_out _, htarget, hne, ⟨rfl, rfl⟩, last, hreached,
    hstale', huntold''.trans (huntold'.trans huntold), hturn'', ?_, ?_⟩
  · refine programIn_named ?_ hoarding pass_hoarding_first
    rw [hfiles'', Files.at?_set_ne hne, hnamed]
  · rw [Files.read_ok_iff (place_out _), hfiles'', Files.at?_set_self (by decide)]
    rfl

/-! ### Programs with halves -/

def tornText : String :=
  "\x7b\"blocks\":[\x7b\"type\":\"v\",\"comment\":\"\\ud800\"\x7d]\x7d"

def tornFiles : Files where
  here := "/"
  entries := [(["w.json"], .text tornText)]

def tornWorkspace : Workspace where
  nodes := [{
    block := {
      type := .str "v", id := .str "b1", comment := .torn { signs := [.half 0], torn := rfl } } }]
  members := [0]

theorem programIn_torn {files : Files} (h : files.at? ["w.json"] = some (.text tornText)) :
    programIn (naming []) (.new (naming [])) files "/w.json" =
      some { text := "# \ufffd\nvar x\n", torn := true } := by
  have hdocument : Json.read (String.ofList (Document.unifyLines tornText.toList)) =
      .ok (.table [(.str "blocks", .list [.table [(.str "type", .str "v"),
        (.str "comment", .torn { signs := [.half 0], torn := rfl })]])]) := by
    have hchars : Document.unifyLines tornText.toList =
        ['{', '"', 'b', 'l', 'o', 'c', 'k', 's', '"', ':', '[', '{', '"', 't', 'y', 'p', 'e', '"',
          ':', '"', 'v', '"', ',', '"', 'c', 'o', 'm', 'm', 'e', 'n', 't', '"', ':', '"', '\\', 'u',
          'd', '8', '0', '0', '"', '}', ']', '}'] := rfl
    exact Shell.read_unified hchars (by decide) rfl
  have hw : workspaceIn files "/w.json" = .ok tornWorkspace :=
    (Shell.workspaceIn_of_document (place_named files) h hdocument).trans rfl
  unfold programIn
  rw [hw]
  show ((naming []).product tornWorkspace (.new (naming []))).1.toOption = _
  decide +kernel

/-- A comment with a half: the program has been made and the file has been emptied. -/
theorem torn_comment_empties :
    (naming []).Unreserving ∧ (naming []).config.stableNames.truth = false ∧
      ∃ scene, Reached (namingWatcher []) { files := tornFiles, session := .new (naming []) } scene ∧
        scene.watching.stale = false ∧ scene.untold = 0 ∧ scene.turn = .over ∧
        (namingWatcher []).fresh scene.files =
          some { text := "# \ufffd\nvar x\n", torn := true } ∧
        scene.files.read (Path.shown "/out") = .ok "" := by
  have htarget : tornFiles.at? ["out"] ≠ some .folder := by decide
  have hne : ["w.json"] ≠ ["out"] := by decide
  have hstart : Reached (namingWatcher []) { files := tornFiles, session := .new (naming []) }
      (.start { files := tornFiles, session := .new (naming []) }) := .refl
  obtain ⟨scene, hreached, hturn, hstale, huntold, hfiles, -⟩ :=
    turned hstart rfl rfl (programIn_torn rfl) (place_out tornFiles) htarget
  refine ⟨unreserving_naming, rfl, scene, hreached, hstale, huntold, hturn, ?_, ?_⟩
  · rw [hfiles]
    refine programIn_torn ?_
    rw [Files.at?_set_ne hne]
    rfl
  · rw [Files.read_ok_iff (place_out _), hfiles, Files.at?_set_self (by decide)]
    rfl

end Watching

end BlockCode
