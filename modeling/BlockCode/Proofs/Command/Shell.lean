-- What the steps of commands do to their shell. What is told goes to the log only; the output,
-- the files and the session change where a step says so, and nowhere else.
import BlockCode.Command.Run
import BlockCode.Proofs.Command.Files
import BlockCode.Proofs.Generation.Outcome

namespace BlockCode

namespace Effect

variable {σ ε α β : Type}

theorem read_bind (f : σ → α) (g : α → Effect σ ε β) (s : σ) : (read f >>= g) s = g (f s) s := rfl

theorem change_bind (f : σ → σ) (g : Unit → Effect σ ε β) (s : σ) :
    (change f >>= g) s = g () (f s) := rfl

theorem attempt_bind (x : Effect σ ε α) (f : Except ε α → Effect σ ε β) (s : σ) :
    (attempt x >>= f) s = f (x s).1 (x s).2 := rfl

theorem bind_pure_after (x : Effect σ ε α) (b : β) (s : σ) :
    ((x >>= fun _ => (Pure.pure b : Effect σ ε β)) s).2 = (x s).2 := by
  rw [bind_apply]
  rcases x s with ⟨_ | a, s'⟩ <;> rfl

/-- The first part of the work comes to a result, and the rest goes on from there. -/
theorem forM_cons_ok (f : α → Effect σ ε Unit) {a : α} {rest : List α} {s s' : σ}
    (h : f a s = (.ok (), s')) : (a :: rest).forM f s = rest.forM f s' := by
  have hcons : (a :: rest).forM f = (f a >>= fun _ => rest.forM f) := List.forM_cons
  rw [hcons, bind_ok h]

end Effect

namespace Shell

variable {s : Shell} {L : Language} {w : Workspace} {path text : String}

/-! ## Telling -/

theorem tell_run (level : Level) (message : String) (s : Shell) :
    ∃ log, tell level message s = (.ok (), { s with log }) := by
  unfold tell Effect.change
  simp only
  split
  · exact ⟨s.log, rfl⟩
  · exact ⟨_, rfl⟩

theorem failWith_run {α : Type} (message : String) (s : Shell) :
    ∃ log, (failWith message : ShellWork α) s = (.error .told, { s with log }) := by
  obtain ⟨log, htell⟩ := tell_run .error message s
  exact ⟨log, by rw [failWith, Effect.bind_apply, htell]; rfl⟩

theorem tellAll_run (notes : List Note) (s : Shell) :
    ∃ log, (notes.forM fun note => tell .debug note.text) s = (.ok (), { s with log }) := by
  induction notes generalizing s with
  | nil => exact ⟨s.log, rfl⟩
  | cons note rest ih =>
    obtain ⟨log, hfirst⟩ := tell_run .debug note.text s
    obtain ⟨log', hrest⟩ := ih { s with log }
    refine ⟨log', ?_⟩
    exact (Effect.forM_cons_ok (fun note : Note => tell .debug note.text) hfirst).trans hrest

/-! ## Languages and workspaces -/

theorem openLanguage_run {library : Library} {name : String}
    (h : library.language s.files name = .ok L) :
    ∃ log, openLanguage library name s = (.ok L, { s with log, session := .new L }) := by
  obtain ⟨log, hinfo⟩ := tell_run .info
    ("Using " ++ L.title ++ " generator with " ++ toString L.rules.length ++ " rules")
    { s with session := .new L }
  refine ⟨log, ?_⟩
  unfold openLanguage
  rw [Effect.read_bind, h]
  simp only
  rw [Effect.change_bind]
  exact Effect.bind_ok hinfo

/-- The workspace in a file, if it can be read. -/
def workspaceIn (files : Files) (path : String) : Except Fault Workspace := do
  Document.loadText (Path.fileName path) (← files.read (Path.shown path))

theorem workspaceIn_of_read {files : Files} (hread : files.read (Path.shown path) = .ok text) :
    workspaceIn files path = Document.loadText (Path.fileName path) text := by
  unfold workspaceIn
  rw [hread]
  rfl

/-- A text is read by its characters, once its lines end alike. -/
theorem read_unified {document : Value} {chars : List Char}
    (hchars : Document.unifyLines text.toList = chars) (hfirst : chars.head? ≠ some '\ufeff')
    (hscan : Json.scanDocument chars = .ok document) :
    Json.read (String.ofList (Document.unifyLines text.toList)) = .ok document := by
  unfold Json.read
  rw [String.toList_ofList, hchars]
  simp only [beq_iff_eq, hfirst, if_false, hscan]

/-- A file with the text of a document holds the workspace that the document describes. -/
theorem workspaceIn_of_document {files : Files} {place : List String} {document : Value}
    (hplace : files.place (Path.shown path) = .ok place)
    (htext : files.at? place = some (.text text))
    (hdocument : Json.read (String.ofList (Document.unifyLines text.toList)) = .ok document) :
    workspaceIn files path = Document.load document := by
  have hread : files.read (Path.shown path) = .ok text := (Files.read_ok_iff hplace).mpr htext
  rw [workspaceIn_of_read hread]
  unfold Document.loadText Document.parse
  simp only [hdocument]
  rfl

theorem openWorkspace_run (path : String) (s : Shell) : ∃ result log,
    openWorkspace path s = (result, { s with log }) ∧
      result.toOption = (workspaceIn s.files path).toOption := by
  rcases hread : s.files.read (Path.shown path) with fault | text
  · have hnone : (workspaceIn s.files path).toOption = none := by
      unfold workspaceIn
      rw [hread]
      rfl
    rw [hnone]
    rcases hreason : unreadable? fault with _ | reason
    · refine ⟨.error (.fault fault), s.log, ?_, rfl⟩
      simp only [openWorkspace, Effect.read_bind, hread, hreason]
      rfl
    · obtain ⟨log, hfail⟩ :=
        failWith_run (α := Workspace) ("Failed to read workspace: " ++ reason) s
      refine ⟨.error .told, log, ?_, rfl⟩
      simp only [openWorkspace, Effect.read_bind, hread, hreason]
      exact hfail
  · rw [workspaceIn_of_read hread]
    rcases hload : Document.loadText (Path.fileName path) text with fault | w
    · have hfails : ∃ halt log, openWorkspace path s = (.error halt, { s with log }) := by
        simp only [openWorkspace, Effect.read_bind, hread, hload]
        cases fault with
        | format e => exact ⟨.told, failWith_run ("Invalid workspace: " ++ e.text) s⟩
        | _ => exact ⟨_, s.log, rfl⟩
      obtain ⟨halt, log, hrun⟩ := hfails
      exact ⟨.error halt, log, hrun, rfl⟩
    · obtain ⟨log, htell⟩ := tell_run .debug (Note.loaded w.size (Path.shown path)).text s
      refine ⟨.ok w, log, ?_, rfl⟩
      simp only [openWorkspace, Effect.read_bind, hread, hload]
      exact Effect.bind_ok htell

theorem openWorkspace_ok (h : workspaceIn s.files path = .ok w) :
    ∃ log, openWorkspace path s = (.ok w, { s with log }) := by
  obtain ⟨result, log, hrun, hresult⟩ := openWorkspace_run path s
  rw [h] at hresult
  cases result with
  | error halt => cases hresult
  | ok v =>
    cases hresult
    exact ⟨log, hrun⟩

/-! ## Programs -/

theorem inSession_run {α : Type} (action : Action α) (s : Shell) : ∃ log, inSession action s =
    (.ok (action s.session).1,
      { s with log, session := { (action s.session).2 with notes := [] } }) := by
  obtain ⟨log, htold⟩ := tellAll_run (action s.session).2.notes.reverse
    { s with session := { (action s.session).2 with notes := [] } }
  refine ⟨log, ?_⟩
  unfold inSession
  rw [Effect.read_bind]
  simp only
  rw [Effect.change_bind]
  have hnotes : tellNotes { s with session := (action s.session).2 } =
      (.ok (), { s with log, session := { (action s.session).2 with notes := [] } }) := by
    unfold tellNotes
    rw [Effect.read_bind, Effect.change_bind]
    exact htold
  exact Effect.bind_ok hnotes

/-- What the program of the workspace in a file comes to in a session, if it comes to anything. -/
def programIn (L : Language) (session : Session) (files : Files) (path : String) : Option Product :=
  (workspaceIn files path).toOption.bind fun w => (L.product w session).1.toOption

/-- The session behind the work on a program. Nothing happens to it when there is no workspace. -/
def sessionBehind (L : Language) (session : Session) (files : Files) (path : String) : Session :=
  match (workspaceIn files path).toOption with
  | none => session
  | some w => { (L.pass w session).2 with notes := [] }

/-- How a fault of a pass ends a command: one of generation is told before. -/
def halt : Fault → Halt
  | .generation _ => .told
  | fault => .fault fault

/-- The program of a workspace that can be opened is made by one pass in the session. -/
theorem program_opened (L : Language) (hw : workspaceIn s.files path = .ok w) : ∃ log,
    program L path s = ((L.product w s.session).1.mapError halt,
      { s with log, session := { (L.pass w s.session).2 with notes := [] } }) := by
  obtain ⟨log, hopen⟩ := openWorkspace_ok hw
  obtain ⟨log', hpass⟩ := inSession_run (L.product w) { s with log }
  unfold program
  rw [Effect.bind_ok hopen, Effect.bind_ok hpass]
  rcases (L.product w s.session).1 with fault | code
  · cases fault with
    | generation e =>
      obtain ⟨last, hfail⟩ := failWith_run (α := Product) ("Generation error: " ++ e.text)
        { s with log := log', session := { (L.pass w s.session).2 with notes := [] } }
      exact ⟨last, hfail⟩
    | _ => exact ⟨log', rfl⟩
  · exact ⟨log', rfl⟩

theorem program_run (L : Language) (path : String) (s : Shell) : ∃ result log,
    program L path s =
        (result, { s with log, session := sessionBehind L s.session s.files path }) ∧
      result.toOption = programIn L s.session s.files path := by
  rcases hw : workspaceIn s.files path with fault | w
  · obtain ⟨opened, log, hopen, hopened⟩ := openWorkspace_run path s
    rw [hw] at hopened
    unfold program programIn sessionBehind
    rw [hw, Effect.bind_apply, hopen]
    cases opened with
    | error halt => exact ⟨.error halt, log, rfl, rfl⟩
    | ok w => cases hopened
  · obtain ⟨log, hrun⟩ := program_opened L hw
    unfold programIn sessionBehind
    rw [hw]
    refine ⟨_, log, hrun, ?_⟩
    show _ = (L.product w s.session).1.toOption
    cases (L.product w s.session).1 <;> rfl

/-- How the writing of a program into a file ends. -/
def delivery (p : Product) : Except Halt Unit := if p.torn then .error (.fault .notBytes) else .ok ()

theorem deliver_run {p : Product} {files : Files}
    (h : s.files.write (Path.shown path) p.written = .ok files) :
    ∃ log, deliver p (some path) s = (delivery p, { s with files, log }) := by
  obtain ⟨log, hbefore⟩ := tell_run .info
    ("Writing generated code to " ++ Path.shown path ++ "...") s
  obtain ⟨log', hbehind⟩ := tell_run .info ("Generated code written to " ++ Path.shown path)
    { s with files, log }
  unfold deliver delivery info
  simp only
  rw [Effect.bind_ok hbefore, Effect.read_bind]
  simp only [h]
  rw [Effect.change_bind]
  rcases p.torn with _ | _
  · exact ⟨log', hbehind⟩
  · exact ⟨log, rfl⟩

end Shell

end BlockCode
