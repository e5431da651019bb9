-- Passes. A pass makes the program of a workspace: the code of its top blocks, the
-- definitions of the helpers that they asked for before it, and no white space
-- that nobody sees. While a pass runs, no other can begin in the same session.
import BlockCode.Generation.Code

namespace BlockCode.Language

/-- The code of a top block and of all that hangs on it, or nothing. -/
def section? (L : Language) (nested : Workspace → Action String) (top : Chain) :
    Action (Option String) := do
  let text := (← L.codeOf nested true top).text
  if text == "" then return none
  if top.head?.any (·.givesValue) then return some (← Effect.lift (L.standing text))
  return some text

/-- The sections of a program, each on lines of its own. -/
def joinSections (sections : List String) : String :=
  Text.joinLines (sections.map Text.dropNewline)

/-- The work of a pass, when no other runs. -/
def passBody (L : Language) (nested : Workspace → Action String) (w : Workspace) :
    Action String := do
  Effect.change fun s => { s with pass := s.begun L }
  let tops := w.trees
  Session.tell [.passBegun L.title tops.length]
  let sections ← tops.mapM (L.section? nested)
  let body := joinSections (sections.filterMap id)
  let code ← Effect.read fun s => Text.clean (s.withDefinitions body)
  let pass ← Effect.read (·.pass)
  Session.tell [.passEnded (Text.lineCount code) pass.handled pass.helpers.length]
  return code

/-- A pass inside another is refused, whatever its workspace. -/
def refuse {α : Type} (L : Language) : Action α :=
  Effect.fail (.generation (.reentrantPass L.title))

/-- Lets work be done only when no pass runs, and marks that one runs meanwhile. -/
def guarded {α : Type} (L : Language) (work : Action α) : Action α := fun s =>
  if s.running then L.refuse s
  else
    let (result, s) := work { s with running := true }
    (result, { s with running := false })

/-- The program of a workspace. -/
def pass (L : Language) (w : Workspace) : Action String :=
  L.guarded (L.passBody (fun _ => L.refuse) w)

theorem pass_running (L : Language) (w : Workspace) (s : Session) (h : s.running = true) :
    L.pass w s = (.error (.generation (.reentrantPass L.title)), s) := by
  simp [pass, guarded, h, refuse, Effect.fail]

theorem running_pass (L : Language) (w : Workspace) (s : Session) (h : s.running = false) :
    (L.pass w s).2.running = false := by
  simp [pass, guarded, h]

/-! ## Blocks outside a pass -/

/-- The code of one block of a workspace and of the chain behind it. -/
def codeAt (L : Language) (w : Workspace) (h : Nat) : Action Code :=
  L.codeOf L.pass (w.parent? h).isNone (w.tree h)

/-- The inputs of a block of a workspace. -/
def plugsAt (L : Language) (w : Workspace) (h : Nat) : List Plug :=
  match w.tree h with
  | .nil => []
  | .cons _ inputs _ => L.plugs L.pass inputs

/-- The expression in an input of a block. -/
def valueAt (L : Language) (w : Workspace) (h : Nat) (input order : Value) : Action String :=
  L.plugged ((w.block? h).getD {}) (L.plugsAt w h) input order

/-- The indented statements in an input of a block. -/
def statementsAt (L : Language) (w : Workspace) (h : Nat) (input : Value) : Action String :=
  L.nestedStatements (L.plugsAt w h) input

end BlockCode.Language
