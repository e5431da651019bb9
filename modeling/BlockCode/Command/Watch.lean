-- Watching a workspace. A change of its file makes the program stale; a stale
-- program is written again at the next look. A workspace that cannot be read, or
-- has no program, is told, and the watch goes on.
import BlockCode.Command.Shell
import BlockCode.Number.Shortest

namespace BlockCode

/-- What a watch is about. -/
structure Watcher where
  workspace : String
  language : Language
  output : String

/-- The calls by which a watch deals with its surroundings. -/
inductive Call where
  /-- Asks for news of a folder. -/
  | schedule (folder : String)
  | start
  /-- Waits. The files are shown as they stand when the waiting begins. -/
  | sleep (interval : Number.Binary64) (shown : List (String × Option String))
  | stop
  | join
deriving Repr

/-- What happens while a watch waits: files are written, and changes are told. -/
structure Tick where
  writes : List (String × String) := []
  modified : List String := []
deriving Repr

structure Watching where
  shell : Shell
  /-- The workspace may have changed since the program was written. -/
  stale : Bool := true
  /-- The calls so far, the last first. -/
  calls : List Call := []

/-- Work in a watch. -/
abbrev WatchWork := Effect Watching Halt

namespace Watching

def inShell {α : Type} (work : ShellWork α) : WatchWork α :=
  Effect.part (·.shell) (fun shell s => { s with shell }) work

def call (c : Call) : WatchWork Unit := Effect.change fun s => { s with calls := c :: s.calls }

/-- The path from the root on, in the folder of the shell. -/
def absolute (path : String) : WatchWork String :=
  Effect.read fun s => Path.absolute s.shell.files.here path

/-- Takes note of a change in a file. -/
def modified (watcher : Watcher) (path : String) : WatchWork Unit := do
  if path == (← absolute watcher.workspace) then
    inShell (Shell.info ("Detected changes in " ++ watcher.workspace))
    Effect.change fun s => { s with stale := true }

/-- Writes the program again if it may be stale, and says whether it did. -/
def refresh (watcher : Watcher) : WatchWork Bool := do
  if !(← Effect.read (·.stale)) then return false
  Effect.change fun s => { s with stale := false }
  match ← (inShell (Shell.program watcher.language watcher.workspace)).attempt with
  | .error .told => return false
  | .error (.fault fault) => Effect.fail (.fault fault)
  | .ok code =>
    inShell (Shell.deliver code (some watcher.output))
    return true

/-- The files of these names, as they stand. -/
def show? (names : List String) : WatchWork (List (String × Option String)) :=
  Effect.read fun s => names.map fun name => (name, (s.shell.files.read name).toOption)

/-- Lets pass what happens in a tick. -/
def elapse (watcher : Watcher) (tick : Tick) : WatchWork Unit := do
  Effect.change fun s =>
    let files := tick.writes.foldl
      (fun files (name, content) => (files.write name content).toOption.getD files) s.shell.files
    { s with shell := { s.shell with files } }
  let here ← Effect.read (·.shell.files.here)
  tick.modified.forM fun name => modified watcher (Path.joined here name)

/-- Looks and waits by turns, until the watch is interrupted after the last tick. -/
def rounds (watcher : Watcher) (interval : Number.Binary64) (names : List String) :
    List Tick → WatchWork Unit
  | [] => do
    let _ ← refresh watcher
    call (.sleep interval (← show? names))
  | tick :: rest => do
    let _ ← refresh watcher
    call (.sleep interval (← show? names))
    elapse watcher tick
    rounds watcher interval names rest

/-- How long a watch waits, in whole milliseconds. Less than nothing is nothing. -/
def milliseconds : Number.Binary64 → Nat
  | .finite false m e => if e < 0 then m * 1000 / Nat.pow 2 (-e).toNat
    else m * 1000 * Nat.pow 2 e.toNat
  | _ => 0

/-- The whole command: watches a workspace during some ticks. -/
def watch (library : Library) (workspace language output : String) (interval : Number.Binary64)
    (names : List String) (ticks : List Tick) : WatchWork Unit := do
  let L ← inShell (Shell.openLanguage library language)
  let path ← absolute workspace
  call (.schedule (Path.folderOf path))
  call .start
  inShell (Shell.info ("Watching " ++ workspace ++ " (Ctrl+C to stop)..."))
  let result ← (rounds { workspace := path, language := L, output } interval names ticks).attempt
  if let .ok () := result then inShell (Shell.info "Keyboard interrupt received, stopping...")
  call .stop
  call .join
  Effect.lift result

end Watching
end BlockCode
