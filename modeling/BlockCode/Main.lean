-- The program. It reads its files from the disk, lets a command work on them, and
-- writes to the disk, the output and the log what the command made.
import BlockCode.Command.Clock
import BlockCode.Command.Line
import BlockCode.Command.Run
import BlockCode.Command.Watch
import BlockCode.Language.Python
import Std.Time.DateTime

namespace BlockCode.Program

/-- What stands at a path on the disk. -/
def entryAt (path : String) : IO (Option Entry) := do
  match ← (IO.FS.readBinFile path).toBaseIO with
  | .ok bytes =>
    match Document.decode bytes with
    | .ok text => return some (.text text)
    | .error _ => return some .binary
  | .error (.inappropriateType ..) => return some .folder
  | .error _ => return none

/-- The entries on the way to a place, and at it. -/
def entriesTo (place : List String) : IO (List (List String × Entry)) := do
  let places := (List.range place.length).map fun n => place.take (n + 1)
  let found ← places.mapM fun place => do
    return (← entryAt ("/" ++ "/".intercalate place)).map fun entry => (place, entry)
  return found.filterMap id

/-- The files of some paths, as they stand on the disk. -/
def filesOf (paths : List String) : IO Files := do
  let here := (← IO.currentDir).toString
  let places := paths.map fun path => Path.names (Path.absolute here path)
  let entries ← (Path.names here :: places).mapM entriesTo
  return { here, entries := entries.flatten }

/-- The paths that a command names. -/
def pathsOf : Command → List String
  | .generate workspace language output _ => [workspace, language] ++ output.toList
  | .check workspace language => [workspace, language]
  | .rules language => [language]
  | .watch workspace language output _ => [workspace, language, output]
  | .help => []

def environment : IO Environment := do
  let names := ["BLOCKGEN_INDENT", "BLOCKGEN_COMMENT_PREFIX", "BLOCKGEN_STABLE_NAMES"]
  let found ← names.mapM fun name => do return (← IO.getEnv name).map fun text => (name, text)
  return found.filterMap id

/-- The languages that come with the program. -/
def library : IO Library := do
  return { modules := [("python", [("generator", Language.python (.ofEnvironment (← environment)))])] }

/-- Writes what a command made. -/
def deliver (before : Files) (shell : Shell) : IO Unit := do
  for (place, entry) in shell.files.entries do
    if before.entries.lookup place != some entry then
      if let .text content := entry then
        IO.FS.writeFile ("/" ++ "/".intercalate place) content
  IO.print shell.out
  IO.eprint shell.log

/-- Ends as the command ended. -/
def exitCode {α : Type} : Except Halt α → IO UInt32
  | .ok _ => return 0
  | .error .told => return 1
  | .error (.fault fault) => do
    IO.eprintln (repr fault)
    return 1

/-- Looks and waits for ever. -/
partial def rounds (watcher : Watcher) (wait : Nat) (s : Watching) : IO UInt32 := do
  let before := s.shell.files
  let (r, s) := Watching.refresh watcher s
  deliver before s.shell
  if let .error _ := r then return ← exitCode r
  IO.sleep (UInt32.ofNat (min wait 4294967295))
  let files ← filesOf [watcher.workspace, watcher.output]
  let changed := files.read watcher.workspace |>.toOption
  let shell := { s.shell with files, out := "", log := "" }
  let s := { s with shell }
  if changed != (before.read watcher.workspace).toOption then
    rounds watcher wait ((Watching.modified watcher watcher.workspace s).2)
  else rounds watcher wait s

def run (invocation : Invocation) : IO UInt32 := do
  let files ← filesOf (pathsOf invocation.command)
  let shell : Shell := { files, verbose := invocation.verbose }
  let library ← library
  let finish := fun (work : ShellWork Unit) => do
    let (r, shell) := work shell
    deliver files shell
    exitCode r
  match invocation.command with
  | .generate workspace language output format =>
    let seconds := (← Std.Time.Timestamp.now).toSecondsSinceUnixEpoch.val.toNat
    finish (Shell.generate library (Clock.text seconds) workspace language output format)
  | .check workspace language => finish (Shell.check library workspace language)
  | .rules language => finish (Shell.rules library language)
  | .help => finish (Shell.say Shell.usage)
  | .watch workspace language output interval =>
    let (r, shell) := Shell.openLanguage library language shell
    match r with
    | .error _ =>
      deliver files shell
      exitCode r
    | .ok L =>
      let path := Path.absolute files.here workspace
      let told := Shell.info ("Watching " ++ workspace ++ " (Ctrl+C to stop)...") shell
      rounds { workspace := path, language := L, output } (Watching.milliseconds interval)
        { shell := told.2 }

end BlockCode.Program

def main (args : List String) : IO UInt32 := do
  match BlockCode.Invocation.read args with
  | some invocation => BlockCode.Program.run invocation
  | none =>
    IO.eprint BlockCode.Shell.usage
    return 2
