-- The shell of a command: its files, what it writes to its output and its log, and
-- the session of the language that it works with.
import BlockCode.Command.Library
import BlockCode.Command.Product
import BlockCode.Document.File

namespace BlockCode

structure Shell where
  files : Files
  /-- Notes are told too. -/
  verbose : Bool := false
  out : String := ""
  log : String := ""
  session : Session := {}

/-- Why a command ends early. -/
inductive Halt where
  /-- It has told what went wrong. -/
  | told
  | fault (fault : Fault)

instance : Inhabited Halt := ⟨.told⟩

/-- Work in a shell. -/
abbrev ShellWork := Effect Shell Halt

namespace Text

/-- What is left of a terminal's escape sequence after its bracket. -/
def skipEscape : List Char → Option (List Char)
  | [] => none
  | c :: rest =>
    if c.isAlpha then some rest
    else if c.isDigit || c == ';' || c == '?' then skipEscape rest
    else none

/-- Reads on to the next character that is no part of an escape sequence. The fuel
bounds how much is read. -/
def dropEscapes : Nat → List Char → List Char
  | 0, cs => cs
  | _ + 1, [] => []
  | fuel + 1, c :: rest =>
    match c, rest with
    | '\x1b', '[' :: after =>
      match skipEscape after with
      | some rest => dropEscapes fuel rest
      | none => c :: dropEscapes fuel rest
    | _, _ => c :: dropEscapes fuel rest

/-- A text without the escape sequences by which terminals change colours. -/
def plain (text : String) : String :=
  String.ofList (dropEscapes text.toList.length text.toList)

end Text

namespace Shell

/-- Writes to the output. -/
def say (text : String) : ShellWork Unit :=
  Effect.change fun s => { s with out := s.out ++ Text.plain text }

/-- Writes a line to the log. Details are left out unless they are asked for. -/
def tell (level : Level) (message : String) : ShellWork Unit :=
  Effect.change fun s =>
    if level == .debug && !s.verbose then s
    else { s with log := s.log ++ Text.plain (logLine level message) }

def info (message : String) : ShellWork Unit := tell .info message

/-- Tells what went wrong, and ends. -/
def failWith {α : Type} (message : String) : ShellWork α := do
  tell .error message
  Effect.fail .told

/-- Tells the notes of the session. -/
def tellNotes : ShellWork Unit := do
  let notes ← Effect.read (·.session.notes)
  Effect.change fun s => { s with session := { s.session with notes := [] } }
  notes.reverse.forM fun note => tell .debug note.text

/-- Does work in the session, and tells its notes. -/
def inSession {α : Type} (action : Action α) : ShellWork (Except Fault α) := do
  let (result, session) := action (← Effect.read (·.session))
  Effect.change fun s => { s with session }
  tellNotes
  return result

/-! ## The steps of commands -/

/-- Finds the language, and begins a session with it. -/
def openLanguage (library : Library) (name : String) : ShellWork Language := do
  match library.language (← Effect.read (·.files)) name with
  | .ok L =>
    Effect.change fun s => { s with session := .new L }
    info ("Using " ++ L.title ++ " generator with " ++ toString L.rules.length ++ " rules")
    return L
  | .error (.other fault) => Effect.fail (.fault fault)
  | .error e => failWith (e.text?.getD "")

/-- What is told about a file that cannot be read. -/
def unreadable? : Fault → Option String
  | .missingFile path => some ("[Errno 2] No such file or directory: " ++ Text.quoted path)
  | .fileForFolder path => some ("[Errno 20] Not a directory: " ++ Text.quoted path)
  | .folderForFile path => some ("[Errno 21] Is a directory: " ++ Text.quoted path)
  | .pathTooLong path => some ("[Errno 36] File name too long: " ++ Text.quoted path)
  | _ => none

/-- Reads the workspace in a file. -/
def openWorkspace (path : String) : ShellWork Workspace := do
  let files ← Effect.read (·.files)
  let shown := Path.shown path
  match files.read shown with
  | .error fault =>
    match unreadable? fault with
    | some reason => failWith ("Failed to read workspace: " ++ reason)
    | none => Effect.fail (.fault fault)
  | .ok text =>
    match Document.loadText (Path.fileName path) text with
    | .ok w =>
      tell .debug (Note.loaded w.size shown).text
      return w
    | .error (.format e) => failWith ("Invalid workspace: " ++ e.text)
    | .error fault => Effect.fail (.fault fault)

/-- The program of the workspace in a file. -/
def program (L : Language) (path : String) : ShellWork Product := do
  let w ← openWorkspace path
  match ← inSession (L.product w) with
  | .ok code => return code
  | .error (.generation e) => failWith ("Generation error: " ++ e.text)
  | .error fault => Effect.fail (.fault fault)

/-- Writes a program into a file, or to the output when no file is named. -/
def deliver (code : Product) (output : Option String) : ShellWork Unit := do
  match output with
  | none =>
    if code.torn then Effect.fail (.fault .notBytes)
    say code.text
  | some path =>
    let shown := Path.shown path
    info ("Writing generated code to " ++ shown ++ "...")
    match (← Effect.read (·.files)).write shown code.written with
    | .error fault => Effect.fail (.fault fault)
    | .ok files => Effect.change fun s => { s with files }
    if code.torn then Effect.fail (.fault .notBytes)
    info ("Generated code written to " ++ shown)

end Shell
end BlockCode
