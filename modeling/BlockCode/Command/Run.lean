-- The commands that end by themselves: generating, checking and listing rules.
import BlockCode.Command.Shell
import BlockCode.Value.Sorted

namespace BlockCode.Shell

/-- The name and the version that stand in the head of a program. -/
def signature : String := "blockgen v0.1.0"

/-- The head of a program: comment lines that say where it came from. -/
def header (L : Language) (time source : String) : Except Fault String := do
  let marker ← L.config.commentMarker.text
  let line := fun text => marker ++ text ++ "\n"
  return line ("Generated by " ++ signature) ++ line ("Generation time: " ++ time) ++
    line ("Source file: " ++ Path.afterSlash source) ++ line ("Language: " ++ L.title) ++ "\n"

/-- A program in the format that is asked for. -/
def formatted (L : Language) (time source format : String) (code : Product) :
    ShellWork Product := do
  if format == "commented" then
    match header L time source with
    | .error fault => Effect.fail (.fault fault)
    | .ok head =>
      return {
        text := head ++ code.text
        torn := code.torn || L.config.commentMarker.isTorn || L.name.isTorn }
  if format != "plain" then tell .warning ("Unknown format: " ++ format ++ ". Using plain.")
  return code

def generate (library : Library) (time workspace language : String) (output : Option String)
    (format : String) : ShellWork Unit := do
  let L ← openLanguage library language
  let code ← program L workspace
  deliver (← formatted L time workspace format code) output

/-- The types of the workspace's blocks that the language does not know, each once
and in order. Disabled blocks count. -/
def missingTypes (L : Language) (w : Workspace) : Except Fault (List Value) := do
  let types := w.members.filterMap fun h => (w.block? h).map (·.type)
  let unknown ← types.filterM fun type => return !(← L.hasRule type)
  match Value.sorted? (Value.distinct unknown) with
  | some types => return types
  | none => throw .wrongKind

/-- Writes a value on a line. Nothing is an empty line. -/
def sayLine (v : Value) : ShellWork Unit :=
  if v.isNull then say "\n"
  else if v.isTorn then Effect.fail (.fault .notBytes)
  else match v.text with
  | .error fault => Effect.fail (.fault fault)
  | .ok text => say (text ++ "\n")

/-- Writes values, one on each line. -/
def sayLines (values : List Value) : ShellWork Unit := values.forM sayLine

def check (library : Library) (workspace language : String) : ShellWork Unit := do
  let L ← openLanguage library language
  let w ← openWorkspace workspace
  match missingTypes L w with
  | .error fault => Effect.fail (.fault fault)
  | .ok [] =>
    info ("All " ++ toString w.size ++ " blocks are supported by " ++ L.title)
  | .ok types =>
    sayLines types
    failWith (toString types.length ++ " block types have no " ++ L.title ++ " rule")

def rules (library : Library) (language : String) : ShellWork Unit := do
  let L ← openLanguage library language
  match Value.sorted? L.types with
  | some types => sayLines types
  | none => Effect.fail (.fault .wrongKind)

/-- How the program is used. -/
def usage : String :=
  "Usage: blockgen [-v] COMMAND [ARGS]\n\n" ++
    "  generate WORKSPACE -l LANGUAGE [-o OUTPUT] [-f plain|commented]\n" ++
    "  check WORKSPACE -l LANGUAGE\n" ++
    "  rules -l LANGUAGE\n" ++
    "  watch WORKSPACE -l LANGUAGE -o OUTPUT [--interval SECONDS]\n"

end BlockCode.Shell
