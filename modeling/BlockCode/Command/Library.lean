-- Where languages come from. A binding is a file or a module that holds languages
-- under names; a person names the binding, and a language in it if it holds more
-- than one.
import BlockCode.Command.Files
import BlockCode.Generation.Session

namespace BlockCode

/-- The languages that a binding holds, under their names. -/
abbrev Binding := List (String × Language)

structure Library where
  /-- The bindings in files, under their absolute paths. -/
  files : List (String × Binding) := []
  /-- The modules that hold other modules. -/
  packages : List String := []
  /-- The modules that hold no others, with their languages. -/
  modules : List (String × Binding) := []

/-- Why there is no language. -/
inductive BindingError where
  | noModule (name : String)
  /-- A module is looked for in one that can hold none. -/
  | notPackage (name parent : String)
  | notLoadable (path : String)
  | nullInPath
  | emptyName
  | noLanguage (name : String)
  | nothing
  | several (names : List String)
  /-- A fault that nobody tells in words. -/
  | other (fault : Fault)

namespace BindingError

/-- The message, when there is one. -/
def text? : BindingError → Option String
  | noModule name => some ("Failed to load language binding: No module named " ++ Text.quoted name)
  | notPackage name parent =>
    some ("Failed to load language binding: No module named " ++ Text.quoted name ++ "; " ++
      Text.quoted parent ++ " is not a package")
  | notLoadable path =>
    some ("Failed to load language binding: Could not load module from " ++ path)
  | nullInPath => some "Invalid language binding: embedded null byte"
  | emptyName => some "Invalid language binding: Empty module name"
  | noLanguage name =>
    some ("Invalid language binding: '" ++ name ++ "' is not a Generator instance")
  | nothing => some "Invalid language binding: No Generator instance found in the binding module"
  | several names =>
    some ("Invalid language binding: Multiple generators found (" ++ ", ".intercalate names ++
      "); name one with module:attribute")
  | other _ => none

end BindingError

namespace Library

/-- A module is looked for part by part: each part in the module before it. -/
def findParts (library : Library) (parent : Option String) : List String → Except BindingError Unit
  | [] => .ok ()
  | part :: rest =>
    let name := match parent with
      | none => part
      | some p => p ++ "." ++ part
    if parent.any (!library.packages.contains ·) then
      .error (.notPackage name (parent.getD ""))
    else if library.packages.contains name || (library.modules.lookup name).isSome then
      library.findParts (some name) rest
    else .error (.noModule name)

/-- Looks for a module. One that holds others has no languages of its own. -/
def findModule (library : Library) (name : String) : Except BindingError Binding :=
  if name == "" then .error .emptyName
  else if name.startsWith "." then .error (.other .wrongKind)
  else do
    library.findParts none ((Text.splitAt '.' name.toList).map String.ofList)
    return (library.modules.lookup name).getD []

/-- The binding of this name: a file, or else a module. -/
def find (library : Library) (files : Files) (name : String) : Except BindingError Binding :=
  if !name.endsWith ".py" && !files.isFile name then library.findModule name
  else
    let path := Path.absolute files.here name
    if !path.endsWith ".py" then .error (.notLoadable name)
    else match files.read path with
    | .error .nullInPath => .error .nullInPath
    | .error fault => .error (.other fault)
    | .ok _ => .ok ((library.files.lookup path).getD [])

/-- The language of this name in a binding. Without a name there must be only one. -/
def choose (binding : Binding) (name : String) : Except BindingError Language :=
  if name != "" then
    match binding.lookup name with
    | some L => .ok L
    | none => .error (.noLanguage name)
  else match binding with
  | [] => .error .nothing
  | [(_, L)] => .ok L
  | several => .error (.several (sortedTexts (several.map (·.1))))

/-- The parts of a text before and behind its last colon. -/
def splitColon (text : String) : String × String :=
  match (Text.splitAt ':' text.toList).reverse with
  | last :: rest =>
    (String.ofList ([':'].intercalate rest.reverse), String.ofList last)
  | [] => (text, "")

/-- The language that a person names, as `binding` or as `binding:name`. A file
whose name has a colon is found too. -/
def language (library : Library) (files : Files) (text : String) : Except BindingError Language :=
  let (binding, name) :=
    if !files.isFile text && text.toList.contains ':' then splitColon text else (text, "")
  do choose (← library.find files binding) name

end Library
end BlockCode
