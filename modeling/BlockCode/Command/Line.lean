-- The command line: which commands there are, and what each must be told.
import BlockCode.Command.Options
import BlockCode.Number.Reading

namespace BlockCode

open Number

inductive Command where
  /-- Writes the program of a workspace. -/
  | generate (workspace language : String) (output : Option String) (format : String)
  /-- Lists the types of blocks that the language does not know. -/
  | check (workspace language : String)
  /-- Lists the types of blocks that the language knows. -/
  | rules (language : String)
  /-- Writes the program again whenever the workspace changes. -/
  | watch (workspace language output : String) (interval : Binary64)
  /-- Tells how the commands are used. -/
  | help
deriving Repr

/-- What the program is called to do. -/
structure Invocation where
  /-- The details of the work are told too. -/
  verbose : Bool
  command : Command
deriving Repr

namespace Command

def helpForm : OptionForm := { name := "help", long := "--help", takesValue := false }
def verboseForm : OptionForm :=
  { name := "verbose", long := "--verbose", short := some 'v', takesValue := false }
def languageForm : OptionForm := { name := "language", long := "--language", short := some 'l' }
def outputForm : OptionForm := { name := "output", long := "--output", short := some 'o' }
def formatForm : OptionForm := { name := "format", long := "--format", short := some 'f' }
def intervalForm : OptionForm := { name := "interval", long := "--interval" }

/-- Reads the arguments of a command, unless they ask for help. -/
def readArguments (forms : List OptionForm) (arguments : List String)
    (command : Arguments → Option Command) : Option Command := do
  let a ← Arguments.read (helpForm :: forms) true arguments
  if a.has "help" then return help
  command a

/-- The only word. -/
def oneWord (a : Arguments) : Option String :=
  match a.words with
  | [word] => some word
  | _ => none

/-- Each underscore of a text stands alone, between two other characters. `barred`
says that none may stand first. -/
def loneUnderscores (barred : Bool) : List Char → Bool
  | [] => !barred
  | c :: rest => if c == '_' then !barred && loneUnderscores true rest else loneUnderscores false rest

/-- An interval as a person types it, in ASCII. White space around it is nothing.
Underscores that stand alone in it are nothing too, but then no white space may
stand around it. -/
def interval? (text : String) : Option Binary64 :=
  let typed := text.toList
  let bare := unpadded typed
  if typed.contains '_' then
    if bare.length == typed.length && typed.all (·.toNat < 128) && loneUnderscores true typed then
      readFloat? (String.ofList (typed.filter (· != '_')))
    else none
  else if bare.all (·.toNat < 128) then readFloat? (String.ofList bare)
  else none

/-- The file to write to, if one is named. The character that ends paths is in no
name of a file. -/
def output? (a : Arguments) : Option (Option String) :=
  match a.value? "output" with
  | none => some none
  | some path => if path.toList.contains '\x00' then none else some (some path)

/-- The command of this name with its arguments. -/
def read (name : String) (arguments : List String) : Option Command :=
  match name with
  | "generate" => readArguments [languageForm, outputForm, formatForm] arguments fun a => do
    return generate (← oneWord a) (← a.value? "language") (← output? a)
      ((a.value? "format").getD "plain")
  | "check" => readArguments [languageForm] arguments fun a => do
    return check (← oneWord a) (← a.value? "language")
  | "rules" => readArguments [languageForm] arguments fun a => do
    if a.words.isEmpty then return rules (← a.value? "language") else none
  | "watch" => readArguments [languageForm, outputForm, intervalForm] arguments fun a => do
    let interval ← interval? ((a.value? "interval").getD "0.5")
    return watch (← oneWord a) (← a.value? "language") (← (← output? a)) interval
  | _ => none

end Command

/-- Reads a whole command line. `none` when it cannot be followed. -/
def Invocation.read (arguments : List String) : Option Invocation := do
  let a ← Arguments.read [Command.helpForm, Command.verboseForm] false arguments
  let verbose := a.has "verbose"
  if a.has "help" then return { verbose, command := .help }
  match a.words with
  | [] => none
  | name :: rest => return { verbose, command := ← Command.read name rest }

end BlockCode
