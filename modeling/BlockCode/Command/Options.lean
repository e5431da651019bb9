-- Options and words on a command line. An option begins with one dash and a letter
-- or with two dashes and a name; what follows a bare `--` is words only. An option
-- that takes a value takes it from behind itself, or else the next argument.

namespace BlockCode

structure OptionForm where
  /-- The name under which its values are kept. -/
  name : String
  long : String
  short : Option Char := none
  takesValue : Bool := true
deriving Repr

/-- A command line that has been read up to some argument. -/
structure Arguments where
  /-- The option that waits for its value. -/
  waiting : Option String := none
  /-- No more options can come. -/
  ended : Bool := false
  /-- The options and their values, the last first. -/
  values : List (String × String) := []
  words : List String := []
deriving Repr

namespace Arguments

def value? (a : Arguments) (name : String) : Option String := a.values.lookup name

def has (a : Arguments) (name : String) : Bool := (a.value? name).isSome

def keep (a : Arguments) (name value : String) : Arguments :=
  { a with values := (name, value) :: a.values }

/-- Reads the letters behind one dash. The first that takes a value takes the rest. -/
def readLetters (forms : List OptionForm) (a : Arguments) : List Char → Option Arguments
  | [] => some a
  | c :: rest =>
    match forms.find? (·.short == some c) with
    | none => none
    | some form =>
      if !form.takesValue then readLetters forms (a.keep form.name "") rest
      else if rest.isEmpty then some { a with waiting := some form.name }
      else some (a.keep form.name (String.ofList rest))

/-- The name of an option, and the value behind the equals sign. -/
def splitValue (option : String) : String × Option String :=
  let cs := option.toList
  match cs.dropWhile (· != '=') with
  | [] => (option, none)
  | _ :: value => (String.ofList (cs.takeWhile (· != '=')), some (String.ofList value))

def readOption (forms : List OptionForm) (a : Arguments) (option : String) : Option Arguments :=
  let (name, value) := splitValue option
  match forms.find? (·.long == name), value with
  | some form, none =>
    if form.takesValue then some { a with waiting := some form.name }
    else some (a.keep form.name "")
  | some form, some value => if form.takesValue then some (a.keep form.name value) else none
  | none, _ =>
    if option.startsWith "--" then none else readLetters forms a (option.toList.drop 1)

/-- Reads one argument. With `mixed`, options may stand behind words. -/
def readOne (forms : List OptionForm) (mixed : Bool) (a : Arguments) (argument : String) :
    Option Arguments :=
  match a.waiting with
  | some name => some { a.keep name argument with waiting := none }
  | none =>
    if a.ended then some { a with words := a.words ++ [argument] }
    else if argument == "--" then some { a with ended := true }
    else if argument.startsWith "-" && argument != "-" then readOption forms a argument
    else some { a with words := a.words ++ [argument], ended := !mixed }

/-- Reads all arguments. `none` when one is not understood or a value is missing. -/
def read (forms : List OptionForm) (mixed : Bool) (arguments : List String) : Option Arguments := do
  let a ← arguments.foldlM (readOne forms mixed) {}
  if a.waiting.isSome then none else some a

end Arguments
end BlockCode
