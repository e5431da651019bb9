-- The session of a language: what it remembers from one pass to the next, and the
-- actions that read and change it.
import BlockCode.Language.Basic
import BlockCode.Names.HelperFunction
import BlockCode.Effect

namespace BlockCode

/-- What a pass gathers on its way. -/
structure PassState where
  helpers : Helpers := []
  names : Names := {}
  /-- How many blocks were handed to their rules. -/
  handled : Nat := 0
deriving Inhabited

structure Session where
  /-- The state of the pass that runs, or else of the last one. -/
  pass : PassState := {}
  running : Bool := false
  /-- The words that no pass may give out from its beginning on. -/
  reserved : List String := []
  /-- What was told, the newest first. -/
  notes : List Note := []
deriving Inhabited

/-- A session in which nothing has happened. -/
def Session.new (L : Language) : Session := { reserved := L.reserved }

/-- Work in a session. -/
abbrev Action := Effect Session Fault

namespace Session

/-- Notes down what there is to tell. -/
def tell (notes : List Note) : Action Unit :=
  Effect.change fun s => { s with notes := notes.reverse ++ s.notes }

/-! ## The names and helpers of the pass -/

/-- Takes in what a request for an identifier came to. -/
def grant (result : Except Fault Names.Granted) : Action String := do
  let granted ← Effect.lift result
  Effect.change fun s => { s with pass := { s.pass with names := granted.names } }
  tell granted.notes
  return granted.identifier

/-- The identifier of a name. -/
def identifier (name category : Value) (caseSensitive : Bool) : Action String := do
  grant ((← Effect.read (·.pass.names)).getFor name category caseSensitive)

/-- An identifier that nothing else has. -/
def ownIdentifier (name category : Value) : Action String := do
  grant ((← Effect.read (·.pass.names)).ownFor name category)

/-- The identifier of a helper, which is defined if it is not yet. -/
def helper (L : Language) (desired lines : Value) : Action String := do
  let pass ← Effect.read (·.pass)
  let answer := pass.helpers.ask pass.names desired lines L.config.stableNames.truth
  Effect.change fun s =>
    { s with pass := { s.pass with helpers := answer.helpers, names := answer.names } }
  tell answer.notes
  Effect.lift answer.outcome

/-- Reserves words from the next pass on. They must come as one text. No identifier holds a half,
so a word with one is of no concern. -/
def reserve : Value → Action Unit
  | .str words => Effect.change fun s => { s with reserved := s.reserved ++ Text.commaWords words }
  | .torn words => Effect.change fun s =>
    { s with reserved := s.reserved ++ (Names.tornWords words).filterMap fun word => match word with
      | .str word => if word == "" then none else some word
      | _ => none }
  | _ => Effect.fail .wrongKind

/-- The state in which a pass begins. With stable names the names of the last
pass are kept. -/
def begun (L : Language) (s : Session) : PassState :=
  let names := if L.config.stableNames.truth then s.pass.names else {}
  { names := names.reserve s.reserved }

/-- The definitions of the helpers of the pass, put before a program. -/
def withDefinitions (s : Session) (code : String) : String :=
  match s.pass.helpers.definitions with
  | [] => code
  | definitions => "\n\n".intercalate definitions ++ "\n\n\n" ++ code

end Session
end BlockCode
