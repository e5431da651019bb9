-- Helper functions of a program. A block asks for one by the name that it would
-- like; it is defined once, under an identifier that is free, and keeps its place
-- in the order of the first requests.
import BlockCode.Names.Request

namespace BlockCode

/-- A helper function as it is defined in the program. -/
structure Helper where
  desired : Value
  identifier : String
  code : String
deriving Repr

/-- The helpers of a pass, in the order of the first requests. -/
abbrev Helpers := List Helper

namespace Helpers

/-- What stands for the identifier of a helper in its own body. -/
def placeholder : String := "\x7bleCUI8hutHZI4480Dc\x7d"

/-- The category of the identifiers of helpers. -/
def category : Value := .str "generated_function"

def find? (helpers : Helpers) (desired : Value) : Option Helper :=
  List.find? (·.desired.same desired) helpers

/-- The lines of a body. A text alone is a line for each of its characters. -/
def linesOf : Value → Except Fault (List String)
  | .str s => .ok (s.toList.map fun c => String.ofList [c])
  | .torn t => .ok (t.text.toList.map fun c => String.ofList [c])
  | .list items => items.mapM line
  | .tuple items => items.mapM line
  | .table entries => entries.mapM fun entry => line entry.1
  | _ => .error .wrongKind
where
  line : Value → Except Fault String
    | .str s => .ok s
    | .torn t => .ok t.text
    | _ => .error .wrongKind

/-- A body: its lines, with the identifier for every placeholder. -/
def body (identifier : String) (lines : List String) : String :=
  Text.replaceAll placeholder identifier (Text.joinLines lines)

/-- What a request for a helper came to. A request that fails may still have
taken an identifier. -/
structure Answer where
  outcome : Except Fault String
  helpers : Helpers
  names : Names
  notes : List Note := []

/-- Asks for a helper. The first request defines it. With `stable`, the helper
gets the identifier that it had in earlier passes. -/
def ask (helpers : Helpers) (names : Names) (desired lines : Value) (stable : Bool) :
    Answer :=
  if !desired.isKey then { outcome := .error .wrongKind, helpers, names }
  else match helpers.find? desired with
  | some helper => { outcome := .ok helper.identifier, helpers, names }
  | none =>
    let granted :=
      if stable then names.getFor desired category true else names.ownFor desired category
    match granted with
    | .error fault => { outcome := .error fault, helpers, names }
    | .ok granted =>
      match linesOf lines with
      | .error fault =>
        { outcome := .error fault, helpers, names := granted.names, notes := granted.notes }
      | .ok lines =>
        let identifier := granted.identifier
        { outcome := .ok identifier
          helpers := helpers ++ [{ desired, identifier, code := body identifier lines }]
          names := granted.names
          notes := granted.notes ++ [.provided desired.shown identifier] }

/-- The bodies, in the order of the first requests. -/
def definitions (helpers : Helpers) : List String := helpers.map (·.code)

end Helpers
end BlockCode
