-- Why a document is not a workspace.
import BlockCode.Value.Text
import BlockCode.Json.Error

namespace BlockCode

inductive FormatError where
  /-- The file is not JSON. -/
  | invalidJson (file text : String) (reason : Json.Reason) (position : Nat)
  /-- The document is no object with a list of blocks. -/
  | noBlockList
  /-- An entry is no object with a type. -/
  | untypedEntry (entry : Value)
  /-- Two entries have one id. -/
  | duplicateId (id : Value)
deriving Repr

def FormatError.text : FormatError → String
  | invalidJson file text reason position =>
    "Invalid JSON in " ++ file ++ ": " ++ Json.placed text reason position
  | noBlockList => "Workspace document must contain a 'blocks' list"
  | untypedEntry entry => "Block entry without a 'type': " ++ entry.written
  | duplicateId id => "Duplicate block id '" ++ id.shown ++ "'"

/-- The values that an error tells. -/
def FormatError.told : FormatError → List Value
  | untypedEntry entry => [entry]
  | duplicateId id => [id]
  | _ => []

end BlockCode
