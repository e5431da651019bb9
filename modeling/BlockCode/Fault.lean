-- Everything that can go wrong, by its cause.
import BlockCode.Document.Error
import BlockCode.Generation.Error

namespace BlockCode

inductive Fault where
  | generation (e : GenerationError)
  | format (e : FormatError)
  /-- A look-up in a table that must hold the key. -/
  | unknownKey (key : Value)
  /-- A value of a kind that cannot stand here. -/
  | wrongKind
  /-- A value that has no parts of the kind that is asked for. -/
  | noParts
  /-- A value of the right kind that cannot be read. -/
  | wrongForm
  /-- A whole number beyond every floating-point number. -/
  | tooLarge
  /-- A file whose bytes are no text. -/
  | notText
  /-- A text with halves in it, for which there are no bytes. -/
  | notBytes
  /-- No file of this name. -/
  | missingFile (path : String)
  /-- A folder in the place of a file. -/
  | folderForFile (path : String)
  /-- A file in the place of a folder. -/
  | fileForFolder (path : String)
  /-- A path, or a name in it, that is longer than any can be. -/
  | pathTooLong (path : String)
  /-- A path with the character that ends paths. -/
  | nullInPath
deriving Repr

namespace Value

/-- The text that a value must be. -/
def asText : Value → Except Fault String
  | str s => .ok s
  | torn t => .ok t.text
  | _ => .error .wrongKind

/-- A value as it is written down, if it fits. -/
def repr (v : Value) : Except Fault String := if v.fits then .ok v.written else .error .wrongForm

/-- The text of a value, if it fits. -/
def text (v : Value) : Except Fault String := if v.fits then .ok v.shown else .error .wrongForm

end Value

/-! ## Raising errors -/

/-- A document is refused. The values that the refusal tells are put into words first. -/
def FormatError.fault (e : FormatError) : Fault :=
  if e.told.all (·.fits) then .format e else .wrongForm

/-- An error is raised. The values in its message are put into words first, then the id of its
block. -/
def GenerationError.fault (e : GenerationError) : Fault :=
  if (e.told ++ (e.block.map (·.id)).toList).all (·.fits) then .generation e else .wrongForm

end BlockCode
