-- Workspaces in files. The bytes of a file must be a UTF-8 text; every sort of line
-- end counts as a newline; the text is JSON, and the JSON is a document.
import BlockCode.Document.Load
import BlockCode.Json.Reader

namespace BlockCode.Document

/-- A text with newlines in the place of carriage returns, alone or with the
newline behind them. -/
def unifyLines : List Char → List Char
  | [] => []
  | '\r' :: '\n' :: rest => '\n' :: unifyLines rest
  | '\r' :: rest => '\n' :: unifyLines rest
  | c :: rest => c :: unifyLines rest

/-- The text that some bytes are. -/
def decode (bytes : ByteArray) : Except Fault String :=
  match String.fromUTF8? bytes with
  | some text => .ok text
  | none => .error .notText

/-- The document in a text from the file `name`. -/
def parse (name text : String) : Except Fault Value :=
  let text := String.ofList (unifyLines text.toList)
  match Json.read text with
  | .ok document => .ok document
  | .error (.malformed reason position) =>
    .error (.format (.invalidJson name text reason position))
  | .error .tooManyDigits => .error .wrongForm

/-- The workspace in a text from the file `name`. -/
def loadText (name text : String) : Except Fault Workspace := do
  load (← parse name text)

/-- The workspace in a file of these bytes. -/
def loadBytes (name : String) (bytes : ByteArray) : Except Fault Workspace := do
  loadText name (← decode bytes)

end BlockCode.Document
