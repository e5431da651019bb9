-- Rules that are written down as templates: a list of parts, each of which becomes
-- a text, and an order of precedence when the whole is an expression.
import BlockCode.Language.Basic
import BlockCode.Document.Load

namespace BlockCode

/-- Where an order comes from: a field of the block, or the template itself, in
which it may be written wrongly. -/
inductive OrderSource where
  | field (name : Value)
  | fixed (order : Except Fault Value)

/-- A part of a template. -/
inductive Part where
  | literal (text : String)
  /-- The text of a field. -/
  | field (name : Value)
  /-- A field as it is written down. -/
  | writtenField (name : Value)
  /-- The expression in an input, or what stands for an empty one. -/
  | value (input : Value) (order : OrderSource) (missing : Value)
  /-- The statements in an input, or what stands for none. -/
  | statements (input : Value) (missing : Value)
  /-- The identifier of the name in a field. -/
  | identifier (field category : Value) (caseSensitive : Bool)
  | ownIdentifier (name category : Value)
  | helper (desired lines : Value)
  | comments (input : Value)
  /-- Reserves words, and adds no text. -/
  | reserve (words : Value)
  /-- The program of a document. -/
  | pass (document : Value)

/-- What is written down for a rule. -/
inductive Template where
  /-- The result itself, whatever it is. -/
  | result (v : Except Fault Value)
  | code (parts : List Part)
  | expression (parts : List Part) (order : OrderSource)

def OrderSource.get (b : Block) : OrderSource → Script Value
  | field name => .done (b.fieldAt name)
  | fixed order => .done order

/-- A text, or what stands for the empty one. -/
def orMissing (missing : Value) (code : String) : Value := if code == "" then missing else .str code

/-- What a part becomes. It is a text, or what stands for an empty one. -/
def Part.script (b : Block) : Part → Script Value
  | literal text => return .str text
  | field name => return .str (← Script.done (← Script.done (b.fieldAt name)).text)
  | writtenField name => return .str (← Script.done (← Script.done (b.fieldAt name)).repr)
  | value input order missing => do
    return orMissing missing (← Script.request (.value input (← order.get b)))
  | statements input missing => do
    return orMissing missing (← Script.request (.statements input))
  | identifier name category caseSensitive => do
    return .str (← Script.request (.identifier (← Script.done (b.fieldAt name)) category caseSensitive))
  | ownIdentifier name category => return .str (← Script.request (.ownIdentifier name category))
  | helper desired lines => return .str (← Script.request (.helper desired lines))
  | comments input => return .str (← Script.request (.comments input))
  | reserve words => return .str (← Script.request (.reserve words))
  | pass document => do
    let w ← Script.done (Document.load document)
    return .str (← Script.request (.pass w))

/-- The texts of all parts, from left to right. Only when all are made must each be
a text. -/
def partsScript (b : Block) (parts : List Part) : Script String := do
  let made ← parts.mapM (·.script b)
  return String.join (← Script.done (made.mapM (·.asText)))

/-- The rule that a template stands for. -/
def Template.rule : Template → Rule
  | result v => fun _ _ => return .ofValue (← Script.done v)
  | code parts => fun b _ => return .code (← partsScript b parts)
  | expression parts order => fun b _ => do
    let code ← partsScript b parts
    return .expression code (← order.get b)

end BlockCode
