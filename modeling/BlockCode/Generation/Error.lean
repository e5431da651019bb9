-- What can be wrong with a language or with a block when a program is generated.
-- An error keeps the block that it is about, and the text that it shows ends with
-- the id of that block.
import BlockCode.Workspace.Block

namespace BlockCode

/-- The kinds of errors of generation. -/
inductive ErrorKind where
  /-- An error that has no kind of its own. -/
  | general
  /-- The language has no rule for a type of block. -/
  | unsupportedType (language type : Value)
  /-- An order is not a number. -/
  | invalidOrder
  /-- A block that should give an expression gave something else. -/
  | malformedValue
  /-- A block that should give statements gave something else. -/
  | malformedStatement
  /-- A pass was begun inside another. -/
  | reentrantPass
deriving Repr

structure GenerationError where
  kind : ErrorKind
  /-- What went wrong, without the place. -/
  message : String
  /-- The values that stand in the message. -/
  told : List Value := []
  block : Option Block := none
deriving Repr

namespace GenerationError

/-- The place of an error, as it stands behind the message. A block whose id
counts as false is not named. -/
def location : Option Block → String
  | none => ""
  | some b => if b.id.truth then " (block id '" ++ b.id.shown ++ "')" else ""

/-- The text that an error shows. -/
def text (e : GenerationError) : String := e.message ++ location e.block

/-- The same error about another block. -/
def withBlock (e : GenerationError) (block : Option Block) : GenerationError := { e with block }

/-! ## The errors -/

def unsupportedType (language type : Value) (block : Option Block) : GenerationError where
  kind := .unsupportedType language type
  message := "Language \"" ++ language.shown ++
    "\" does not know how to generate code for block type \"" ++ type.shown ++ "\""
  told := [language, type]
  block

/-- The order that a block asks for is not a number. -/
def invalidOuterOrder (b : Block) (order : Value) : GenerationError where
  kind := .invalidOrder
  message := "Expecting valid order from block \"" ++ b.type.shown ++ "\", got " ++ order.written
  told := [b.type, order]
  block := some b

/-- The order that a plugged block gives is not a number. -/
def invalidInnerOrder (b : Block) (order : Value) : GenerationError where
  kind := .invalidOrder
  message := "Expecting valid order from value block \"" ++ b.type.shown ++ "\", got " ++ order.written
  told := [b.type, order]
  block := some b

/-- A plugged block gave statements. -/
def missingOrder (b : Block) : GenerationError where
  kind := .malformedValue
  message := "Expecting tuple from value block \"" ++ b.type.shown ++ "\""
  told := [b.type]
  block := some b

/-- A rule gave a tuple that is no expression with its order. -/
def malformedPair (b : Block) : GenerationError where
  kind := .malformedValue
  message := "Expecting (code, order) from value block \"" ++ b.type.shown ++ "\""
  told := [b.type]
  block := some b

/-- A block in a chain gave an expression. -/
def misplacedValue (b : Block) : GenerationError where
  kind := .malformedStatement
  message := "Expecting code from statement block \"" ++ b.type.shown ++ "\""
  told := [b.type]
  block := some b

/-- A rule gave something that is no code at all. -/
def noCode (b : Block) (result : Value) : GenerationError where
  kind := if b.givesValue then .malformedValue else .malformedStatement
  message := "Block \"" ++ b.type.shown ++ "\" produced " ++ result.kind ++ ", expected code"
  told := [b.type]
  block := some b

def reentrantPass (language : String) : GenerationError where
  kind := .reentrantPass
  message := "Generator for \"" ++ language ++ "\" is already running a pass"

end GenerationError
end BlockCode
