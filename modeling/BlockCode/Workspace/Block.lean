-- A block without its connections: what its author gave it, and the place where
-- the workspace keeps it. An author may give values of any kind. What a value must
-- be is asked where it is used.
import BlockCode.Value.Table
import BlockCode.Value.Text

namespace BlockCode

/-- The kinds of named inputs: one takes an expression, the other takes the
first block of a chain of statements. -/
inductive SlotKind where
  | value
  | statement
deriving DecidableEq, Repr, Inhabited

structure Block where
  /-- The place of the block among all blocks, in the order of their making. -/
  handle : Nat := 0
  type : Value := .null
  id : Value := .null
  /-- The fields, as a table when all is well. -/
  fields : Value := .table []
  disabled : Value := .bool false
  comment : Value := .null
  /-- The block gives a value to the input that it is plugged into. -/
  output : Value := .bool false
deriving Repr, Inhabited

namespace Block

/-- The block is passed over. -/
def isDisabled (b : Block) : Bool := b.disabled.truth

def givesValue (b : Block) : Bool := b.output.truth

/-- The comment, or nothing when there is no text to show. -/
def commentText (b : Block) : Value := if b.comment.truth then b.comment else .null

/-- A block as it is shown to a person. -/
def text (b : Block) : String := "Block(type=" ++ b.type.written ++ ", id=" ++ b.id.written ++ ")"

end Block
end BlockCode
