-- Writing a workspace as a document. What a reader would fill in by itself is left
-- out; an empty input is written as nothing.
import BlockCode.Document.Fields
import BlockCode.Workspace.Tree

namespace BlockCode.Document

/-- An entry of a table that is written only when there is something to say. -/
def unlessEmpty (empty : Bool) (name : String) (v : Value) : Entries :=
  if empty then [] else [(.str name, v)]

/-- The fields of a block as they are written. They are written as a table, whatever
they were given as. -/
def writtenFields (b : Block) : Except Fault Entries := do
  if !b.fields.truth then return []
  return [(.str "fields", .table (← fields b.fields))]

/-- The first part of a block's entry: what the block itself says. -/
def ownParts (b : Block) : Except Fault Entries := do
  return [(.str "type", b.type)] ++ unlessEmpty b.id.isNull "id" b.id ++ (← writtenFields b) ++
    unlessEmpty (!b.isDisabled) "disabled" (.bool true) ++
    unlessEmpty (!b.comment.truth) "comment" b.comment ++
    unlessEmpty (!b.givesValue) "output" (.bool true)

mutual
/-- The entry of a block with all that hangs on it. Nothing is written for nothing. -/
def entry : Chain → Except Fault Value
  | .nil => .ok .null
  | .cons b inputs next => do
    let own ← ownParts b
    let values ← inputEntries .value inputs
    let statements ← inputEntries .statement inputs
    let follower ← entry next
    return .table (own ++ unlessEmpty values.isEmpty "inputs" (.table values) ++
      unlessEmpty statements.isEmpty "statements" (.table statements) ++
      unlessEmpty next.isEmpty "next" follower)

/-- The inputs of a kind, each under its name. -/
def inputEntries (kind : SlotKind) : Inputs → Except Fault Entries
  | .nil => .ok []
  | .cons name k target rest => do
    if k == kind then return (name, ← entry target) :: (← inputEntries kind rest)
    inputEntries kind rest
end

/-- The document of a workspace. -/
def save (w : Workspace) : Except Fault Value := do
  return .table [(.str "blocks", .list (← w.trees.mapM entry))]

end BlockCode.Document
