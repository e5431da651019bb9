-- Fields as a document gives them: a table, or a list of pairs.
import BlockCode.Value.Table
import BlockCode.Fault

namespace BlockCode.Document

/-- A text as the list of its signs. -/
def characters (signs : Spelling) : List Value := signs.map fun sign => .ofSpelling [sign]

/-- The members of a value that can stand for a pair. A table gives its keys. -/
def members : Value → Except Fault (List Value)
  | .str s => .ok (characters s)
  | .torn t => .ok (characters t.signs)
  | .list items => .ok items
  | .tuple items => .ok items
  | .table entries => .ok (entries.map (·.1))
  | _ => .error .wrongKind

/-- A key and its value. -/
def pair (v : Value) : Except Fault (Value × Value) := do
  match ← members v with
  | [key, value] => if key.isKey then return (key, value) else throw .wrongKind
  | _ => throw .wrongForm

/-- The fields of a block. Of two pairs with one key, the later value stands in
the place of the earlier. -/
def fields : Value → Except Fault Entries
  | .table entries => .ok entries
  | v => do return Entries.ofPairs (← (← members v).mapM pair)

end BlockCode.Document
