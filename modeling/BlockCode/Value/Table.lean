-- Tables: lists of entries in the order in which their keys first came. A later
-- value of the same key takes the place of the earlier one.
import BlockCode.Value.Basic

namespace BlockCode

/-- The entries of a table. -/
abbrev Entries := List (Value × Value)

namespace Entries

/-- The value of a key. -/
def get? (entries : Entries) (key : Value) : Option Value :=
  (entries.find? fun entry => entry.1.same key).map (·.2)

/-- The value of a name, or nothing. -/
def field (entries : Entries) (name : String) : Value :=
  (entries.get? (.str name)).getD .null

/-- Puts a value under a key. The first spelling of a key stays. -/
def set (entries : Entries) (key value : Value) : Entries :=
  match entries with
  | [] => [(key, value)]
  | (k, v) :: rest => if k.same key then (k, value) :: rest else (k, v) :: set rest key value

/-- The entries put one after the other into the empty table. -/
def ofPairs (pairs : List (Value × Value)) : Entries :=
  pairs.foldl (fun entries (key, value) => entries.set key value) []

@[simp] theorem get?_nil (key : Value) : get? [] key = none := rfl

theorem get?_cons (k v : Value) (rest : Entries) (key : Value) :
    get? ((k, v) :: rest) key = if k.same key then some v else get? rest key := by
  simp only [get?, List.find?_cons]
  split <;> simp_all

end Entries
end BlockCode
