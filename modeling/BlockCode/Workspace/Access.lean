-- Fields and inputs under names of any kind. A name that cannot be looked up is
-- refused before anything is read or changed.
import BlockCode.Fault
import BlockCode.Workspace.Basic

namespace BlockCode

/-- A name under which something can be looked up. -/
def Value.asKey (name : Value) : Except Fault Value :=
  if name.isKey then .ok name else .error .wrongKind

@[simp] theorem Value.asKey_str (s : String) : (Value.str s).asKey = .ok (.str s) := rfl

theorem Value.eq_of_asKey {name key : Value} (h : name.asKey = .ok key) : key = name := by
  unfold asKey at h
  split at h
  · exact (Except.ok.inj h).symm
  · cases h

namespace Block

/-- The value of a field, or nothing if the block has no such field. -/
def fieldAt (b : Block) (name : Value) : Except Fault Value :=
  match b.fields with
  | .table entries => do return (Entries.get? entries (← name.asKey)).getD .null
  | _ => .error .noParts

/-- The value of a field with a text for its name. -/
def field (b : Block) (name : String) : Except Fault Value := b.fieldAt (.str name)

theorem field_of_table {b : Block} {entries : Entries} (h : b.fields = .table entries)
    (name : String) : b.field name = .ok (entries.field name) := by
  simp only [field, fieldAt, h, Value.asKey_str]
  rfl

end Block

namespace Workspace

/-- The input of a name, if it is declared. -/
def slotAt (w : Workspace) (h : Nat) (name : Value) : Except Fault (Option Slot) := do
  return w.slot? h (← name.asKey)

/-- Declares an input. An input of this name that is there already stays. -/
def declareAt (w : Workspace) (h : Nat) (name : Value) (kind : SlotKind) :
    Except Fault Workspace := do
  return w.addSlot h (← name.asKey) kind

/-- Plugs a block into an input. -/
def connectAt (w : Workspace) (h : Nat) (name : Value) (kind : SlotKind) (child : Nat) :
    Except Fault Workspace := do
  return w.connect h (← name.asKey) kind child

end Workspace
end BlockCode
