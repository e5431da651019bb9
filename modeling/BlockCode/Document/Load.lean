-- Reading a document into a workspace. Each entry becomes a block; the entries in
-- its inputs and statements, and the entry that follows it, are read right after
-- it, in this order. So the blocks stand in the order in which the document names
-- them. An id that an earlier entry has is refused.
import BlockCode.Document.Fields
import BlockCode.Workspace.Basic

namespace BlockCode.Document

/-- A workspace in the making, with the ids that entries brought along. -/
structure Building where
  workspace : Workspace := {}
  seen : List Value := []

abbrev Builder := StateT Building (Except Fault)

/-- The value of a name in an entry, or what stands for it when it is missing. -/
def part (entries : Entries) (name : String) (missing : Value) : Value :=
  (entries.get? (.str name)).getD missing

/-- Notes the id of an entry. The same id must not come twice. -/
def claimId (id : Value) : Builder Unit := do
  if id.isNull then return
  if !id.isKey then throw .wrongKind
  let building ← get
  if building.seen.any (id.same ·) then throw (FormatError.duplicateId id).fault
  set { building with seen := id :: building.seen }

/-- Changes the workspace. -/
def change (f : Workspace → Workspace) : Builder Unit :=
  modify fun building => { building with workspace := f building.workspace }

/-- Makes the block of an entry, without its connections. -/
def makeBlock (entries : Entries) (type : Value) : Builder Nat := do
  let id := part entries "id" .null
  claimId id
  let fields ← fields (part entries "fields" (.table []))
  let block : Block := {
    type, id
    fields := .table fields
    disabled := .bool (part entries "disabled" (.bool false)).truth
    comment := part entries "comment" .null
    output := .bool (part entries "output" (.bool false)).truth }
  let building ← get
  let (workspace, h) := building.workspace.newBlock block
  set { building with workspace }
  return h

/-- What can be read out of a value that stands in an entry. -/
structure Content where
  /-- The value is an entry. -/
  block : Builder Nat
  /-- The value holds the inputs of a block. -/
  slots : SlotKind → Nat → Builder Unit

/-- Reads what stands under a name, if anything does. -/
def under (contents : List (Value × Content)) (name : String) (read : Content → Builder Unit) :
    Builder Unit :=
  match contents.find? (·.1.same (.str name)) with
  | none => pure ()
  | some (_, content) => read content

/-- Reads an entry whose contents are known. -/
def readEntry (entries : Entries) (contents : List (Value × Content)) : Builder Nat := do
  match Entries.get? entries (.str "type") with
  | none => throw (FormatError.untypedEntry (.table entries)).fault
  | some type =>
    let h ← makeBlock entries type
    under contents "inputs" (·.slots .value h)
    under contents "statements" (·.slots .statement h)
    if (part entries "next" .null).truth then
      under contents "next" fun content => do
        let child ← content.block
        change (·.follow h child)
    return h

mutual
/-- Reads an entry with all that is in it, and gives its block. -/
def readBlock : Value → Builder Nat
  | .table entries => readEntry entries (contents entries)
  | v => throw (FormatError.untypedEntry v).fault
termination_by structural v => v

def contents : Entries → List (Value × Content)
  | [] => []
  | (name, v) :: rest => (name, { block := readBlock v, slots := readInputs v }) :: contents rest
termination_by structural entries => entries

/-- Reads the inputs of a block. -/
def readInputs : Value → SlotKind → Nat → Builder Unit
  | .table inputs => readSlots inputs
  | _ => fun _ _ => throw .noParts
termination_by structural v => v

/-- Reads inputs one after the other. An empty one is declared only. -/
def readSlots : Entries → SlotKind → Nat → Builder Unit
  | [], _, _ => pure ()
  | (name, v) :: rest, kind, h => do
    if v.isNull then change (·.addSlot h name kind)
    else
      let child ← readBlock v
      change (·.connect h name kind child)
    readSlots rest kind h
termination_by structural inputs => inputs
end

/-- Reads the entries of a list, one after the other. -/
def readAll (entries : List Value) : Builder Unit := entries.forM fun entry => do
  let _ ← readBlock entry

/-- The workspace of a document. -/
def load (document : Value) : Except Fault Workspace :=
  match document with
  | .table entries =>
    match part entries "blocks" (.list []) with
    | .list blocks => do
      let (_, building) ← (readAll blocks).run {}
      return building.workspace
    | _ => .error (.format .noBlockList)
  | _ => .error (.format .noBlockList)

end BlockCode.Document
