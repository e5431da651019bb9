-- The tree that an entry describes, apart from any workspace. Reading a document does
-- three things at once: it finds the trees of its entries, it claims their ids, and it
-- grows the trees in the workspace. Here they are told one by one, and it is shown that
-- reading is all three together.
import BlockCode.Document.Load
import BlockCode.Proofs.Value.Sameness
import BlockCode.Proofs.Workspace.Tree

namespace BlockCode

/-- Inputs and those that come behind them. -/
def Inputs.append : Inputs → Inputs → Inputs
  | .nil, more => more
  | .cons name kind target rest, more => .cons name kind target (rest.append more)

theorem Inputs.blocks_append (inputs more : Inputs) :
    (inputs.append more).blocks = inputs.blocks ++ more.blocks := by
  induction inputs using Inputs.inductionOn with
  | nil => rfl
  | cons name kind target rest ih =>
    simp only [Inputs.append, Inputs.blocks, ih, List.append_assoc]

/-- The ids of the blocks of a tree, as they were given. -/
def Chain.ids (c : Chain) : List Value := c.blocks.map (·.id)

def Inputs.ids (inputs : Inputs) : List Value := inputs.blocks.map (·.id)

/-! ## Growing -/

namespace Workspace

mutual
/-- Makes the blocks of a tree, each before what hangs on it, and connects them. -/
def grow (w : Workspace) : Chain → Workspace
  | .nil => w
  | .cons b inputs next =>
    let grown := (w.newBlock b).1.growInputs w.nodes.length inputs
    if next.isEmpty then grown
    else (grown.grow next).follow w.nodes.length grown.nodes.length

/-- Grows what is plugged into the inputs of the block `h`. -/
def growInputs (w : Workspace) (h : Nat) : Inputs → Workspace
  | .nil => w
  | .cons name kind target rest =>
    if target.isEmpty then (w.addSlot h name kind).growInputs h rest
    else ((w.grow target).connect h name kind w.nodes.length).growInputs h rest
end

theorem growInputs_append (w : Workspace) (h : Nat) (inputs more : Inputs) :
    w.growInputs h (inputs.append more) = (w.growInputs h inputs).growInputs h more := by
  induction inputs using Inputs.inductionOn generalizing w with
  | nil => rfl
  | cons name kind target rest ih =>
    simp only [Inputs.append, growInputs]
    split
    · exact ih _
    · exact ih _

end Workspace

namespace Document

/-! ## Claiming -/

/-- Claims ids one after the other. Nobody claims what is seen. -/
def claims (seen : List Value) : List Value → Option (List Value)
  | [] => some seen
  | id :: rest =>
    if id.isNull then claims seen rest
    else if id.isKey && !seen.any (id.same ·) then claims (id :: seen) rest
    else none

theorem claims_append (seen ids more : List Value) :
    claims seen (ids ++ more) = (claims seen ids).bind (claims · more) := by
  induction ids generalizing seen with
  | nil => rfl
  | cons id rest ih =>
    simp only [List.cons_append, claims]
    split
    · exact ih seen
    · split
      · exact ih _
      · rfl

/-! ## Outlines -/

/-- What a value that stands in an entry describes. -/
structure Sketch where
  block : Option Chain
  slots : SlotKind → Option Inputs

/-- What stands under a name, or `nothing` if nothing does. -/
def sketched {α : Type} (sketches : List (Value × Sketch)) (name : String) (nothing : α)
    (read : Sketch → Option α) : Option α :=
  match sketches.find? (·.1.same (.str name)) with
  | none => some nothing
  | some (_, sketch) => read sketch

/-- The block of an entry as it is given. -/
def rawBlock (entries : Entries) (type : Value) : Option Block := do
  let fields ← (fields (part entries "fields" (.table []))).toOption
  return {
    type
    id := part entries "id" .null
    fields := .table fields
    disabled := .bool (part entries "disabled" (.bool false)).truth
    comment := part entries "comment" .null
    output := .bool (part entries "output" (.bool false)).truth }

/-- The tree that follows an entry. -/
def outlineNext (entries : Entries) (sketches : List (Value × Sketch)) : Option Chain :=
  if (part entries "next" .null).truth then sketched sketches "next" .nil (·.block) else some .nil

def outlineEntry (entries : Entries) (sketches : List (Value × Sketch)) : Option Chain := do
  let type ← Entries.get? entries (.str "type")
  let b ← rawBlock entries type
  let values ← sketched sketches "inputs" .nil (·.slots .value)
  let statements ← sketched sketches "statements" .nil (·.slots .statement)
  let next ← outlineNext entries sketches
  return .cons b (values.append statements) next

mutual
/-- The tree of an entry, or nothing if the value is no entry. -/
def outline : Value → Option Chain
  | .table entries => outlineEntry entries (sketches entries)
  | _ => none
termination_by structural v => v

def sketches : Entries → List (Value × Sketch)
  | [] => []
  | (name, v) :: rest => (name, { block := outline v, slots := outlineInputs v }) :: sketches rest
termination_by structural entries => entries

/-- The inputs of a block. -/
def outlineInputs : Value → SlotKind → Option Inputs
  | .table inputs => outlineSlots inputs
  | _ => fun _ => none
termination_by structural v => v

def outlineSlots : Entries → SlotKind → Option Inputs
  | [], _ => some .nil
  | (name, v) :: rest, kind =>
    if v.isNull then (outlineSlots rest kind).map (.cons name kind .nil)
    else (outline v).bind fun target => (outlineSlots rest kind).map (.cons name kind target)
termination_by structural inputs => inputs
end

theorem outline_not_empty {v : Value} {c : Chain} (h : outline v = some c) : c.isEmpty = false := by
  cases v with
  | table entries =>
    unfold outline outlineEntry at h
    simp only [Option.bind_eq_bind, Option.bind_eq_some_iff, pure, Option.some.injEq] at h
    obtain ⟨type, -, b, -, values, -, statements, -, next, -, rfl⟩ := h
    rfl
  | _ => cases h

/-! ## What stands under a name -/

theorem find_sketches (entries : Entries) (key : Value) :
    (sketches entries).find? (·.1.same key) =
      (entries.find? (·.1.same key)).map fun e =>
        (e.1, { block := outline e.2, slots := outlineInputs e.2 }) := by
  induction entries with
  | nil => rfl
  | cons e rest ih =>
    rcases e with ⟨name, v⟩
    rw [sketches, List.find?_cons, List.find?_cons]
    rcases name.same key with _ | _
    · exact ih
    · rfl

theorem sketched_eq {α : Type} (entries : Entries) (name : String) (nothing : α)
    (read : Sketch → Option α) :
    sketched (sketches entries) name nothing read =
      match Entries.get? entries (.str name) with
      | none => some nothing
      | some v => read { block := outline v, slots := outlineInputs v } := by
  unfold sketched Entries.get?
  rw [find_sketches]
  generalize entries.find? (·.1.same (.str name)) = found
  cases found with
  | none => rfl
  | some e => rfl

end Document
end BlockCode
