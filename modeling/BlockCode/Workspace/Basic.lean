-- The workspace: all blocks that were made, how they are connected, and which of
-- them belong to the workspace. A block is connected in at most one place: it
-- leaves its old place before it takes a new one.
import BlockCode.Workspace.Block

namespace BlockCode

/-- A named input of a block, and the block that is plugged into it. -/
structure Slot where
  name : Value
  kind : SlotKind
  target : Option Nat := none
deriving Repr, Inhabited

/-- A block with its connections. -/
structure Node where
  block : Block
  /-- The inputs, in the order in which they were declared. -/
  slots : List Slot := []
  next : Option Nat := none
  parent : Option Nat := none
deriving Repr, Inhabited

structure Workspace where
  /-- Every block that was made; the handle of a block is its place here. -/
  nodes : List Node := []
  /-- The blocks of the workspace, in the order in which they were added. -/
  members : List Nat := []
deriving Repr, Inhabited

namespace Workspace

/-! ## Looking -/

def node? (w : Workspace) (h : Nat) : Option Node := w.nodes[h]?

def block? (w : Workspace) (h : Nat) : Option Block := (w.node? h).map (·.block)

def parent? (w : Workspace) (h : Nat) : Option Nat := (w.node? h).bind (·.parent)

def slots (w : Workspace) (h : Nat) : List Slot := ((w.node? h).map (·.slots)).getD []

def slot? (w : Workspace) (h : Nat) (name : Value) : Option Slot :=
  (w.slots h).find? (·.name.same name)

def slotsOf (w : Workspace) (h : Nat) (kind : SlotKind) : List Slot :=
  (w.slots h).filter (·.kind == kind)

/-- The blocks that are plugged into the inputs, then the block that follows. -/
def children (w : Workspace) (h : Nat) : List Nat :=
  match w.node? h with
  | none => []
  | some n => n.slots.filterMap (·.target) ++ n.next.toList

/-- The members that are not attached to another block. -/
def topBlocks (w : Workspace) : List Nat := w.members.filter fun h => (w.parent? h).isNone

def size (w : Workspace) : Nat := w.members.length

/-- The first member with this id. -/
def findId? (w : Workspace) (id : Value) : Option Nat :=
  w.members.find? fun h => (w.block? h).any (·.id.equals id)

/-! ## Making blocks -/

/-- Changes the node of a block. -/
def update (w : Workspace) (h : Nat) (f : Node → Node) : Workspace :=
  { w with nodes := w.nodes.modify h f }

/-- Makes a block that does not belong to the workspace. -/
def make (w : Workspace) (b : Block) : Workspace × Nat :=
  let h := w.nodes.length
  ({ w with nodes := w.nodes ++ [{ block := { b with handle := h } }] }, h)

/-- Adds a block that was made before. -/
def add (w : Workspace) (h : Nat) : Workspace := { w with members := w.members ++ [h] }

/-- The id of a block that was given none. -/
def nextId (w : Workspace) : Value := .str ("b" ++ toString (w.size + 1))

/-- Makes a block of the workspace. Without an id it gets one by its number. -/
def newBlock (w : Workspace) (b : Block) : Workspace × Nat :=
  let id := if b.id.isNull then w.nextId else b.id
  let (w, h) := w.make { b with id }
  (w.add h, h)

/-! ## Connecting -/

/-- Declares an input. An input of this name that is there already stays. -/
def addSlot (w : Workspace) (h : Nat) (name : Value) (kind : SlotKind) : Workspace :=
  w.update h fun n =>
    if n.slots.any (·.name.same name) then n else { n with slots := n.slots ++ [{ name, kind }] }

/-- A node that no longer holds the child in any of its places. -/
def release (child : Nat) (n : Node) : Node :=
  { n with
    next := if n.next == some child then none else n.next
    slots := n.slots.map fun s => if s.target == some child then { s with target := none } else s }

/-- Takes a block out of the place where it is attached. -/
def detach (w : Workspace) (child : Nat) : Workspace :=
  match w.parent? child with
  | none => w
  | some p => (w.update p (release child)).update child fun n => { n with parent := none }

/-- The inputs with the child plugged into the one of this name. -/
def plugInto (name : Value) (child : Nat) : List Slot → List Slot
  | [] => []
  | s :: rest =>
    if s.name.same name then { s with target := some child } :: rest
    else s :: plugInto name child rest

/-- Plugs a block into an input, which is declared first if it is not there. -/
def connect (w : Workspace) (h : Nat) (name : Value) (kind : SlotKind) (child : Nat) : Workspace :=
  let w := (w.addSlot h name kind).detach child
  let w := w.update h fun n => { n with slots := plugInto name child n.slots }
  w.update child fun n => { n with parent := some h }

/-- Lets a block follow another. -/
def follow (w : Workspace) (h child : Nat) : Workspace :=
  let w := w.detach child
  let w := w.update h fun n => { n with next := some child }
  w.update child fun n => { n with parent := some h }

/-- Changes a block and none of its connections. -/
def edit (w : Workspace) (h : Nat) (f : Block → Block) : Workspace :=
  w.update h fun n => { n with block := { f n.block with handle := n.block.handle } }

end Workspace
end BlockCode
