-- The tree of a block: its inputs with all that is plugged into them, and the
-- chain that follows it. A tree has no cycles, so work on it ends by its shape.
import BlockCode.Workspace.Basic

namespace BlockCode

mutual
/-- A block, its inputs and the blocks that follow it, or nothing. -/
inductive Chain where
  | nil
  | cons (block : Block) (inputs : Inputs) (next : Chain)

/-- Named inputs with what is plugged into them, in the order of declaration. -/
inductive Inputs where
  | nil
  | cons (name : Value) (kind : SlotKind) (target : Chain) (rest : Inputs)
end

instance : Inhabited Chain := ⟨.nil⟩
instance : Inhabited Inputs := ⟨.nil⟩

/-! ## Looking at trees -/

mutual
/-- All blocks of a tree: each before what hangs on it, inputs before the next. -/
def Chain.blocks : Chain → List Block
  | .nil => []
  | .cons b inputs next => b :: (inputs.blocks ++ next.blocks)

def Inputs.blocks : Inputs → List Block
  | .nil => []
  | .cons _ _ target rest => target.blocks ++ rest.blocks
end

/-- The first block. -/
def Chain.head? : Chain → Option Block
  | .nil => none
  | .cons b _ _ => some b

def Chain.isEmpty : Chain → Bool
  | .nil => true
  | .cons _ _ _ => false

/-- There is an input of this name, plugged or empty. -/
def Inputs.has (name : Value) : Inputs → Bool
  | .nil => false
  | .cons n _ _ rest => n.same name || rest.has name

/-- What is plugged into the input of this name. -/
def Inputs.target (name : Value) : Inputs → Chain
  | .nil => .nil
  | .cons n _ target rest => if n.same name then target else rest.target name

/-- What is plugged into the inputs of a kind. -/
def Inputs.targets (kind : SlotKind) : Inputs → List Chain
  | .nil => []
  | .cons _ k target rest =>
    if k == kind then target :: rest.targets kind else rest.targets kind

/-! ## Trees of a workspace -/

def Inputs.ofSlots (tree : Option Nat → Chain) : List Slot → Inputs
  | [] => .nil
  | s :: rest => .cons s.name s.kind (tree s.target) (ofSlots tree rest)

namespace Workspace

/-- The tree of a block, as deep as the fuel allows. -/
def treeWithin (w : Workspace) : Nat → Option Nat → Chain
  | 0, _ => .nil
  | _ + 1, none => .nil
  | fuel + 1, some h =>
    match w.node? h with
    | none => .nil
    | some n => .cons n.block (.ofSlots (w.treeWithin fuel) n.slots) (w.treeWithin fuel n.next)

/-- The tree of a block. No path without cycles is longer than the number of
blocks, so this fuel reaches every end. -/
def tree (w : Workspace) (h : Nat) : Chain := w.treeWithin w.nodes.length (some h)

/-- The trees of the top blocks, in their order. -/
def trees (w : Workspace) : List Chain := w.topBlocks.map w.tree

/-- A block and all blocks that hang on it. -/
def descendants (w : Workspace) (h : Nat) : List Nat := (w.tree h).blocks.map (·.handle)

end Workspace
end BlockCode
