-- What hangs on a block, told by ids. Every block below another has its tree in the tree of
-- that other, and the tree of a block tells what is plugged into it, what follows it, and which
-- blocks are below it.
import BlockCode.Proofs.Document.Standing
import BlockCode.Proofs.Workspace.Filling

namespace BlockCode

open Relation Workspace

/-! ## The trees in a tree -/

mutual
/-- The trees of all blocks of a tree: each before those of what hangs on it. -/
def Chain.parts : Chain → List Chain
  | .nil => []
  | .cons b inputs next => .cons b inputs next :: (inputs.parts ++ next.parts)

def Inputs.parts : Inputs → List Chain
  | .nil => []
  | .cons _ _ target rest => target.parts ++ rest.parts
end

theorem Chain.self_mem_parts {c : Chain} (h : c.isEmpty = false) : c ∈ c.parts := by
  cases c with
  | nil => cases h
  | cons b inputs next => exact List.mem_cons_self

theorem Inputs.parts_append (inputs more : Inputs) :
    (inputs.append more).parts = inputs.parts ++ more.parts := by
  induction inputs using Inputs.inductionOn with
  | nil => rfl
  | cons name kind target rest ih => simp [append, parts, ih]

theorem Inputs.parts_ofSlots (tree : Option Nat → Chain) (slots : List Slot) :
    (Inputs.ofSlots tree slots).parts = slots.flatMap fun s => (tree s.target).parts := by
  induction slots with
  | nil => rfl
  | cons s rest ih => simp [ofSlots, parts, ih]

/-- The inputs with their names and kinds, each with the id of what is plugged in. -/
def Inputs.wires : Inputs → List (Value × SlotKind × Option Value)
  | .nil => []
  | .cons name kind target rest => (name, kind, target.head?.map (·.id)) :: rest.wires

theorem Inputs.wires_ofSlots (tree : Option Nat → Chain) (slots : List Slot) :
    (Inputs.ofSlots tree slots).wires =
      slots.map fun s => (s.name, s.kind, (tree s.target).head?.map (·.id)) := by
  induction slots with
  | nil => rfl
  | cons s rest ih => simp [ofSlots, wires, ih]

namespace Workspace

variable {w : Workspace} {h x : Nat} {n : Node}

/-! ## The trees of blocks -/

theorem tree_of_none (hn : w.node? h = none) : w.tree h = .nil := by
  unfold tree
  rcases w.nodes.length with _ | k
  · rfl
  · simp [treeWithin, hn]

theorem Acyclic.head?_treeAt (hac : w.Acyclic) (o : Option Nat) :
    (w.treeAt o).head? = o.bind w.block? := by
  rcases o with _ | h
  · simp [Chain.head?]
  · rcases hn : w.node? h with _ | n
    · simp [tree_of_none hn, Chain.head?, block?, hn]
    · simp [hac.tree_eq hn, Chain.head?, block?, hn]

/-- What can be reached from a block has its tree in that of the block. -/
theorem Acyclic.tree_mem_parts (hac : w.Acyclic) (hreach : w.Reaches h x) (hn : w.node? x = some n) :
    w.tree x ∈ (w.tree h).parts := by
  induction hreach using ReflTransGen.head_induction_on with
  | refl =>
    refine Chain.self_mem_parts ?_
    rw [hac.tree_eq hn]
    rfl
  | @head h c hc _ ih =>
    obtain ⟨m, hm⟩ := exists_node (lt_of_mem_children hc)
    have hchild : c ∈ m.children := by
      have hc' : c ∈ w.children h := hc
      rwa [children_eq, hm] at hc'
    rw [hac.tree_eq hm, Chain.parts, Inputs.parts_ofSlots, List.mem_cons, List.mem_append,
      List.mem_flatMap]
    unfold Node.children at hchild
    rw [List.mem_append, List.mem_filterMap, Option.mem_toList] at hchild
    rcases hchild with ⟨s, hs, ht⟩ | ht
    · exact Or.inr (Or.inl ⟨s, hs, by rw [ht]; exact ih⟩)
    · exact Or.inr (Or.inr (by rw [ht]; exact ih))

/-- The blocks of a tree are blocks of the workspace, which know their places. -/
theorem block?_of_mem_tree (hplaced : ∀ h n, w.node? h = some n → n.block.handle = h) (fuel : Nat)
    (o : Option Nat) : ∀ b ∈ (w.treeWithin fuel o).blocks, w.block? b.handle = some b := by
  induction fuel generalizing o with
  | zero => exact fun b hb => absurd hb List.not_mem_nil
  | succ fuel ih =>
    intro b hb
    rcases o with _ | h
    · exact absurd hb List.not_mem_nil
    · rcases hn : w.node? h with _ | n
      · simp [treeWithin, hn, Chain.blocks] at hb
      · simp only [treeWithin, hn, Chain.blocks, List.mem_cons, List.mem_append,
          blocks_ofSlots _ (treeWithin_none w fuel), List.mem_flatMap] at hb
        rcases hb with rfl | ⟨c, -, hb⟩ | hb
        · rw [hplaced h n hn, block?, hn, Option.map_some]
        · exact ih _ b hb
        · exact ih _ b hb

/-! ## What is told by ids -/

/-- The id of a block. -/
def idAt (w : Workspace) (h : Nat) : Option Value := (w.block? h).map (·.id)

/-- The id of the block that follows. -/
def followerId (w : Workspace) (h : Nat) : Option Value :=
  ((w.node? h).bind (·.next)).bind w.idAt

/-- Inputs with their names and kinds, each with the id of the block that is plugged in. -/
def wires (w : Workspace) (slots : List Slot) : List (Value × SlotKind × Option Value) :=
  slots.map fun s => (s.name, s.kind, s.target.bind w.idAt)

/-- The ids of a block and of all blocks that hang on it. -/
def idsBelow (w : Workspace) (h : Nat) : List Value := (w.descendants h).filterMap w.idAt

theorem idsBelow_eq (hplaced : ∀ h n, w.node? h = some n → n.block.handle = h) (h : Nat) :
    w.idsBelow h = (w.tree h).ids := by
  unfold idsBelow descendants Chain.ids
  rw [List.filterMap_map, ← List.filterMap_eq_map]
  refine List.filterMap_congr fun b hb => ?_
  have hb' := block?_of_mem_tree hplaced _ _ b hb
  simp [idAt, hb']

theorem Acyclic.idAt_treeAt (hac : w.Acyclic) (o : Option Nat) :
    (w.treeAt o).head?.map (·.id) = o.bind w.idAt := by
  rw [hac.head?_treeAt, Option.map_bind]
  rfl

/-- The tree of a block tells what the block is and what hangs on it. -/
theorem Acyclic.told (hac : w.Acyclic) {b : Block} {inputs : Inputs} {next : Chain}
    (htree : w.tree h = .cons b inputs next) :
    w.block? h = some b ∧ inputs.wires = w.wires (w.slots h) ∧
      next.head?.map (·.id) = w.followerId h := by
  rcases hn : w.node? h with _ | n
  · rw [tree_of_none hn] at htree
    cases htree
  · rw [hac.tree_eq hn] at htree
    cases htree
    refine ⟨by simp [block?, hn], ?_, ?_⟩
    · rw [Inputs.wires_ofSlots]
      simp [wires, slots, hn, hac.idAt_treeAt]
    · rw [hac.idAt_treeAt]
      simp [followerId, hn]

end Workspace
end BlockCode
