-- What grows out of trees. The nodes of a tree stand side by side in the order of its
-- blocks, so a tree and the place where it begins say what every node holds.
import BlockCode.Proofs.Document.Reading

namespace BlockCode

/-- The block as it stands at its place. Without an id it gets one by its number. -/
def Block.placed (b : Block) (h : Nat) : Block :=
  { b with
    handle := h
    id := if b.id.isNull then .str ("b" ++ toString (h + 1)) else b.id }

namespace Workspace

/-- The inputs with one more that is declared. -/
def declare (slots : List Slot) (name : Value) (kind : SlotKind) : List Slot :=
  if slots.any (·.name.same name) then slots else slots ++ [({ name, kind } : Slot)]

/-- The inputs of a block when all is plugged in. The first block that is plugged in
stands at `start`. -/
def slotsFrom (slots : List Slot) (start : Nat) : Inputs → List Slot
  | .nil => slots
  | .cons name kind target rest =>
    if target.isEmpty then slotsFrom (declare slots name kind) start rest
    else slotsFrom (plugInto name start (declare slots name kind)) (start + target.blocks.length) rest

/-- The workspace of these nodes, all of which are members. -/
def ofNodes (nodes : List Node) : Workspace := { nodes, members := List.range nodes.length }

@[simp] theorem nodes_ofNodes (nodes : List Node) : (ofNodes nodes).nodes = nodes := rfl

end Workspace

open Workspace

mutual
/-- The nodes of a tree that begins at `start`. -/
def Chain.nodes (parent : Option Nat) (start : Nat) : Chain → List Node
  | .nil => []
  | .cons b inputs next =>
    { block := b.placed start
      slots := slotsFrom [] (start + 1) inputs
      next := if next.isEmpty then none else some (start + 1 + inputs.blocks.length)
      parent } ::
    (inputs.nodes start (start + 1) ++ next.nodes (some start) (start + 1 + inputs.blocks.length))

/-- The nodes of what is plugged into the inputs of the block `host`. -/
def Inputs.nodes (host start : Nat) : Inputs → List Node
  | .nil => []
  | .cons _ _ target rest =>
    target.nodes (some host) start ++ rest.nodes host (start + target.blocks.length)
end

/-! ## How many nodes there are -/

theorem Inputs.length_nodes_of_every {inputs : Inputs}
    (h : inputs.Every fun c => ∀ parent start, (c.nodes parent start).length = c.blocks.length)
    (host start : Nat) : (inputs.nodes host start).length = inputs.blocks.length := by
  induction inputs using Inputs.inductionOn generalizing start with
  | nil => rfl
  | cons name kind target rest ih =>
    rw [Inputs.nodes, Inputs.blocks, List.length_append, List.length_append, h.1, ih h.2]

theorem Chain.length_nodes (c : Chain) (parent : Option Nat) (start : Nat) :
    (c.nodes parent start).length = c.blocks.length := by
  induction c using Chain.inductionOn generalizing parent start with
  | nil => rfl
  | cons b inputs next hin hnext =>
    rw [Chain.nodes, Chain.blocks, List.length_cons, List.length_cons, List.length_append,
      List.length_append, Inputs.length_nodes_of_every hin, hnext]

theorem Inputs.length_nodes (inputs : Inputs) (host start : Nat) :
    (inputs.nodes host start).length = inputs.blocks.length :=
  Inputs.length_nodes_of_every (Inputs.every_of_forall Chain.length_nodes inputs) host start

/-- A tree that is plugged in differs from one that stands alone in its first node. -/
theorem Chain.nodes_parent {c : Chain} (hc : c.isEmpty = false) (start : Nat) :
    ∃ (first : Node) (rest : List Node), first.parent = none ∧
      c.nodes none start = first :: rest ∧
      ∀ host, c.nodes (some host) start = { first with parent := some host } :: rest := by
  cases c with
  | nil => cases hc
  | cons b inputs next => exact ⟨_, _, rfl, rfl, fun _ => rfl⟩

/-! ## One change to the nodes -/

namespace Workspace

theorem modify_at (before after : List Node) (n : Node) (f : Node → Node) :
    (before ++ n :: after).modify before.length f = before ++ f n :: after := by
  induction before with
  | nil => rfl
  | cons m before ih =>
    rw [List.cons_append, List.length_cons, List.modify_succ_cons, ih, List.cons_append]

variable {before after : List Node} {n : Node} {h : Nat}

theorem update_at (hh : h = before.length) (f : Node → Node) :
    (ofNodes (before ++ n :: after)).update h f = ofNodes (before ++ f n :: after) := by
  unfold ofNodes update
  rw [hh, modify_at]
  simp only [List.length_append, List.length_cons]

theorem detach_at (hh : h = before.length) (hn : n.parent = none) :
    (ofNodes (before ++ n :: after)).detach h = ofNodes (before ++ n :: after) := by
  unfold detach parent? node? ofNodes
  rw [hh, List.getElem?_append_right (Nat.le_refl _), Nat.sub_self]
  simp only [List.getElem?_cons_zero, Option.bind_some, hn]

theorem addSlot_at (hh : h = before.length) (name : Value) (kind : SlotKind) :
    (ofNodes (before ++ n :: after)).addSlot h name kind =
      ofNodes (before ++ { n with slots := declare n.slots name kind } :: after) := by
  unfold addSlot declare
  rw [update_at hh]
  split
  · rfl
  · rfl

variable {middle : List Node} {child : Node} {start : Nat}

theorem nodes_between (before middle after : List Node) (n child : Node) :
    before ++ n :: (middle ++ child :: after) = before ++ n :: middle ++ child :: after := by
  rw [List.append_assoc, List.cons_append]

theorem length_between (before middle : List Node) (m n : Node) :
    (before ++ m :: middle).length = (before ++ n :: middle).length := by
  rw [List.length_append, List.length_append, List.length_cons, List.length_cons]

theorem connect_at (hh : h = before.length) (hstart : start = (before ++ n :: middle).length)
    (hchild : child.parent = none) (name : Value) (kind : SlotKind) :
    (ofNodes (before ++ n :: middle ++ child :: after)).connect h name kind start =
      ofNodes (before ++ { n with slots := plugInto name start (declare n.slots name kind) } ::
        middle ++ { child with parent := some h } :: after) := by
  unfold connect
  rw [← nodes_between, addSlot_at hh, nodes_between]
  simp only
  rw [detach_at (hstart.trans (length_between _ _ _ _)) hchild, ← nodes_between, update_at hh,
    nodes_between, update_at (hstart.trans (length_between _ _ _ _))]

theorem follow_at (hh : h = before.length) (hstart : start = (before ++ n :: middle).length)
    (hchild : child.parent = none) :
    (ofNodes (before ++ n :: middle ++ child :: after)).follow h start =
      ofNodes (before ++ { n with next := some start } ::
        middle ++ { child with parent := some h } :: after) := by
  unfold follow
  simp only
  rw [detach_at hstart hchild, ← nodes_between, update_at hh, nodes_between,
    update_at (hstart.trans (length_between _ _ _ _))]

theorem newBlock_ofNodes (nodes : List Node) (b : Block) :
    ((ofNodes nodes).newBlock b).1 = ofNodes (nodes ++ [{ block := b.placed nodes.length }]) := by
  unfold newBlock make add ofNodes nextId size Block.placed
  simp only [List.length_range, List.length_append, List.length_cons, List.length_nil,
    List.range_succ]

/-! ## Growing, all at once -/

/-- What is said of the growth of a tree: its nodes stand behind all others. -/
def Grows (c : Chain) : Prop := ∀ nodes : List Node,
  (ofNodes nodes).grow c = ofNodes (nodes ++ c.nodes none nodes.length)

theorem growInputs_ofNodes {inputs : Inputs} (hin : inputs.Every Grows) (hh : h = before.length)
    (hstart : start = (before ++ n :: after).length) :
    (ofNodes (before ++ n :: after)).growInputs h inputs =
      ofNodes (before ++ { n with slots := slotsFrom n.slots start inputs } ::
        (after ++ inputs.nodes h start)) := by
  induction inputs using Inputs.inductionOn generalizing n after start with
  | nil => rw [growInputs, Inputs.nodes, slotsFrom, List.append_nil]
  | cons name kind target rest ih =>
    rw [growInputs, Inputs.nodes, slotsFrom]
    rcases hempty : target.isEmpty with _ | _
    · simp only [Bool.false_eq_true, if_false]
      obtain ⟨first, others, hparent, halone, hplugged⟩ := Chain.nodes_parent hempty start
      have hlength : target.blocks.length = others.length + 1 := by
        rw [← Chain.length_nodes target none start, halone, List.length_cons]
      have hwhere : (ofNodes (before ++ n :: after)).nodes.length = start := hstart.symm
      have hrest : ∀ m : Node, start + target.blocks.length =
          (before ++ m :: (after ++ { first with parent := some h } :: others)).length := by
        intro m
        rw [hstart, hlength]
        simp only [List.length_append, List.length_cons]
        omega
      rw [hin.1, hwhere, ← hstart, halone, connect_at hh hstart hparent, ← nodes_between,
        ih hin.2 (hrest _), hplugged]
      simp only [List.append_assoc, List.cons_append]
    · simp only [if_true]
      have htarget : target = .nil := by
        cases target with
        | nil => rfl
        | cons b inputs next => cases hempty
      subst htarget
      rw [addSlot_at hh, ih hin.2 (hstart.trans (length_between _ _ _ _))]
      rfl

theorem grows (c : Chain) : Grows c := by
  induction c using Chain.inductionOn with
  | nil =>
    intro nodes
    rw [grow, Chain.nodes, List.append_nil]
  | cons b inputs next hin hnext =>
    intro nodes
    have hstart : ∀ n : Node, nodes.length + 1 = (nodes ++ [n]).length := by
      intro n
      rw [List.length_append, List.length_singleton]
    rw [grow, Chain.nodes, newBlock_ofNodes, nodes_ofNodes, growInputs_ofNodes hin rfl (hstart _),
      List.nil_append, nodes_ofNodes]
    rcases hempty : next.isEmpty with _ | _
    · simp only [Bool.false_eq_true, if_false]
      obtain ⟨first, others, hparent, halone, hplugged⟩ :=
        Chain.nodes_parent hempty (nodes.length + 1 + inputs.blocks.length)
      have hwhere : ∀ m : Node, nodes.length + 1 + inputs.blocks.length =
          (nodes ++ m :: inputs.nodes nodes.length (nodes.length + 1)).length := by
        intro m
        rw [List.length_append, List.length_cons, Inputs.length_nodes]
        omega
      rw [hnext, ← hwhere, halone, follow_at rfl (hwhere _) hparent, hplugged, nodes_between]
    · simp only [if_true]
      have hnil : next = .nil := by
        cases next with
        | nil => rfl
        | cons b inputs next => cases hempty
      rw [hnil, Chain.nodes, List.append_nil]

/-- The nodes of trees that stand side by side, attached to no other. -/
def forest (start : Nat) : List Chain → List Node
  | [] => []
  | c :: rest => c.nodes none start ++ forest (start + c.blocks.length) rest

theorem growAll_ofNodes (nodes : List Node) (trees : List Chain) :
    Document.growAll (ofNodes nodes) trees = ofNodes (nodes ++ forest nodes.length trees) := by
  induction trees generalizing nodes with
  | nil =>
    rw [forest, List.append_nil]
    rfl
  | cons c rest ih =>
    show Document.growAll ((ofNodes nodes).grow c) rest = _
    rw [grows c, ih, forest, List.length_append, Chain.length_nodes, List.append_assoc]

end Workspace

namespace Document

theorem load_ok {d : Value} {w : Workspace} (h : load d = .ok w) :
    ∃ trees seen, outlines d = some trees ∧ claims [] (trees.flatMap Chain.ids) = some seen ∧
      w = ofNodes (forest 0 trees) := by
  have hrun := load_run d
  rw [h] at hrun
  rcases hout : outlines d with _ | trees
  · rw [hout] at hrun
    cases hrun
  · rcases hclaim : claims [] (trees.flatMap Chain.ids) with _ | seen
    · rw [hout, Option.bind_some, hclaim] at hrun
      cases hrun
    · rw [hout, Option.bind_some, hclaim] at hrun
      cases hrun
      exact ⟨trees, seen, rfl, hclaim, growAll_ofNodes [] trees⟩

theorem load_of_outlines {d : Value} {trees : List Chain} {seen : List Value}
    (hout : outlines d = some trees) (hclaim : claims [] (trees.flatMap Chain.ids) = some seen) :
    load d = .ok (ofNodes (forest 0 trees)) := by
  have hrun := load_run d
  rw [hout, Option.bind_some, hclaim] at hrun
  have hgrown : growAll {} trees = ofNodes (forest 0 trees) := growAll_ofNodes [] trees
  rcases h : load d with fault | w
  · rw [h] at hrun
    cases hrun
  · rw [h, hgrown] at hrun
    cases hrun
    rfl

end Document
end BlockCode
