-- Trees whose blocks have inputs with names of their own. Such a tree stands in a workspace as
-- it is: its blocks come one after the other, each at its place, and none is lost.
import BlockCode.Proofs.Document.Identity
import BlockCode.Proofs.Document.Tidy

namespace BlockCode

open Workspace

mutual
/-- No block has two inputs of one name. -/
def Chain.Apart : Chain → Prop
  | .nil => True
  | .cons _ inputs next => NamesApart inputs.heads ∧ inputs.Apart ∧ next.Apart

def Inputs.Apart : Inputs → Prop
  | .nil => True
  | .cons _ _ target rest => target.Apart ∧ rest.Apart
end

theorem Inputs.apart_append {inputs more : Inputs} (h : inputs.Apart) (hmore : more.Apart) :
    (inputs.append more).Apart := by
  induction inputs using Inputs.inductionOn with
  | nil => exact hmore
  | cons name kind target rest ih => exact ⟨h.1, ih h.2⟩

/-- Inputs whose names are apart settle each where it stands. -/
theorem Chain.settle_apart {b : Block} {inputs : Inputs} {next : Chain}
    (h : (Chain.cons b inputs next).Apart) (start : Nat) :
    (Chain.cons b inputs next).settle start = .cons (b.placed start)
      (inputs.settleEach (start + 1)) (next.settle (start + 1 + inputs.blocks.length)) := by
  rw [Chain.settle, Inputs.settleFrom_apart (by simpa [Inputs.heads] using h.1)]
  rfl

/-! ## Blocks at their places -/

/-- Blocks one after the other, the first at `start`. -/
def placedFrom (start : Nat) (blocks : List Block) : List Block :=
  blocks.mapIdx fun k b => b.placed (start + k)

@[simp] theorem length_placedFrom (start : Nat) (blocks : List Block) :
    (placedFrom start blocks).length = blocks.length := by
  simp [placedFrom]

theorem placedFrom_append (start : Nat) (blocks more : List Block) :
    placedFrom start (blocks ++ more) =
      placedFrom start blocks ++ placedFrom (start + blocks.length) more := by
  simp [placedFrom, List.mapIdx_append, Nat.add_assoc, Nat.add_comm blocks.length]

theorem placedFrom_cons (start : Nat) (b : Block) (rest : List Block) :
    placedFrom start (b :: rest) = b.placed start :: placedFrom (start + 1) rest := by
  rw [← List.singleton_append, placedFrom_append]
  rfl

theorem handles_placedFrom (start : Nat) (blocks : List Block) :
    (placedFrom start blocks).map (·.handle) = List.range' start blocks.length := by
  induction blocks generalizing start with
  | nil => rfl
  | cons b rest ih =>
    rw [placedFrom_cons, List.map_cons, ih, List.length_cons, List.range'_succ]
    rfl

/-! ## Nodes -/

theorem Inputs.blocks_nodes {inputs : Inputs}
    (hin : inputs.Every fun c => ∀ parent start,
      (c.nodes parent start).map (·.block) = placedFrom start c.blocks) (host start : Nat) :
    (inputs.nodes host start).map (·.block) = placedFrom start inputs.blocks := by
  induction inputs using Inputs.inductionOn generalizing start with
  | nil => rfl
  | cons name kind target rest ih =>
    rw [Inputs.nodes, List.map_append, hin.1, ih hin.2, Inputs.blocks, placedFrom_append]

theorem Chain.blocks_nodes (c : Chain) (parent : Option Nat) (start : Nat) :
    (c.nodes parent start).map (·.block) = placedFrom start c.blocks := by
  induction c using Chain.inductionOn generalizing parent start with
  | nil => rfl
  | cons b inputs next hin hnext =>
    rw [Chain.nodes, List.map_cons, List.map_append, Inputs.blocks_nodes hin, hnext, Chain.blocks,
      placedFrom_cons, placedFrom_append]

theorem blocks_forest (start : Nat) (trees : List Chain) :
    (forest start trees).map (·.block) = placedFrom start (trees.flatMap Chain.blocks) := by
  induction trees generalizing start with
  | nil => rfl
  | cons c rest ih =>
    rw [forest, List.map_append, Chain.blocks_nodes, ih, List.flatMap_cons, placedFrom_append]

/-! ## Trees that have settled -/

theorem Inputs.blocks_settleEach {inputs : Inputs}
    (hin : inputs.Every fun c => c.Apart → ∀ start,
      (c.settle start).blocks = placedFrom start c.blocks) (h : inputs.Apart) (start : Nat) :
    (inputs.settleEach start).blocks = placedFrom start inputs.blocks := by
  induction inputs using Inputs.inductionOn generalizing start with
  | nil => rfl
  | cons name kind target rest ih =>
    rw [Inputs.settleEach, Inputs.blocks, hin.1 h.1, ih hin.2 h.2, Inputs.blocks, placedFrom_append]

theorem Chain.blocks_settle (c : Chain) :
    c.Apart → ∀ start, (c.settle start).blocks = placedFrom start c.blocks := by
  induction c using Chain.inductionOn with
  | nil => exact fun _ _ => rfl
  | cons b inputs next hin hnext =>
    intro h start
    rw [Chain.settle_apart h, Chain.blocks, Inputs.blocks_settleEach hin h.2.1, hnext h.2.2,
      Chain.blocks, placedFrom_cons, placedFrom_append]

theorem blocks_settled {trees : List Chain} (h : ∀ c ∈ trees, c.Apart) (start : Nat) :
    (settled start trees).flatMap Chain.blocks = placedFrom start (trees.flatMap Chain.blocks) := by
  induction trees generalizing start with
  | nil => rfl
  | cons c rest ih =>
    rw [settled, List.flatMap_cons, c.blocks_settle (h c List.mem_cons_self),
      ih fun d hd => h d (List.mem_cons_of_mem _ hd), List.flatMap_cons, placedFrom_append]

theorem descendants_forest {trees : List Chain} (hempty : ∀ c ∈ trees, c.isEmpty = false)
    (h : ∀ c ∈ trees, c.Apart) :
    (ofNodes (forest 0 trees)).topBlocks.flatMap (ofNodes (forest 0 trees)).descendants =
      (ofNodes (forest 0 trees)).members := by
  have htrees := trees_forest hempty
  have hlength := congrArg List.length (blocks_forest 0 trees)
  rw [List.length_map, length_placedFrom] at hlength
  unfold Workspace.trees at htrees
  unfold descendants
  rw [← List.map_flatMap, ← List.flatMap_map, htrees, blocks_settled h, handles_placedFrom]
  simp [ofNodes, hlength, List.range_eq_range']

end BlockCode
