-- Workspaces without the blocks that are skipped: those that are disabled and give no value.
-- A skipped block leaves the workspace with all that is plugged into it, and the block behind
-- it takes its place. In the trees of the workspace nothing else changes.
import BlockCode.Proofs.Workspace.Wiring

namespace BlockCode

open Relation

/-- The block is passed over, with all that is plugged into it. -/
def Block.isSkipped (b : Block) : Bool := b.isDisabled && !b.givesValue

/-! ## Trees -/

mutual
/-- The chain without the blocks that are skipped, here and in all inputs. -/
def Chain.cleared : Chain → Chain
  | .nil => .nil
  | .cons b inputs next =>
    if b.isSkipped then next.cleared else .cons b inputs.cleared next.cleared

def Inputs.cleared : Inputs → Inputs
  | .nil => .nil
  | .cons name kind target rest => .cons name kind target.cleared rest.cleared
end

theorem Inputs.cleared_eq (inputs : Inputs) :
    inputs.cleared = inputs.map fun _ => Chain.cleared := by
  induction inputs using Inputs.inductionOn with
  | nil => rfl
  | cons name kind target rest ih => rw [cleared, map, ih]

namespace Workspace

/-! ## The graph -/

def skips (w : Workspace) (h : Nat) : Bool := (w.block? h).any (·.isSkipped)

/-- The block that comes to stand in the place of a block, no further away than the fuel
allows: the first that is not skipped, from the block itself along its chain. -/
def standingWithin (w : Workspace) : Nat → Nat → Option Nat
  | 0, _ => none
  | fuel + 1, h =>
    if w.skips h then ((w.node? h).bind (·.next)).bind (w.standingWithin fuel) else some h

/-- The block that comes to stand in the place of a block. -/
def standing (w : Workspace) (h : Nat) : Option Nat := w.standingWithin (w.nodes.length + 1) h

def hostWithin (w : Workspace) : Nat → Nat → Option Nat
  | 0, _ => none
  | fuel + 1, h =>
    match w.parent? h with
    | none => none
    | some p => if w.skips p then w.hostWithin fuel p else some p

/-- The block above a block that is not skipped. -/
def host (w : Workspace) (h : Nat) : Option Nat := w.hostWithin (w.nodes.length + 1) h

/-- The blocks that are skipped, and all that hangs on their inputs. -/
def skipped (w : Workspace) : List Nat :=
  (List.range w.nodes.length).flatMap fun h =>
    if w.skips h then h :: (w.slots h).flatMap fun s => s.target.toList.flatMap w.descendants
    else []

/-- The connections of a block when nothing is skipped any more. An input that held only
blocks that are skipped stays, and is empty. -/
def bypassed (w : Workspace) (h : Nat) (n : Node) : Node where
  block := n.block
  slots := n.slots.map fun s => { s with target := s.target.bind w.standing }
  next := n.next.bind w.standing
  parent := w.host h

/-- The workspace without the blocks that are skipped. Each top block makes way for the block
that comes to stand in its place. -/
def withoutSkipped (w : Workspace) : Workspace where
  nodes := w.nodes.mapIdx w.bypassed
  members := w.members.flatMap fun h =>
    if (w.parent? h).isNone then (w.standing h).toList
    else if (w.host h).isNone || w.skipped.contains h then [] else [h]

variable {w : Workspace} {h p c k : Nat} {n : Node}

/-! ## Who stands where -/

theorem skips_eq (hn : w.node? h = some n) : w.skips h = n.block.isSkipped := by
  simp [skips, block?, hn]

theorem standingWithin_of_within (hk : w.Within k h) :
    w.standingWithin (k + 1) h = w.standingWithin (k + 2) h := by
  induction k generalizing h with
  | zero =>
    unfold Within at hk
    have hnot : w.skips h = false := by simp [skips, block?, hk]
    rw [standingWithin, standingWithin, hnot]
    rfl
  | succ k ih =>
    rw [standingWithin, standingWithin]
    split
    · rcases hn : w.node? h with _ | n
      · rfl
      · rcases hnext : n.next with _ | c
        · simp [hnext]
        · simpa [hnext] using ih (hk c (mem_children_of_next hn hnext))
    · rfl

/-- A block stands where it stood, or the block behind it does. -/
theorem Acyclic.standing_eq (hac : w.Acyclic) (h : Nat) :
    w.standing h =
      if w.skips h then ((w.node? h).bind (·.next)).bind w.standing else some h := by
  unfold standing
  rw [standingWithin_of_within (hac.within h), standingWithin]

theorem Acyclic.standing_of_not (hac : w.Acyclic) (hh : w.skips h = false) :
    w.standing h = some h := by
  rw [hac.standing_eq, hh]
  rfl

theorem Acyclic.standing_of_skips (hac : w.Acyclic) (hn : w.node? h = some n)
    (hh : w.skips h = true) : w.standing h = n.next.bind w.standing := by
  rw [hac.standing_eq, if_pos hh, hn]
  rfl

/-- What comes to stand in the place of a block is not skipped, and is reached from it. -/
theorem Acyclic.standing_some (hac : w.Acyclic) (hc : w.standing h = some c) :
    w.skips c = false ∧ w.Reaches h c := by
  induction h using hac.induction with
  | step h ih =>
    rcases hskips : w.skips h with _ | _
    · rw [hac.standing_of_not hskips, Option.some.injEq] at hc
      subst hc
      exact ⟨hskips, ReflTransGen.refl⟩
    · rcases hn : w.node? h with _ | n
      · simp [skips, block?, hn] at hskips
      · rw [hac.standing_of_skips hn hskips, Option.bind_eq_some_iff] at hc
        obtain ⟨d, hd, hc⟩ := hc
        have hchild := mem_children_of_next hn hd
        obtain ⟨hnot, hreach⟩ := ih d hchild hc
        exact ⟨hnot, ReflTransGen.head hchild hreach⟩

/-- What comes to stand in the place of a top block has no block above it. -/
theorem Acyclic.host_standing (hac : w.Acyclic) (hs : w.Rooted)
    (htop : ∀ fuel, w.hostWithin fuel h = none) (hc : w.standing h = some c) :
    ∀ fuel, w.hostWithin fuel c = none := by
  induction h using hac.induction with
  | step h ih =>
    rcases hskips : w.skips h with _ | _
    · rw [hac.standing_of_not hskips, Option.some.injEq] at hc
      subst hc
      exact htop
    · rcases hn : w.node? h with _ | n
      · simp [skips, block?, hn] at hskips
      · rw [hac.standing_of_skips hn hskips, Option.bind_eq_some_iff] at hc
        obtain ⟨d, hd, hc⟩ := hc
        have hchild := mem_children_of_next hn hd
        refine ih d hchild (fun fuel => ?_) hc
        cases fuel with
        | zero => rfl
        | succ fuel => rw [hostWithin, hs h d hchild]; simp [hskips, htop fuel]

theorem hostWithin_top (htop : w.parent? h = none) (fuel : Nat) : w.hostWithin fuel h = none := by
  cases fuel with
  | zero => rfl
  | succ fuel => rw [hostWithin, htop]

/-! ## The new graph -/

theorem node?_withoutSkipped (w : Workspace) (h : Nat) :
    w.withoutSkipped.node? h = (w.node? h).map (w.bypassed h) := by
  unfold node? withoutSkipped
  exact List.getElem?_mapIdx

/-- What hangs on a block now hung on it before, if through blocks that were skipped. -/
theorem Acyclic.reached_of_children (hac : w.Acyclic) (hc : c ∈ w.withoutSkipped.children p) :
    TransGen w.Holds p c := by
  rw [children_eq, node?_withoutSkipped] at hc
  rcases hn : w.node? p with _ | n
  · simp [hn] at hc
  · simp only [hn, Option.map_some, Option.getD_some, Node.children, bypassed, List.mem_append,
      List.mem_filterMap, List.mem_map, exists_exists_and_eq_and, Option.mem_toList,
      Option.bind_eq_some_iff] at hc
    rcases hc with ⟨s, hs, d, hd, hc⟩ | ⟨d, hd, hc⟩
    · exact TransGen.head' (mem_children_of_slot hn hs hd) (hac.standing_some hc).2
    · exact TransGen.head' (mem_children_of_next hn hd) (hac.standing_some hc).2

theorem Acyclic.withoutSkipped (hac : w.Acyclic) : w.withoutSkipped.Acyclic := by
  have hlift : ∀ {a b}, TransGen w.withoutSkipped.Holds a b → TransGen w.Holds a b := by
    intro a b hab
    induction hab with
    | single hb => exact hac.reached_of_children hb
    | tail _ hb ih => exact ih.trans (hac.reached_of_children hb)
  exact fun a ha => hac a (hlift ha)

/-- The tree in a place, when blocks that are skipped make way. -/
theorem Acyclic.treeAt_standing (hac : w.Acyclic) (place : Option Nat) :
    w.withoutSkipped.treeAt (place.bind w.standing) = (w.treeAt place).cleared := by
  induction place using hac.placeInduction with
  | empty => simp [Chain.cleared]
  | gone h hn =>
    have hnot : w.skips h = false := by simp [skips, block?, hn]
    have hnone : w.withoutSkipped.node? h = none := by simp [node?_withoutSkipped, hn]
    rw [Option.bind_some, hac.standing_of_not hnot, treeAt_some, treeAt_some, tree_of_none hn,
      tree_of_none hnone]
    rfl
  | node h n hn hslots hnext =>
    rw [Option.bind_some, treeAt_some, hac.tree_eq hn, Chain.cleared, ← skips_eq hn]
    rcases hskips : w.skips h with _ | _
    · have hinputs : Inputs.ofSlots w.withoutSkipped.treeAt
          (n.slots.map fun s => { s with target := s.target.bind w.standing }) =
          (Inputs.ofSlots w.treeAt n.slots).cleared := by
        rw [Inputs.cleared_eq]
        exact Inputs.ofSlots_map (fun _ => ⟨rfl, rfl⟩) hslots
      have hnode : w.withoutSkipped.node? h = some (w.bypassed h n) := by
        rw [node?_withoutSkipped, hn, Option.map_some]
      rw [hac.standing_of_not hskips, treeAt_some, hac.withoutSkipped.tree_eq hnode]
      simp only [bypassed, hinputs, hnext, Bool.false_eq_true, if_false]
    · rw [hac.standing_of_skips hn hskips, hnext]
      rfl

/-! ## The new top blocks -/

/-- Each top block makes way for the block that comes to stand in its place. -/
theorem Acyclic.topBlocks_withoutSkipped (hac : w.Acyclic) (hs : w.Rooted) :
    w.withoutSkipped.topBlocks = w.topBlocks.filterMap w.standing := by
  have hparent : ∀ h, w.withoutSkipped.parent? h = (w.node? h).bind fun _ => w.host h := by
    intro h
    rw [parent?_eq, node?_withoutSkipped]
    rcases w.node? h with _ | n <;> rfl
  unfold topBlocks
  show (List.flatMap _ w.members).filter _ = _
  induction w.members with
  | nil => rfl
  | cons h rest ih =>
    rw [List.flatMap_cons, List.filter_append, ih, List.filter_cons]
    rcases htop : w.parent? h with _ | p
    · have hkept : (w.standing h).toList.filter
          (fun c => (w.withoutSkipped.parent? c).isNone) = (w.standing h).toList := by
        rcases hc : w.standing h with _ | c
        · rfl
        · have hnone := hac.host_standing hs (hostWithin_top htop) hc
          have hhost : w.host c = none := hnone _
          rw [Option.toList_some, List.filter_singleton]
          rcases hn : w.node? c with _ | n <;> simp [hparent, hn, hhost]
      simp only [Option.isNone_none, if_true, hkept, List.filterMap_cons]
      rcases w.standing h with _ | c <;> rfl
    · have hgone : (if (w.host h).isNone || w.skipped.contains h then [] else [h]).filter
          (fun c => (w.withoutSkipped.parent? c).isNone) = [] := by
        split
        · rfl
        · rename_i hstays
          have hnode : ∃ n, w.node? h = some n := exists_node (lt_of_parent htop)
          obtain ⟨n, hn⟩ := hnode
          rw [List.filter_singleton, hparent, hn]
          simp only [Bool.or_eq_true, not_or, Bool.not_eq_true] at hstays
          simp [hstays.1]
      simp only [Option.isNone_some, Bool.false_eq_true, if_false, hgone, List.nil_append]

/-- The trees of the new workspace are the old ones without the blocks that are skipped,
apart from those of which nothing is left. -/
theorem Acyclic.trees_withoutSkipped (hac : w.Acyclic) (hs : w.Rooted) :
    w.withoutSkipped.trees.filter (!·.isEmpty) =
      (w.trees.map Chain.cleared).filter (!·.isEmpty) := by
  unfold trees
  rw [hac.topBlocks_withoutSkipped hs, List.map_map, List.map_filterMap]
  induction w.topBlocks with
  | nil => rfl
  | cons h rest ih =>
    have htree := hac.treeAt_standing (some h)
    rw [Option.bind_some, treeAt_some] at htree
    rw [List.filterMap_cons, List.map_cons, List.filter_cons, Function.comp_apply, ← htree]
    rcases hc : w.standing h with _ | c
    · simpa [Chain.isEmpty] using ih
    · simp only [Option.map_some, treeAt_some, List.filter_cons, ih]
      rfl

end Workspace
end BlockCode
