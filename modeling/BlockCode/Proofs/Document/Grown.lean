-- A workspace that has grown out of trees. Every tree in these trees is the tree of a block, and
-- what hangs on a block stands behind it, so there are no cycles.
import BlockCode.Proofs.Document.Standing
import BlockCode.Proofs.Workspace.Parts

namespace BlockCode

open Relation

namespace Workspace

variable {w : Workspace}

/-! ## Trees that stand side by side -/

/-- All trees in the tree are trees of blocks where it stands. -/
def StandsWhole (c : Chain) : Prop := ∀ (w : Workspace) parent start,
  w.Stands start (c.nodes parent start) → c.blocks.length ≤ w.nodes.length →
    ∀ d ∈ c.parts, ∃ y, w.tree y = d.settle y

theorem standsWhole_inputs {inputs : Inputs} (hin : inputs.Every StandsWhole) (host start : Nat)
    (h : w.Stands start (inputs.nodes host start)) (hfuel : inputs.blocks.length ≤ w.nodes.length) :
    ∀ d ∈ inputs.parts, ∃ y, w.tree y = d.settle y := by
  induction inputs using Inputs.inductionOn generalizing start with
  | nil => exact nofun
  | cons name kind target rest ih =>
    rw [Inputs.nodes] at h
    rw [Inputs.blocks, List.length_append] at hfuel
    have hrest := h.right
    rw [Chain.length_nodes] at hrest
    intro d hd
    rcases List.mem_append.mp hd with hd | hd
    · exact hin.1 w _ _ h.left (by omega) d hd
    · exact ih hin.2 _ hrest (by omega) d hd

theorem standsWhole (c : Chain) : StandsWhole c := by
  induction c using Chain.inductionOn with
  | nil => exact fun _ _ _ _ _ => nofun
  | cons b inputs next hin hnext =>
    intro w parent start h hfuel d hd
    have hself := readOff (.cons b inputs next) w parent start w.nodes.length h hfuel
    rw [Chain.nodes] at h
    rw [Chain.blocks, List.length_cons, List.length_append] at hfuel
    have hrest := h.tail.right
    rw [Inputs.length_nodes] at hrest
    rw [Chain.parts, List.mem_cons, List.mem_append] at hd
    rcases hd with rfl | hd | hd
    · exact ⟨start, hself⟩
    · exact standsWhole_inputs hin start _ h.tail.left (by omega) d hd
    · exact hnext w _ _ hrest (by omega) d hd

theorem tree_of_part {trees : List Chain} {start : Nat} (h : w.Stands start (forest start trees))
    (hfuel : (forest start trees).length ≤ w.nodes.length) :
    ∀ d ∈ trees.flatMap Chain.parts, ∃ y, w.tree y = d.settle y := by
  induction trees generalizing start with
  | nil => exact nofun
  | cons c rest ih =>
    rw [forest] at h hfuel
    rw [List.length_append, Chain.length_nodes] at hfuel
    have hrest := h.right
    rw [Chain.length_nodes] at hrest
    intro d hd
    rw [List.flatMap_cons, List.mem_append] at hd
    rcases hd with hd | hd
    · exact standsWhole c w _ _ h.left (by omega) d hd
    · exact ih hrest (by omega) d hd

theorem targets_slotsFrom (inputs : Inputs) (slots : List Slot) (start : Nat) :
    ∀ k ∈ (slotsFrom slots start inputs).filterMap (·.target),
      k ∈ slots.filterMap (·.target) ∨ start ≤ k := by
  induction inputs using Inputs.inductionOn generalizing slots start with
  | nil => exact fun k hk => Or.inl hk
  | cons name kind target rest ih =>
    intro k hk
    rw [slotsFrom] at hk
    split at hk
    · have hold := ih _ _ k hk
      rwa [targets_declare] at hold
    · rcases ih _ _ k hk with hold | hlater
      · obtain ⟨left, right, hbefore, hafter⟩ := targets_plugInto slots name kind start
        rw [hafter, List.mem_append, List.mem_cons] at hold
        rw [hbefore, List.mem_append, List.mem_append]
        rcases hold with hl | rfl | hr
        · exact Or.inl (Or.inl (Or.inl hl))
        · exact Or.inr (Nat.le_refl _)
        · exact Or.inl (Or.inr hr)
      · exact Or.inr (by omega)

theorem later_inputs {inputs : Inputs}
    (hin : inputs.Every fun c => ∀ parent start, ∀ n ∈ c.nodes parent start, ∀ k ∈ n.children,
      n.block.handle < k) (host start : Nat) :
    ∀ n ∈ inputs.nodes host start, ∀ k ∈ n.children, n.block.handle < k := by
  induction inputs using Inputs.inductionOn generalizing start with
  | nil => exact nofun
  | cons name kind target rest ih =>
    intro n hn
    rcases List.mem_append.mp hn with hn | hn
    · exact hin.1 _ _ n hn
    · exact ih hin.2 _ n hn

/-- In a tree that has grown, what hangs on a block stands behind it. -/
theorem later (c : Chain) (parent : Option Nat) (start : Nat) :
    ∀ n ∈ c.nodes parent start, ∀ k ∈ n.children, n.block.handle < k := by
  induction c using Chain.inductionOn generalizing parent start with
  | nil => exact nofun
  | cons b inputs next hin hnext =>
    intro n hn k hk
    rw [Chain.nodes, List.mem_cons, List.mem_append] at hn
    rcases hn with rfl | hn | hn
    · simp only [Node.children, List.mem_append, Option.mem_toList] at hk
      simp only [Block.placed]
      rcases hk with hk | hk
      · rcases targets_slotsFrom inputs [] (start + 1) k hk with hk | hk
        · exact absurd hk List.not_mem_nil
        · omega
      · split at hk
        · cases hk
        · rw [Option.some.injEq] at hk
          omega
    · exact later_inputs hin _ _ n hn k hk
    · exact hnext _ _ n hn k hk

theorem placed_forest (trees : List Chain) {h : Nat} {n : Node}
    (hn : (ofNodes (forest 0 trees)).node? h = some n) : n.block.handle = h := by
  have hhandles := congrArg (List.map (·.handle)) (blocks_forest 0 trees)
  rw [handles_placedFrom, List.map_map] at hhandles
  have hplace := congrArg (·[h]?) hhandles
  have hn' : (forest 0 trees)[h]? = some n := hn
  simp only [List.getElem?_map, hn', Option.map_some, Function.comp_apply] at hplace
  obtain ⟨hlt, heq⟩ := List.getElem?_eq_some_iff.mp hplace.symm
  simpa using heq.symm

theorem stands_forest (trees : List Chain) :
    (ofNodes (forest 0 trees)).Stands 0 (forest 0 trees) := by
  intro i n hn
  unfold node?
  rw [Nat.zero_add]
  exact hn

theorem acyclic_of_later (h : ∀ p, ∀ c ∈ w.children p, p < c) : w.Acyclic := by
  have hless : ∀ {a b}, TransGen w.Holds a b → a < b := by
    intro a b hab
    induction hab with
    | single hb => exact h a _ hb
    | tail _ hb ih => exact Nat.lt_trans ih (h _ _ hb)
  exact fun a ha => Nat.lt_irrefl a (hless ha)

theorem acyclic_forest (trees : List Chain) : (ofNodes (forest 0 trees)).Acyclic := by
  refine acyclic_of_later fun p c hc => ?_
  rw [children_eq] at hc
  rcases hn : (ofNodes (forest 0 trees)).node? p with _ | n
  · simp [hn] at hc
  · rw [hn] at hc
    have hmem : ∀ start, n ∈ forest start trees → n.block.handle < c := by
      clear hn
      induction trees with
      | nil => exact fun _ => nofun
      | cons c rest ih =>
        intro start hn
        rcases List.mem_append.mp hn with hn | hn
        · exact later c none start n hn _ hc
        · exact ih _ hn
    rw [← placed_forest trees hn]
    exact hmem 0 (List.mem_iff_getElem?.mpr ⟨p, hn⟩)

end Workspace

end BlockCode
