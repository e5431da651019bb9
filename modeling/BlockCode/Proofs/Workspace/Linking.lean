-- Chains that are linked: the first block of one chain is let follow the last block of another.
-- The tree of the one then ends in the tree of the other, and no other tree changes.
import BlockCode.Proofs.Workspace.Parts

namespace BlockCode

open Relation

/-- A chain, and behind its last block another. -/
def Chain.append : Chain → Chain → Chain
  | .nil, tail => tail
  | .cons b inputs next, tail => .cons b inputs (next.append tail)

namespace Workspace

/-- The block `c` follows the block `h`. -/
def Precedes (w : Workspace) (h c : Nat) : Prop := ∃ n, w.node? h = some n ∧ n.next = some c

/-- The chain that begins with `first` ends with `last`. -/
structure EndsWith (w : Workspace) (first last : Nat) : Prop where
  reached : ReflTransGen w.Precedes first last
  bare : ∃ n, w.node? last = some n ∧ n.next = none

/-- Among the top blocks `second` comes right after `first`. Neither of them is listed a second
time: what is listed twice is translated twice, as long as it is attached to nothing. -/
structure Adjoining (w : Workspace) (before : List Nat) (first second : Nat)
    (after : List Nat) : Prop where
  tops : w.topBlocks = before ++ first :: second :: after
  apart : first ≠ second
  others : ∀ t ∈ before ++ after, t ≠ first ∧ t ≠ second

variable {w : Workspace} {h c d x first second last : Nat} {n : Node} {before after : List Nat}

theorem Precedes.holds (hfollows : w.Precedes h c) : w.Holds h c := by
  obtain ⟨n, hn, hnext⟩ := hfollows
  exact mem_children_of_next hn hnext

theorem EndsWith.reaches (hends : w.EndsWith first last) : w.Reaches first last :=
  ReflTransGen.mono (fun _ _ => Precedes.holds) _ _ hends.reached

/-- What stands at the top is attached to nothing. -/
theorem parent?_of_top (h : x ∈ w.topBlocks) : w.parent? x = none := by
  unfold topBlocks at h
  simpa using (List.mem_filter.mp h).2

/-- What is plugged into a block is not what follows it. -/
theorem Sound.slot_ne_next (hs : w.Sound) (hn : w.node? h = some n) {s : Slot} (hslot : s ∈ n.slots)
    (hc : s.target = some c) (hd : n.next = some d) : c ≠ d := by
  have honce := hs.once h
  rw [children_eq, hn, Option.map_some, Option.getD_some, Node.children, hd, List.nodup_append] at honce
  exact honce.2.2 c (List.mem_filterMap.mpr ⟨s, hslot, hc⟩) d (by simp)

/-! ## The graph with a link -/

theorem node?_link (hs : w.Rooted) (htop : w.parent? second = none) (last p : Nat) :
    (w.follow last second).node? p = (w.node? p).map fun n =>
      { n with
        next := if p = last then some second else n.next
        parent := if p = second then some last else n.parent } := by
  have hfree : ∀ p, second ∉ w.children p := by
    intro p hp
    rw [hs p second hp] at htop
    cases htop
  rw [node?_follow (fun p hp => absurd hp (hfree p))]
  rcases hn : w.node? p with _ | n
  · rfl
  · have hsame : release second n = n := by
      refine release_of_not_mem ?_
      have hp := hfree p
      rwa [children_eq, hn] at hp
    rw [Option.map_some, Option.map_some, hsame]

theorem topBlocks_link (hs : w.Rooted) (htop : w.parent? second = none)
    (hsecond : second < w.nodes.length) (last : Nat) :
    (w.follow last second).topBlocks = w.topBlocks.filter (· ≠ second) := by
  have hmembers : (w.follow last second).members = w.members := by
    unfold follow detach
    rw [htop]
    rfl
  obtain ⟨m, hm⟩ := exists_node hsecond
  unfold topBlocks
  rw [hmembers, List.filter_filter]
  refine List.filter_congr fun x _ => ?_
  rw [parent?_eq, parent?_eq, node?_link hs htop]
  by_cases hx : x = second
  · simp [hx, hm]
  · rcases w.node? x with _ | n <;> simp [hx]

/-! ## The trees with a link -/

section Trees

variable (hac : w.Acyclic) (hac' : (w.follow last second).Acyclic) (hs : w.Sound)
  (htop : w.parent? second = none)

/-- The inputs of a block are what they were when the trees of what is plugged in are. -/
theorem slots_link {w' : Workspace}
    (hsame : ∀ s ∈ n.slots, ∀ c, s.target = some c → w'.tree c = w.tree c) :
    Inputs.ofSlots w'.treeAt n.slots = Inputs.ofSlots w.treeAt n.slots := by
  refine ofSlots_congr fun s hslot => ?_
  rcases hc : s.target with _ | c
  · rw [treeAt_none, treeAt_none]
  · exact hsame s hslot c hc

include hac' hs htop

theorem tree_link_eq (hn : w.node? h = some n) :
    (w.follow last second).tree h = .cons n.block (.ofSlots (w.follow last second).treeAt n.slots)
      ((w.follow last second).treeAt (if h = last then some second else n.next)) := by
  have hnode := node?_link hs.rooted htop last h
  rw [hn] at hnode
  exact hac'.tree_eq hnode

include hac

/-- A tree that the link is not in stays as it is. -/
theorem tree_link_of_not (hnot : ¬ w.Reaches h last) : (w.follow last second).tree h = w.tree h := by
  refine hac.induction (P := fun h => ¬ w.Reaches h last →
    (w.follow last second).tree h = w.tree h) ?_ h hnot
  intro h ih hnot
  have hbelow : ∀ c ∈ w.children h, (w.follow last second).tree c = w.tree c :=
    fun c hc => ih c hc fun hreach => hnot (ReflTransGen.head hc hreach)
  rcases hn : w.node? h with _ | n
  · have hnode := node?_link hs.rooted htop last h
    rw [hn] at hnode
    rw [tree_of_none hn, tree_of_none hnode]
  · have hne : h ≠ last := by
      rintro rfl
      exact hnot ReflTransGen.refl
    rw [hac.tree_eq hn, tree_link_eq hac' hs htop hn, if_neg hne,
      slots_link fun s hslot c hc => hbelow c (mem_children_of_slot hn hslot hc)]
    congr 1
    rcases hnext : n.next with _ | c
    · rw [treeAt_none, treeAt_none]
    · exact hbelow c (mem_children_of_next hn hnext)

/-- The tree of the first chain goes on with that of the second. -/
theorem EndsWith.tree_link (hnot : ¬ w.Reaches second last) (hends : w.EndsWith first last) :
    (w.follow last second).tree first = (w.tree first).append (w.tree second) := by
  obtain ⟨hreached, m, hm, hbare⟩ := hends
  induction hreached using ReflTransGen.head_induction_on with
  | refl =>
    have hslots : ∀ s ∈ m.slots, ∀ c, s.target = some c →
        (w.follow last second).tree c = w.tree c := by
      refine fun s hslot c hc => tree_link_of_not hac hac' hs htop fun hreach => ?_
      exact hac last (TransGen.head' (mem_children_of_slot hm hslot hc) hreach)
    rw [hac.tree_eq hm, tree_link_eq hac' hs htop hm, slots_link hslots, if_pos rfl, hbare, treeAt_none,
      treeAt_some, tree_link_of_not hac hac' hs htop hnot]
    rfl
  | @head h c hfollows hrest ih =>
    obtain ⟨n, hn, hnext⟩ := hfollows
    have hreach : w.Reaches c last := ReflTransGen.mono (fun _ _ => Precedes.holds) _ _ hrest
    have hc := mem_children_of_next hn hnext
    have hne : h ≠ last := by
      rintro rfl
      exact hac h (TransGen.head' hc hreach)
    -- Only one of the blocks that hang on the block is above the last one.
    have hslots : ∀ s ∈ n.slots, ∀ d, s.target = some d →
        (w.follow last second).tree d = w.tree d := by
      refine fun s hslot d hd => tree_link_of_not hac hac' hs htop fun hother => ?_
      exact hs.slot_ne_next hn hslot hd hnext
        (hac.eq_of_siblings hs.rooted (mem_children_of_slot hn hslot hd) hc hother hreach)
    rw [hac.tree_eq hn, tree_link_eq hac' hs htop hn, slots_link hslots, if_neg hne, hnext, treeAt_some,
      treeAt_some, ih]
    rfl

end Trees

/-- All trees of the workspace, when the second chain has been let follow the first. -/
theorem Adjoining.trees_link (hadj : w.Adjoining before first second after) (hac : w.Acyclic)
    (hs : w.Sound) (hends : w.EndsWith first last) (hsecond : second < w.nodes.length) :
    (w.follow last second).trees =
      before.map w.tree ++ (w.tree first).append (w.tree second) :: after.map w.tree := by
  have htops : ∀ t ∈ before ++ first :: second :: after, w.parent? t = none := by
    rw [← hadj.tops]
    exact fun t => parent?_of_top
  have hfirst : w.parent? first = none := htops first (by simp)
  have htop : w.parent? second = none := htops second (by simp)
  obtain ⟨m, hm, -⟩ := hends.bare
  have honly : ∀ t, w.parent? t = none → w.Reaches t last → t = first :=
    fun t ht hreach => hs.rooted.eq_of_tops ht hfirst hreach hends.reaches
  have hnot : ¬ w.Reaches second last := fun hreach => hadj.apart (honly second htop hreach).symm
  have hac' : (w.follow last second).Acyclic :=
    (attaches_follow hs.rooted (node?_lt hm) hsecond).acyclic hac hnot
  have hothers : ∀ l : List Nat, (∀ t ∈ l, t ∈ before ++ after) →
      l.filter (· ≠ second) = l ∧ l.map (w.follow last second).tree = l.map w.tree := by
    intro l hl
    refine ⟨List.filter_eq_self.mpr fun t ht => by simpa using (hadj.others t (hl t ht)).2,
      List.map_congr_left fun t ht => tree_link_of_not hac hac' hs htop fun hreach => ?_⟩
    have hlisted : t ∈ before ++ first :: second :: after := by
      have := hl t ht
      simp only [List.mem_append, List.mem_cons] at this ⊢
      tauto
    exact (hadj.others t (hl t ht)).1 (honly t (htops t hlisted) hreach)
  obtain ⟨hbefore, hbefore'⟩ := hothers before fun t => List.mem_append_left after
  obtain ⟨hafter, hafter'⟩ := hothers after fun t => List.mem_append_right before
  unfold trees
  rw [topBlocks_link hs.rooted htop hsecond, hadj.tops, List.filter_append, hbefore,
    List.filter_cons_of_pos (by simpa using hadj.apart), List.filter_cons_of_neg (by simp), hafter,
    List.map_append, List.map_cons, hbefore', hafter', hends.tree_link hac hac' hs htop hnot]

end Workspace
end BlockCode
