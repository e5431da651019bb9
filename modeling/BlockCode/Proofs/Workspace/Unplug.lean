-- Workspaces with empty inputs where disabled blocks were that give values. Such a block leaves
-- the workspace with all that hangs on it. In another workspace all of these stay where they
-- are, and only their comments are gone.
import BlockCode.Proofs.Workspace.Wiring

namespace BlockCode

open Relation

/-- Nothing comes of the block for the input that it is plugged into. -/
def Block.isIdle (b : Block) : Bool := b.isDisabled && b.givesValue

def Block.hushed (b : Block) : Block := { b with comment := .null }

/-! ## Trees -/

/-- The chain is plugged into an input for a value, and nothing comes of its head. -/
def Chain.idlesIn (kind : SlotKind) (c : Chain) : Bool := kind == .value && c.head?.any (·.isIdle)

mutual
/-- The chain with empty inputs where blocks are of which nothing comes. -/
def Chain.unplugged : Chain → Chain
  | .nil => .nil
  | .cons b inputs next => .cons b inputs.unplugged next.unplugged

def Inputs.unplugged : Inputs → Inputs
  | .nil => .nil
  | .cons name kind target rest =>
    .cons name kind (if target.idlesIn kind then .nil else target.unplugged) rest.unplugged
end

mutual
/-- The chain without any comments. -/
def Chain.hushed : Chain → Chain
  | .nil => .nil
  | .cons b inputs next => .cons b.hushed inputs.hushed next.hushed

def Inputs.hushed : Inputs → Inputs
  | .nil => .nil
  | .cons name kind target rest => .cons name kind target.hushed rest.hushed
end

mutual
/-- The chain without the comments of blocks of which nothing comes, and of all that hangs
on them. -/
def Chain.silenced : Chain → Chain
  | .nil => .nil
  | .cons b inputs next => .cons b inputs.silenced next.silenced

def Inputs.silenced : Inputs → Inputs
  | .nil => .nil
  | .cons name kind target rest =>
    .cons name kind (if target.idlesIn kind then target.hushed else target.silenced) rest.silenced
end

namespace Inputs

theorem unplugged_eq (inputs : Inputs) : inputs.unplugged =
    inputs.map fun kind target => if target.idlesIn kind then .nil else target.unplugged := by
  induction inputs using Inputs.inductionOn with
  | nil => rfl
  | cons name kind target rest ih => rw [unplugged, map, ih]

theorem hushed_eq (inputs : Inputs) : inputs.hushed = inputs.map fun _ => Chain.hushed := by
  induction inputs using Inputs.inductionOn with
  | nil => rfl
  | cons name kind target rest ih => rw [hushed, map, ih]

theorem silenced_eq (inputs : Inputs) : inputs.silenced =
    inputs.map fun kind target => if target.idlesIn kind then target.hushed else target.silenced := by
  induction inputs using Inputs.inductionOn with
  | nil => rfl
  | cons name kind target rest ih => rw [silenced, map, ih]

end Inputs

namespace Workspace

/-! ## The graph -/

def idles (w : Workspace) (h : Nat) : Bool := (w.block? h).any (·.isIdle)

/-- What is plugged into the input is a disabled block for a value. -/
def cuts (w : Workspace) (s : Slot) : Bool := s.kind == .value && s.target.any w.idles

/-- The blocks that are unplugged. -/
def cut (w : Workspace) : List Nat :=
  w.nodes.flatMap fun n => (n.slots.filter w.cuts).filterMap (·.target)

/-- The blocks that are unplugged, with all that hangs on them. -/
def dropped (w : Workspace) : List Nat := w.cut.flatMap w.descendants

/-- Every input for a value is emptied that holds a disabled block. What was plugged into it
leaves the workspace. -/
def unplugged (w : Workspace) : Workspace where
  nodes := w.nodes.mapIdx fun h n =>
    { n with
      slots := n.slots.map fun s => if w.cuts s then { s with target := none } else s
      parent := if h ∈ w.cut then none else n.parent }
  members := w.members.filter (· ∉ w.dropped)

/-- The blocks that would leave lose their comments instead. -/
def silenced (w : Workspace) : Workspace :=
  { w with nodes := w.nodes.mapIdx fun h n =>
      if h ∈ w.dropped then { n with block := n.block.hushed } else n }

variable {w : Workspace} {h c p : Nat} {n : Node}

theorem node?_unplugged (w : Workspace) (h : Nat) :
    w.unplugged.node? h = (w.node? h).map fun n =>
      { n with
        slots := n.slots.map fun s => if w.cuts s then { s with target := none } else s
        parent := if h ∈ w.cut then none else n.parent } := by
  unfold node? unplugged
  exact List.getElem?_mapIdx

theorem node?_silenced (w : Workspace) (h : Nat) :
    w.silenced.node? h = (w.node? h).map fun n =>
      if h ∈ w.dropped then { n with block := n.block.hushed } else n := by
  unfold node? silenced
  exact List.getElem?_mapIdx

/-! ## What leaves the workspace -/

theorem mem_cut : c ∈ w.cut ↔ ∃ p n, w.node? p = some n ∧ ∃ s ∈ n.slots, w.cuts s = true ∧
    s.target = some c := by
  unfold cut
  simp only [List.mem_flatMap, List.mem_filterMap, List.mem_filter, and_assoc]
  constructor
  · rintro ⟨n, hn, s, hs, hcuts, hc⟩
    obtain ⟨p, hp⟩ := List.mem_iff_getElem?.mp hn
    exact ⟨p, n, hp, s, hs, hcuts, hc⟩
  · rintro ⟨p, n, hn, s, hs, hcuts, hc⟩
    exact ⟨n, List.mem_of_getElem? hn, s, hs, hcuts, hc⟩

theorem cut_holds (hc : c ∈ w.cut) : ∃ p, w.Holds p c := by
  obtain ⟨p, n, hn, s, hs, -, htarget⟩ := mem_cut.mp hc
  exact ⟨p, mem_children_of_slot hn hs htarget⟩

theorem Acyclic.mem_dropped (hac : w.Acyclic) (hs : w.Sound) :
    h ∈ w.dropped ↔ ∃ c ∈ w.cut, w.Reaches c h := by
  unfold dropped
  rw [List.mem_flatMap]
  refine exists_congr fun c => and_congr_right fun hc => ?_
  obtain ⟨p, hp⟩ := cut_holds hc
  exact hac.mem_descendants hs (hs.rooted.child_lt hp)

/-- What hangs on a block that leaves, leaves. -/
theorem Acyclic.dropped_child (hac : w.Acyclic) (hs : w.Sound) (hp : p ∈ w.dropped)
    (hc : w.Holds p c) : c ∈ w.dropped := by
  obtain ⟨t, ht, hreach⟩ := (hac.mem_dropped hs).mp hp
  exact (hac.mem_dropped hs).mpr ⟨t, ht, hreach.tail hc⟩

/-- A block leaves when it is unplugged, or when the block leaves that it hangs on. -/
theorem Acyclic.cut_of_dropped (hac : w.Acyclic) (hs : w.Sound) (hc : c ∈ w.dropped)
    (hp : w.Holds p c) (hstays : p ∉ w.dropped) : c ∈ w.cut := by
  obtain ⟨t, ht, hreach⟩ := (hac.mem_dropped hs).mp hc
  by_cases hsame : t = c
  · exact hsame ▸ ht
  · obtain ⟨q, hq, hreach⟩ := hs.rooted.reaches_parent hreach hsame
    rw [hs.rooted p c hp, Option.some.injEq] at hq
    subst hq
    exact absurd ((hac.mem_dropped hs).mpr ⟨t, ht, hreach⟩) hstays

/-- No top block leaves. -/
theorem Acyclic.top_stays (hac : w.Acyclic) (hs : w.Sound) (htop : w.parent? h = none) :
    h ∉ w.dropped := by
  intro hdropped
  obtain ⟨t, ht, hreach⟩ := (hac.mem_dropped hs).mp hdropped
  by_cases hsame : t = h
  · obtain ⟨p, hp⟩ := cut_holds ht
    rw [hsame] at hp
    rw [hs.rooted p h hp] at htop
    cases htop
  · obtain ⟨q, hq, -⟩ := hs.rooted.reaches_parent hreach hsame
    rw [hq] at htop
    cases htop

/-! ## The top blocks are the same -/

theorem Acyclic.topBlocks_unplugged (hac : w.Acyclic) (hs : w.Sound) :
    w.unplugged.topBlocks = w.topBlocks := by
  have hparent : ∀ h, w.unplugged.parent? h = if h ∈ w.cut then none else w.parent? h := by
    intro h
    rw [parent?_eq, parent?_eq, node?_unplugged]
    rcases w.node? h with _ | n
    · simp
    · rfl
  unfold topBlocks
  show (w.members.filter _).filter _ = _
  rw [List.filter_filter]
  refine List.filter_congr fun h _ => ?_
  rw [hparent]
  rcases htop : w.parent? h with _ | p
  · simp [hac.top_stays hs htop]
  · by_cases hcut : h ∈ w.cut
    · have hdropped : h ∈ w.dropped := (hac.mem_dropped hs).mpr ⟨h, hcut, ReflTransGen.refl⟩
      simp [hdropped]
    · simp [hcut]

theorem topBlocks_silenced (w : Workspace) : w.silenced.topBlocks = w.topBlocks := by
  have hparent : ∀ h, w.silenced.parent? h = w.parent? h := by
    intro h
    rw [parent?_eq, parent?_eq, node?_silenced]
    rcases w.node? h with _ | n
    · rfl
    · simp only [Option.map_some, Option.bind_some]
      split <;> rfl
  unfold topBlocks
  simp only [hparent]
  rfl

/-! ## The trees -/

theorem Acyclic.unplugged (hac : w.Acyclic) : w.unplugged.Acyclic := by
  have hholds : ∀ p c, w.unplugged.Holds p c → w.Holds p c := by
    intro p c hc
    unfold Holds at hc
    rw [children_eq, node?_unplugged] at hc
    rcases hn : w.node? p with _ | n
    · simp [hn] at hc
    · simp only [hn, Option.map_some, Option.getD_some, Node.children, List.mem_append,
        List.mem_filterMap, List.mem_map, exists_exists_and_eq_and, Option.mem_toList] at hc
      rcases hc with ⟨s, hs, hc⟩ | hc
      · split at hc
        · cases hc
        · exact mem_children_of_slot hn hs hc
      · exact mem_children_of_next hn hc
  exact fun a ha => hac a (TransGen.mono hholds a a ha)

theorem Acyclic.silenced (hac : w.Acyclic) : w.silenced.Acyclic := by
  have hholds : w.silenced.Holds = w.Holds := by
    funext p c
    unfold Holds
    rw [children_eq, children_eq, node?_silenced]
    rcases w.node? p with _ | n
    · rfl
    · simp only [Option.map_some, Option.getD_some]
      split <;> rfl
  unfold Acyclic
  rw [hholds]
  exact hac

/-- An input is emptied when nothing comes of the head of its tree. -/
theorem Acyclic.idlesIn_treeAt (hac : w.Acyclic) (s : Slot) :
    (w.treeAt s.target).idlesIn s.kind = w.cuts s := by
  unfold Chain.idlesIn cuts
  rw [hac.head?_treeAt]
  rcases s.target with _ | c
  · rfl
  · rfl

theorem Acyclic.treeAt_unplugged (hac : w.Acyclic) (place : Option Nat) :
    w.unplugged.treeAt place = (w.treeAt place).unplugged := by
  induction place using hac.placeInduction with
  | empty => simp [Chain.unplugged]
  | gone h hn =>
    have hnode : w.unplugged.node? h = none := by rw [node?_unplugged, hn, Option.map_none]
    rw [treeAt_some, treeAt_some, tree_of_none hn, tree_of_none hnode]
    rfl
  | node h n hn hslots hnext =>
    have hnode := node?_unplugged w h
    rw [hn] at hnode
    rw [treeAt_some, treeAt_some, hac.unplugged.tree_eq hnode, hac.tree_eq hn, Chain.unplugged,
      Inputs.unplugged_eq, ← hnext]
    congr 1
    refine Inputs.ofSlots_map (fun s => by split <;> exact ⟨rfl, rfl⟩) fun s hs => ?_
    rw [hac.idlesIn_treeAt, ← hslots s hs]
    split
    · exact treeAt_none _
    · rfl

/-- All below a block that would leave loses its comments. -/
theorem Acyclic.treeAt_hushed (hac : w.Acyclic) (hs : w.Sound) {place : Option Nat}
    (hplace : ∀ h ∈ place, h ∈ w.dropped) : w.silenced.treeAt place = (w.treeAt place).hushed := by
  induction place using hac.placeInduction with
  | empty => simp [Chain.hushed]
  | gone h hn =>
    have hnode : w.silenced.node? h = none := by rw [node?_silenced, hn, Option.map_none]
    rw [treeAt_some, treeAt_some, tree_of_none hn, tree_of_none hnode]
    rfl
  | node h n hn hslots hnext =>
    have hh : h ∈ w.dropped := hplace h rfl
    have hnode := node?_silenced w h
    rw [hn, Option.map_some, if_pos hh] at hnode
    rw [treeAt_some, treeAt_some, hac.silenced.tree_eq hnode, hac.tree_eq hn, Chain.hushed,
      Inputs.hushed_eq, ← hnext fun c hc => hac.dropped_child hs hh (mem_children_of_next hn hc)]
    congr 1
    exact Inputs.ofSlots_eq_map fun s hslot =>
      hslots s hslot fun c hc => hac.dropped_child hs hh (mem_children_of_slot hn hslot hc)

theorem eq_of_nodup_filterMap {α β : Type} {f : α → Option β} {values : List α} {a b : α} {x : β}
    (hnodup : (values.filterMap f).Nodup) (ha : a ∈ values) (hb : b ∈ values) (hax : f a = some x)
    (hbx : f b = some x) : a = b := by
  induction values with
  | nil => cases ha
  | cons v rest ih =>
    have hmem : ∀ c ∈ rest, f c = some x → x ∈ rest.filterMap f :=
      fun c hc hcx => List.mem_filterMap.mpr ⟨c, hc, hcx⟩
    rcases List.mem_cons.mp ha with rfl | harest <;> rcases List.mem_cons.mp hb with rfl | hbrest
    · rfl
    · rw [List.filterMap_cons, hax] at hnodup
      exact absurd (hmem b hbrest hbx) (List.nodup_cons.mp hnodup).1
    · rw [List.filterMap_cons, hbx] at hnodup
      exact absurd (hmem a harest hax) (List.nodup_cons.mp hnodup).1
    · refine ih (hnodup.sublist ?_) harest hbrest
      exact (List.sublist_cons_self v rest).filterMap f

/-- Nothing hangs twice on a block. -/
theorem Sound.children_nodup (hs : w.Sound) (hn : w.node? h = some n) :
    (n.slots.filterMap (·.target) ++ n.next.toList).Nodup := by
  have hnodup := hs.once h
  rwa [children_eq, hn, Option.map_some, Option.getD_some, Node.children] at hnodup

/-- A block that is unplugged is unplugged from the block that it hangs on. -/
theorem Sound.cut_slot (hs : w.Sound) (hn : w.node? h = some n) (hc : c ∈ w.children h)
    (hcut : c ∈ w.cut) : ∃ s ∈ n.slots, w.cuts s = true ∧ s.target = some c := by
  obtain ⟨p, m, hm, s, hslot, hcuts, htarget⟩ := mem_cut.mp hcut
  have hp := hs.rooted p c (mem_children_of_slot hm hslot htarget)
  rw [hs.rooted h c hc, Option.some.injEq] at hp
  subst hp
  obtain rfl : n = m := Option.some.inj (hn.symm.trans hm)
  exact ⟨s, hslot, hcuts, htarget⟩

/-- A slot that holds an unplugged block is one that is emptied. -/
theorem Sound.cuts_of_slot (hs : w.Sound) (hn : w.node? h = some n) {s : Slot} (hslot : s ∈ n.slots)
    (hc : s.target = some c) (hcut : c ∈ w.cut) : w.cuts s = true := by
  obtain ⟨t, ht, hcuts, htarget⟩ := hs.cut_slot hn (mem_children_of_slot hn hslot hc) hcut
  have hnodup := (List.nodup_append.mp (hs.children_nodup hn)).1
  rwa [eq_of_nodup_filterMap hnodup hslot ht hc htarget]

/-- What follows a block is not unplugged. -/
theorem Sound.next_not_cut (hs : w.Sound) (hn : w.node? h = some n) (hc : n.next = some c) :
    c ∉ w.cut := by
  intro hcut
  obtain ⟨s, hslot, -, htarget⟩ := hs.cut_slot hn (mem_children_of_next hn hc) hcut
  have hapart := (List.nodup_append.mp (hs.children_nodup hn)).2.2
  exact hapart c (List.mem_filterMap.mpr ⟨s, hslot, htarget⟩) c (by simp [hc]) rfl

/-- Elsewhere only the comments of what would leave are gone. -/
theorem Acyclic.treeAt_silenced (hac : w.Acyclic) (hs : w.Sound) {place : Option Nat}
    (hplace : ∀ h ∈ place, h ∉ w.dropped) :
    w.silenced.treeAt place = (w.treeAt place).silenced := by
  induction place using hac.placeInduction with
  | empty => simp [Chain.silenced]
  | gone h hn =>
    have hnode : w.silenced.node? h = none := by rw [node?_silenced, hn, Option.map_none]
    rw [treeAt_some, treeAt_some, tree_of_none hn, tree_of_none hnode]
    rfl
  | node h n hn hslots hnext =>
    have hh : h ∉ w.dropped := hplace h rfl
    -- Below a block that stays, only what is unplugged leaves.
    have hstays : ∀ c ∈ w.children h, c ∉ w.cut → c ∉ w.dropped :=
      fun c hchild hcut hdropped => hcut (hac.cut_of_dropped hs hdropped hchild hh)
    have hnode := node?_silenced w h
    rw [hn, Option.map_some, if_neg hh] at hnode
    rw [treeAt_some, treeAt_some, hac.silenced.tree_eq hnode, hac.tree_eq hn, Chain.silenced,
      Inputs.silenced_eq,
      ← hnext fun c hc => hstays c (mem_children_of_next hn hc) (hs.next_not_cut hn hc)]
    congr 1
    refine Inputs.ofSlots_eq_map fun s hslot => ?_
    rw [hac.idlesIn_treeAt]
    split
    · rename_i hcuts
      refine hac.treeAt_hushed hs fun c hc => ?_
      have hcut : c ∈ w.cut := mem_cut.mpr ⟨h, n, hn, s, hslot, hcuts, hc⟩
      exact (hac.mem_dropped hs).mpr ⟨c, hcut, ReflTransGen.refl⟩
    · rename_i hkeeps
      refine hslots s hslot fun c hc => hstays c (mem_children_of_slot hn hslot hc) fun hcut => ?_
      exact hkeeps (hs.cuts_of_slot hn hslot hc hcut)

theorem Acyclic.trees_unplugged (hac : w.Acyclic) (hs : w.Sound) :
    w.unplugged.trees = w.trees.map Chain.unplugged := by
  unfold trees
  rw [hac.topBlocks_unplugged hs, List.map_map]
  exact List.map_congr_left fun h _ => hac.treeAt_unplugged (some h)

theorem Acyclic.trees_silenced (hac : w.Acyclic) (hs : w.Sound) :
    w.silenced.trees = w.trees.map Chain.silenced := by
  unfold trees
  rw [topBlocks_silenced, List.map_map]
  refine List.map_congr_left fun h hh => ?_
  have htop : ∀ t ∈ some h, t ∉ w.dropped := by
    rintro t ⟨⟩
    exact hac.top_stays hs (Option.isNone_iff_eq_none.mp (List.mem_filter.mp hh).2)
  exact hac.treeAt_silenced hs htop

/-- Where there are no comments, none can be lost. -/
theorem silenced_of_quiet (h : ∀ x ∈ w.dropped, ∀ b, w.block? x = some b → b.comment = .null) :
    w.silenced = w := by
  unfold silenced
  congr 1
  refine List.ext_getElem? fun x => ?_
  rw [List.getElem?_mapIdx]
  rcases hn : w.nodes[x]? with _ | n
  · rfl
  · rw [Option.map_some]
    split
    · rename_i hx
      have hcomment := h x hx n.block (by simp [block?, node?, hn])
      unfold Block.hushed
      rw [← hcomment]
    · rfl

end Workspace
end BlockCode
