-- Which blocks of a workspace count. What is plugged into an input that no rule reads does
-- not, and a disabled block hands its place on to the block behind it. The others are live:
-- each can be reached from a top block in just one way.
import Mathlib.Data.List.Pairwise
import BlockCode.Proofs.Workspace.Acyclic
import BlockCode.Proofs.Value.Sameness

namespace BlockCode

/-! ## Live blocks of a graph -/

namespace Workspace

open Relation

variable {w : Workspace} {reads : Block → List String} {h p c x : Nat} {n : Node}

/-- The first enabled block of the chain that begins at a block. -/
inductive Wakes (w : Workspace) : Nat → Nat → Prop
  | self {h : Nat} {n : Node} : w.node? h = some n → n.block.isDisabled = false → Wakes w h h
  | behind {h c x : Nat} {n : Node} : w.node? h = some n → n.block.isDisabled = true →
    n.next = some c → Wakes w c x → Wakes w h x

/-- The live blocks, when the rule for a block reads these of its inputs: the first enabled
block of each chain that begins at the top, in an input that a live block reads, or behind a
live block. -/
inductive Live (w : Workspace) (reads : Block → List String) : Nat → Prop
  | top {t x : Nat} : t ∈ w.topBlocks → w.Wakes t x → Live w reads x
  | read {p c x : Nat} {n : Node} {name : String} {s : Slot} : Live w reads p →
    w.node? p = some n → name ∈ reads n.block → w.slot? p (.str name) = some s →
    s.target = some c → w.Wakes c x → Live w reads x
  | next {p c x : Nat} {n : Node} : Live w reads p → w.node? p = some n → n.next = some c →
    w.Wakes c x → Live w reads x

end Workspace

/-! ## Live blocks of a tree -/

/-- What is found under the name of an input. -/
def Chain.found (below : List (Value × List Block)) (name : String) : List Block :=
  ((below.find? (·.1.same (.str name))).map (·.2)).getD []

mutual
/-- The live blocks of a tree, each before what hangs on it, in the order in which the
inputs are read. -/
def Chain.live (reads : Block → List String) : Chain → List Block
  | .nil => []
  | .cons b inputs next =>
    if b.isDisabled then next.live reads
    else b :: ((reads b).flatMap (Chain.found (inputs.live reads)) ++ next.live reads)

def Inputs.live (reads : Block → List String) : Inputs → List (Value × List Block)
  | .nil => []
  | .cons name _ target rest => (name, target.live reads) :: rest.live reads
end

/-- In a list with an entry for each input what is found under a name is the entry of that
input. -/
theorem Inputs.find_listed {α : Type} {listed : Inputs → List (Value × α)} {entry : Chain → α}
    (hnil : listed .nil = []) (hcons : ∀ n kind target rest,
      listed (.cons n kind target rest) = (n, entry target) :: listed rest)
    (inputs : Inputs) (name : Value) : (listed inputs).find? (·.1.same name) =
      (inputs.at? name).map fun found => (found.1, entry found.2.2) := by
  induction inputs using Inputs.inductionOn with
  | nil => rw [hnil]; rfl
  | cons m kind target rest ih =>
    rw [hcons, Inputs.at?, List.find?_cons]
    by_cases hm : m.same name = true
    · simp [hm]
    · simp only [hm, Bool.false_eq_true, if_false]
      exact ih

theorem Inputs.getD_listed {α : Type} {listed : Inputs → List (Value × List α)}
    {entry : Chain → List α} (hnil : listed .nil = []) (hcons : ∀ n kind target rest,
      listed (.cons n kind target rest) = (n, entry target) :: listed rest)
    (hempty : entry .nil = []) (inputs : Inputs) (name : Value) :
    (((listed inputs).find? (·.1.same name)).map (·.2)).getD [] = entry (inputs.target name) := by
  rw [Inputs.find_listed hnil hcons, Inputs.target_eq_at?]
  rcases inputs.at? name with _ | found
  · exact hempty.symm
  · rfl

variable {reads : Block → List String}

theorem Inputs.found_live (inputs : Inputs) (name : String) :
    Chain.found (inputs.live reads) name = (inputs.target (.str name)).live reads :=
  Inputs.getD_listed rfl (fun _ _ _ _ => rfl) rfl inputs (.str name)

theorem Chain.live_enabled {b : Block} (hb : b.isDisabled = false) (inputs : Inputs)
    (next : Chain) : (Chain.cons b inputs next).live reads =
      b :: ((reads b).flatMap (fun name => (inputs.target (.str name)).live reads) ++
        next.live reads) := by
  rw [Chain.live, if_neg (by simp [hb])]
  simp only [funext (Inputs.found_live inputs)]

theorem Chain.live_disabled {b : Block} (hb : b.isDisabled = true) (inputs : Inputs)
    (next : Chain) : (Chain.cons b inputs next).live reads = next.live reads := by
  rw [Chain.live, if_pos hb]

namespace Workspace

open Relation

variable {w : Workspace} {h p c x : Nat} {n : Node}

/-! ## The live blocks below a block -/

/-- What is plugged into the input of a name. -/
def plugIn (n : Node) (name : String) : Option Nat :=
  (n.slots.find? (·.name.same (.str name))).bind (·.target)

/-- The blocks that the run goes on to from a block. -/
def awaited (reads : Block → List String) (n : Node) : List Nat :=
  if n.block.isDisabled then n.next.toList
  else (reads n.block).filterMap (plugIn n) ++ n.next.toList

/-- The places of the live blocks in the tree of a block. -/
def liveFrom (w : Workspace) (reads : Block → List String) (h : Nat) : List Nat :=
  ((w.tree h).live reads).map (·.handle)

theorem target_ofSlots (tree : Option Nat → Chain) (htree : tree none = .nil) (slots : List Slot)
    (name : String) : (Inputs.ofSlots tree slots).target (.str name) =
      tree ((slots.find? (·.name.same (.str name))).bind (·.target)) := by
  induction slots with
  | nil => exact htree.symm
  | cons s rest ih =>
    rw [Inputs.ofSlots, Inputs.target, List.find?_cons]
    by_cases hs : s.name.same (.str name) = true
    · simp [hs]
    · simp only [hs, Bool.false_eq_true, if_false]
      exact ih

theorem live_treeAt (w : Workspace) (o : Option Nat) :
    ((w.treeAt o).live reads).map (·.handle) = o.toList.flatMap (w.liveFrom reads) := by
  rcases o with _ | c
  · simp [Chain.live]
  · simp [liveFrom]

theorem Acyclic.liveFrom_eq (hac : w.Acyclic)
    (hplaced : ∀ h n, w.node? h = some n → n.block.handle = h) (hn : w.node? h = some n) :
    w.liveFrom reads h =
      (if n.block.isDisabled then [] else [h]) ++ (awaited reads n).flatMap (w.liveFrom reads) := by
  unfold awaited
  conv_lhs => unfold liveFrom
  rw [hac.tree_eq hn]
  rcases hb : n.block.isDisabled with _ | _
  · have hread : ((reads n.block).flatMap fun name =>
        ((Inputs.ofSlots w.treeAt n.slots).target (.str name)).live reads).map (·.handle) =
        ((reads n.block).filterMap (plugIn n)).flatMap (w.liveFrom reads) := by
      rw [List.map_flatMap, List.filterMap_eq_flatMap_toList, List.flatMap_assoc]
      refine List.flatMap_congr fun name _ => ?_
      rw [target_ofSlots _ (treeAt_none w), live_treeAt]
      rfl
    rw [Chain.live_enabled hb, List.map_cons, List.map_append, hread, live_treeAt,
      hplaced h n hn]
    simp
  · rw [Chain.live_disabled hb, live_treeAt]
    simp

theorem liveFrom_of_none (hn : w.node? h = none) : w.liveFrom reads h = [] := by
  have htree : w.tree h = .nil := by
    unfold tree
    rcases w.nodes.length with _ | k
    · rfl
    · rw [treeWithin, hn]
  rw [liveFrom, htree]
  rfl

/-! ## Each of them once -/

theorem awaited_subset (hn : w.node? h = some n) : awaited reads n ⊆ w.children h := by
  intro c hc
  unfold awaited at hc
  have hnext : c ∈ n.next.toList → c ∈ w.children h := by
    intro hc
    exact mem_children_of_next hn (Option.mem_toList.mp hc)
  split at hc
  · exact hnext hc
  · rcases List.mem_append.mp hc with hc | hc
    · obtain ⟨name, -, hplug⟩ := List.mem_filterMap.mp hc
      obtain ⟨s, hs, htarget⟩ := Option.bind_eq_some_iff.mp hplug
      exact mem_children_of_slot hn (List.mem_of_find?_eq_some hs) htarget
    · exact hnext hc

/-- No block is awaited twice, since it hangs in one place only. -/
theorem nodup_awaited (hreads : ∀ b, (reads b).Nodup) (hn : w.node? h = some n)
    (honce : (w.children h).Nodup) : (awaited reads n).Nodup := by
  rw [children_eq, hn, Option.map_some, Option.getD_some, Node.children, List.nodup_append] at honce
  obtain ⟨hslots, hnext, hapart⟩ := honce
  unfold awaited
  split
  · exact hnext
  · have hplugged : ∀ name c, plugIn n name = some c → ∃ s ∈ n.slots,
        s.name = .str name ∧ s.target = some c := by
      intro name c hplug
      obtain ⟨s, hs, htarget⟩ := Option.bind_eq_some_iff.mp hplug
      have hsame := List.find?_some hs
      exact ⟨s, List.mem_of_find?_eq_some hs, (Value.same_text_iff s.name name).1 hsame, htarget⟩
    rw [List.nodup_append]
    refine ⟨(hreads n.block).filterMap ?_, hnext, ?_⟩
    · intro name other c hname hother
      obtain ⟨s, hs, hsname, hstarget⟩ := hplugged name c hname
      obtain ⟨t, ht, htname, httarget⟩ := hplugged other c hother
      have hst : s = t := by
        by_contra hne
        have hsymm : Std.Symm fun s t : Slot =>
            ∀ c, s.target = some c → ∀ d, t.target = some d → c ≠ d :=
          ⟨fun s t hst c hc d hd => (hst d hd c hc).symm⟩
        exact (List.pairwise_filterMap.mp hslots).forall hs ht hne c hstarget c httarget rfl
      subst hst
      rw [hsname] at htname
      exact Value.str.inj htname
    · intro c hc d hd
      obtain ⟨name, -, hplug⟩ := List.mem_filterMap.mp hc
      obtain ⟨s, hs, -, htarget⟩ := hplugged name c hplug
      exact hapart c (List.mem_filterMap.mpr ⟨s, hs, htarget⟩) d hd

variable (hac : w.Acyclic) (hplaced : ∀ h n, w.node? h = some n → n.block.handle = h)

include hac hplaced

/-- A live block below another can be reached from it. -/
theorem reaches_of_liveFrom (hx : x ∈ w.liveFrom reads h) : w.Reaches h x := by
  refine hac.induction (P := fun h => x ∈ w.liveFrom reads h → w.Reaches h x) ?_ h hx
  intro h ih hx
  rcases hn : w.node? h with _ | n
  · rw [liveFrom_of_none hn] at hx
    cases hx
  · rw [hac.liveFrom_eq hplaced hn, List.mem_append, List.mem_flatMap] at hx
    rcases hx with hx | ⟨c, hc, hx⟩
    · split at hx
      · cases hx
      · rw [List.mem_singleton.mp hx]
    · have hchild := awaited_subset hn hc
      exact ReflTransGen.head hchild (ih c hchild hx)

/-- No block is live in two ways below a block. -/
theorem nodup_liveFrom (hreads : ∀ b, (reads b).Nodup) (hrooted : w.Rooted)
    (honce : ∀ p, (w.children p).Nodup) (h : Nat) : (w.liveFrom reads h).Nodup := by
  refine hac.induction ?_ h
  intro h ih
  rcases hn : w.node? h with _ | n
  · rw [liveFrom_of_none hn]
    exact List.nodup_nil
  · have hreach : ∀ c ∈ awaited reads n, ∀ x ∈ w.liveFrom reads c, w.Reaches c x :=
      fun c _ x hx => reaches_of_liveFrom hac hplaced hx
    have hchild : awaited reads n ⊆ w.children h := awaited_subset hn
    rw [hac.liveFrom_eq hplaced hn, List.nodup_append, List.nodup_flatMap]
    refine ⟨by split <;> simp, ⟨fun c hc => ih c (hchild hc), ?_⟩, ?_⟩
    · refine (nodup_awaited hreads hn (honce h)).imp_of_mem ?_
      intro c d hc hd hne x hxc hxd
      exact hne (hac.eq_of_siblings hrooted (hchild hc) (hchild hd) (hreach c hc x hxc)
        (hreach d hd x hxd))
    · intro x hx y hy hxy
      subst hxy
      obtain ⟨c, hc, hbelow⟩ := List.mem_flatMap.mp hy
      split at hx
      · cases hx
      · rw [List.mem_singleton.mp hx] at hbelow
        exact hac h (TransGen.head' (hchild hc) (hreach c hc h hbelow))

/-! ## They are the live blocks of the graph -/

theorem liveFrom_of_wakes (hx : w.Wakes h x) : x ∈ w.liveFrom reads h := by
  induction hx with
  | self hn henabled =>
    rw [hac.liveFrom_eq hplaced hn, henabled]
    exact List.mem_cons_self
  | behind hn hdisabled hnext _ ih =>
    rw [hac.liveFrom_eq hplaced hn, awaited, if_pos hdisabled, if_pos hdisabled, hnext]
    simpa using ih

/-- What a live block goes on to is live wherever the block is. -/
theorem liveFrom_trans (hp : p ∈ w.liveFrom reads h) (hn : w.node? p = some n)
    (hc : c ∈ (reads n.block).filterMap (plugIn n) ++ n.next.toList)
    (hx : x ∈ w.liveFrom reads c) : x ∈ w.liveFrom reads h := by
  refine hac.induction (P := fun h => p ∈ w.liveFrom reads h → x ∈ w.liveFrom reads h) ?_ h hp
  intro h ih hp
  rcases hm : w.node? h with _ | m
  · rw [liveFrom_of_none hm] at hp
    cases hp
  · rw [hac.liveFrom_eq hplaced hm, List.mem_append, List.mem_flatMap] at hp ⊢
    right
    rcases hp with hp | ⟨d, hd, hp⟩
    · split at hp
      · cases hp
      · rename_i henabled
        obtain rfl := List.mem_singleton.mp hp
        rw [hn] at hm
        cases hm
        exact ⟨c, by rw [awaited, if_neg henabled]; exact hc, hx⟩
    · exact ⟨d, hd, ih d (awaited_subset hm hd) hp⟩

theorem live_of_liveFrom (hwakes : ∀ y, w.Wakes h y → w.Live reads y)
    (hx : x ∈ w.liveFrom reads h) : w.Live reads x := by
  refine hac.induction (P := fun h => (∀ y, w.Wakes h y → w.Live reads y) →
    x ∈ w.liveFrom reads h → w.Live reads x) ?_ h hwakes hx
  intro h ih hwakes hx
  rcases hn : w.node? h with _ | n
  · rw [liveFrom_of_none hn] at hx
    cases hx
  · rw [hac.liveFrom_eq hplaced hn, List.mem_append, List.mem_flatMap] at hx
    rcases hb : n.block.isDisabled with _ | _
    · have hself : w.Live reads h := hwakes h (.self hn hb)
      rw [hb] at hx
      rcases hx with hx | ⟨c, hc, hx⟩
      · rw [List.mem_singleton.mp hx]
        exact hself
      · refine ih c (awaited_subset hn hc) ?_ hx
        rw [awaited, if_neg (by simp [hb]), List.mem_append] at hc
        rcases hc with hc | hc
        · obtain ⟨name, hname, hplug⟩ := List.mem_filterMap.mp hc
          obtain ⟨s, hs, htarget⟩ := Option.bind_eq_some_iff.mp hplug
          have hslot : w.slot? h (.str name) = some s := by
            unfold slot? slots
            rw [hn]
            exact hs
          exact fun y hy => .read hself hn hname hslot htarget hy
        · exact fun y hy => .next hself hn (Option.mem_toList.mp hc) hy
    · rcases hx with hx | ⟨c, hc, hx⟩
      · rw [hb] at hx
        cases hx
      · refine ih c (awaited_subset hn hc) ?_ hx
        rw [awaited, if_pos hb] at hc
        exact fun y hy => hwakes y (.behind hn hb (Option.mem_toList.mp hc) hy)

/-- The live blocks of the trees of all top blocks are the live blocks. -/
theorem mem_liveFrom_tops : x ∈ w.topBlocks.flatMap (w.liveFrom reads) ↔ w.Live reads x := by
  rw [List.mem_flatMap]
  constructor
  · rintro ⟨t, ht, hx⟩
    exact live_of_liveFrom hac hplaced (fun y hy => .top ht hy) hx
  · intro hx
    have hgoes : ∀ {p c x n}, (∃ t ∈ w.topBlocks, p ∈ w.liveFrom reads t) → w.node? p = some n →
        c ∈ (reads n.block).filterMap (plugIn n) ++ n.next.toList → w.Wakes c x →
        ∃ t ∈ w.topBlocks, x ∈ w.liveFrom reads t := by
      rintro p c x n ⟨t, ht, hp⟩ hn hc hwakes
      exact ⟨t, ht, liveFrom_trans hac hplaced hp hn hc (liveFrom_of_wakes hac hplaced hwakes)⟩
    induction hx with
    | top ht hwakes => exact ⟨_, ht, liveFrom_of_wakes hac hplaced hwakes⟩
    | @read p c x n name s _ hn hname hslot htarget hwakes ih =>
      refine hgoes ih hn (List.mem_append_left _ (List.mem_filterMap.mpr ⟨name, hname, ?_⟩)) hwakes
      unfold slot? slots at hslot
      rw [hn] at hslot
      exact Option.bind_eq_some_iff.mpr ⟨s, hslot, htarget⟩
    | next _ hn hnext hwakes ih =>
      exact hgoes ih hn (List.mem_append_right _ (Option.mem_toList.mpr hnext)) hwakes

/-- Each live block stands once among them. -/
theorem nodup_liveFrom_tops (hreads : ∀ b, (reads b).Nodup) (hrooted : w.Rooted)
    (honce : ∀ p, (w.children p).Nodup) (hmembers : w.members.Nodup) :
    (w.topBlocks.flatMap (w.liveFrom reads)).Nodup := by
  have htop : ∀ t ∈ w.topBlocks, w.parent? t = none := by
    intro t ht
    simpa using (List.mem_filter.mp ht).2
  rw [List.nodup_flatMap]
  refine ⟨fun t _ => nodup_liveFrom hac hplaced hreads hrooted honce t, ?_⟩
  refine (hmembers.filter _ : w.topBlocks.Nodup).imp_of_mem ?_
  intro t u ht hu hne x hxt hxu
  exact hne (hrooted.eq_of_tops (htop t ht) (htop u hu) (reaches_of_liveFrom hac hplaced hxt)
    (reaches_of_liveFrom hac hplaced hxu))

end Workspace
end BlockCode
