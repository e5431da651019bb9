-- Graphs without cycles. There the fuel of a tree reaches every end, so a tree is made of
-- the trees of what hangs on its first block, and the descendants of a block are all blocks
-- that can be reached from it, each once.
import BlockCode.Proofs.Workspace.Attachment
import BlockCode.Proofs.Workspace.Settled
import Mathlib.Data.List.Perm.Subperm
import Mathlib.Logic.Relation

namespace BlockCode

namespace Workspace

open Relation

/-- The block `c` hangs on the block `p`. -/
def Holds (w : Workspace) (p c : Nat) : Prop := c ∈ w.children p

/-- No block hangs on itself, not even through others. -/
def Acyclic (w : Workspace) : Prop := ∀ h, ¬ TransGen w.Holds h h

/-- From the first block the second can be reached. -/
abbrev Reaches (w : Workspace) : Nat → Nat → Prop := ReflTransGen w.Holds

variable {w : Workspace} {h p c x k : Nat} {n : Node}

/-! ## Enough fuel -/

/-- No way down from the block has more than this many blocks. -/
def Within (w : Workspace) : Nat → Nat → Prop
  | 0, h => w.node? h = none
  | k + 1, h => ∀ c ∈ w.children h, w.Within k c

theorem ofSlots_congr {tree tree' : Option Nat → Chain} {slots : List Slot}
    (h : ∀ s ∈ slots, tree s.target = tree' s.target) :
    Inputs.ofSlots tree slots = Inputs.ofSlots tree' slots := by
  induction slots with
  | nil => rfl
  | cons s rest ih =>
    rw [Inputs.ofSlots, Inputs.ofSlots, h s List.mem_cons_self,
      ih fun t ht => h t (List.mem_cons_of_mem _ ht)]

theorem mem_children_of_slot (hn : w.node? h = some n) {s : Slot} (hs : s ∈ n.slots)
    (hc : s.target = some c) : c ∈ w.children h := by
  rw [children_eq, hn, Option.map_some, Option.getD_some, Node.children, List.mem_append,
    List.mem_filterMap]
  exact Or.inl ⟨s, hs, hc⟩

theorem mem_children_of_next (hn : w.node? h = some n) (hc : n.next = some c) :
    c ∈ w.children h := by
  rw [children_eq, hn, Option.map_some, Option.getD_some, Node.children, List.mem_append,
    Option.mem_toList]
  exact Or.inr hc

/-- One more unit of fuel makes no difference when there is enough. -/
theorem treeWithin_of_within (hk : w.Within k h) :
    w.treeWithin k (some h) = w.treeWithin (k + 1) (some h) := by
  induction k generalizing h with
  | zero =>
    unfold Within at hk
    simp [treeWithin, hk]
  | succ k ih =>
    have hsame : ∀ o : Option Nat, (∀ c, o = some c → c ∈ w.children h) →
        w.treeWithin k o = w.treeWithin (k + 1) o := by
      intro o ho
      rcases o with _ | c
      · rw [treeWithin_none, treeWithin_none]
      · exact ih (hk c (ho c rfl))
    rw [treeWithin, treeWithin]
    rcases hn : w.node? h with _ | n
    · rfl
    · simp only
      rw [hsame n.next fun c hc => mem_children_of_next hn hc,
        ofSlots_congr fun s hs => hsame s.target fun c hc => mem_children_of_slot hn hs hc]

/-- A way down through blocks that were not met before ends when all have been met. -/
theorem within_of_path (hac : w.Acyclic) {path : List Nat} (hnodup : path.Nodup)
    (hlt : ∀ x ∈ path, x < w.nodes.length) (hpath : ∀ x ∈ path, TransGen w.Holds x h)
    (hk : w.nodes.length ≤ path.length + k) : w.Within k h := by
  have hnew : h ∉ path := fun hmem => hac h (hpath h hmem)
  induction k generalizing path h with
  | zero =>
    rcases hn : w.node? h with _ | n
    · exact hn
    · exfalso
      have hsub : h :: path ⊆ List.range w.nodes.length := by
        intro x hx
        rw [List.mem_range]
        rcases List.mem_cons.mp hx with rfl | hx
        · exact node?_lt hn
        · exact hlt x hx
      have hlength := (List.subperm_of_subset (List.nodup_cons.mpr ⟨hnew, hnodup⟩) hsub).length_le
      rw [List.length_cons, List.length_range] at hlength
      omega
  | succ k ih =>
    intro c hc
    have hdown : ∀ x ∈ h :: path, TransGen w.Holds x c := by
      intro x hx
      rcases List.mem_cons.mp hx with rfl | hx
      · exact TransGen.single hc
      · exact (hpath x hx).tail hc
    refine ih (List.nodup_cons.mpr ⟨hnew, hnodup⟩) ?_ hdown ?_ fun hmem => hac c (hdown c hmem)
    · intro x hx
      rcases List.mem_cons.mp hx with rfl | hx
      · exact lt_of_mem_children hc
      · exact hlt x hx
    · rw [List.length_cons]
      omega

theorem Acyclic.within (hac : w.Acyclic) (h : Nat) : w.Within w.nodes.length h :=
  within_of_path hac List.nodup_nil (fun _ hx => absurd hx List.not_mem_nil)
    (fun _ hx => absurd hx List.not_mem_nil) (Nat.le_add_left _ _)

/-- The tree of what is plugged into a place, if anything is. -/
def treeAt (w : Workspace) : Option Nat → Chain := w.treeWithin w.nodes.length

@[simp] theorem treeAt_none (w : Workspace) : w.treeAt none = .nil := treeWithin_none w _

@[simp] theorem treeAt_some (w : Workspace) (h : Nat) : w.treeAt (some h) = w.tree h := rfl

/-- A tree is made of the trees of what hangs on its first block. -/
theorem Acyclic.tree_eq (hac : w.Acyclic) (hn : w.node? h = some n) :
    w.tree h = .cons n.block (.ofSlots w.treeAt n.slots) (w.treeAt n.next) := by
  unfold tree
  rw [treeWithin_of_within (hac.within h), treeWithin, hn]
  rfl

/-! ## Descendants -/

theorem blocks_ofSlots (tree : Option Nat → Chain) (htree : tree none = .nil) (slots : List Slot) :
    (Inputs.ofSlots tree slots).blocks =
      (slots.filterMap (·.target)).flatMap fun c => (tree (some c)).blocks := by
  induction slots with
  | nil => rfl
  | cons s rest ih =>
    rw [Inputs.ofSlots, Inputs.blocks, ih]
    rcases ht : s.target with _ | t
    · simp [ht, htree, Chain.blocks]
    · simp [ht]

/-- A block comes first among its descendants, and then come those of what hangs on it. -/
theorem Acyclic.descendants_eq (hac : w.Acyclic) (hs : w.Sound) (hh : h < w.nodes.length) :
    w.descendants h = h :: (w.children h).flatMap w.descendants := by
  obtain ⟨n, hn⟩ := exists_node hh
  have hnext : (w.treeAt n.next).blocks = n.next.toList.flatMap fun c => (w.tree c).blocks := by
    rcases n.next with _ | c
    · simp [Chain.blocks]
    · simp
  unfold descendants
  rw [hac.tree_eq hn, Chain.blocks, blocks_ofSlots _ (treeAt_none w), hnext, children_eq, hn]
  simp only [Option.map_some, Option.getD_some, Node.children, treeAt_some, List.map_cons,
    (hs.orderly h n hn).placed, List.map_append, List.map_flatMap, List.flatMap_append]

theorem descendants_of_not_lt (hh : ¬ h < w.nodes.length) : w.descendants h = [] := by
  have hn : w.node? h = none := List.getElem?_eq_none (Nat.le_of_not_lt hh)
  unfold descendants tree
  rcases w.nodes.length with _ | k
  · rfl
  · simp [treeWithin, hn, Chain.blocks]

/-- What holds of a block when it holds of all that hangs on it holds of every block. -/
@[elab_as_elim]
theorem Acyclic.induction {P : Nat → Prop} (hac : w.Acyclic)
    (step : ∀ h, (∀ c ∈ w.children h, P c) → P h) (h : Nat) : P h := by
  have hall : ∀ k h, w.Within k h → P h := by
    intro k
    induction k with
    | zero =>
      intro h hk
      refine step h fun c hc => ?_
      unfold Within at hk
      simp [children_eq, hk] at hc
    | succ k ih => exact fun h hk => step h fun c hc => ih c (hk c hc)
  exact hall _ h (hac.within h)

/-- Induction on what is in a place: nothing, a block that is gone, or a block with what is in
its own places. -/
@[elab_as_elim]
theorem Acyclic.placeInduction {P : Option Nat → Prop} (hac : w.Acyclic) (empty : P none)
    (gone : ∀ h, w.node? h = none → P (some h))
    (node : ∀ h n, w.node? h = some n → (∀ s ∈ n.slots, P s.target) → P n.next → P (some h))
    (place : Option Nat) : P place := by
  have hsome : ∀ h, P (some h) := by
    intro h
    induction h using hac.induction with
    | step h ih =>
      have hplace : ∀ o : Option Nat, (∀ c, o = some c → c ∈ w.children h) → P o := by
        rintro (_ | c) ho
        · exact empty
        · exact ih c (ho c rfl)
      rcases hn : w.node? h with _ | n
      · exact gone h hn
      · exact node h n hn (fun s hs => hplace s.target fun c => mem_children_of_slot hn hs)
          (hplace n.next fun c => mem_children_of_next hn)
  cases place with
  | none => exact empty
  | some h => exact hsome h

theorem Rooted.child_lt (hs : w.Rooted) (hc : w.Holds p c) : c < w.nodes.length :=
  lt_of_parent (hs p c hc)

/-- The descendants are the blocks that can be reached. -/
theorem Acyclic.mem_descendants (hac : w.Acyclic) (hs : w.Sound) (hh : h < w.nodes.length) :
    x ∈ w.descendants h ↔ w.Reaches h x := by
  constructor
  · refine hac.induction (P := fun h => h < w.nodes.length → x ∈ w.descendants h → w.Reaches h x)
      ?_ h hh
    intro h ih hh hx
    rw [hac.descendants_eq hs hh, List.mem_cons, List.mem_flatMap] at hx
    rcases hx with rfl | ⟨c, hc, hx⟩
    · exact ReflTransGen.refl
    · exact ReflTransGen.head hc (ih c hc (hs.rooted.child_lt hc) hx)
  · intro hx
    induction hx using ReflTransGen.head_induction_on with
    | refl =>
      by_cases hlt : x < w.nodes.length
      · rw [hac.descendants_eq hs hlt]
        exact List.mem_cons_self
      · exact absurd hh hlt
    | head hc _ ih =>
      rw [hac.descendants_eq hs hh, List.mem_cons, List.mem_flatMap]
      exact Or.inr ⟨_, hc, ih (hs.rooted.child_lt hc)⟩

/-- Of two blocks above a third, one is above the other. -/
theorem Rooted.reaches_total (hs : w.Rooted) {a b : Nat} (ha : w.Reaches a x) (hb : w.Reaches b x) :
    w.Reaches a b ∨ w.Reaches b a := by
  have hunique : Relator.RightUnique (Function.swap w.Holds) := by
    intro c p q hp hq
    have hparent := hs p c hp
    rw [hs q c hq, Option.some.injEq] at hparent
    exact hparent.symm
  rcases ReflTransGen.total_of_right_unique hunique ha.swap hb.swap with h | h
  · exact Or.inr h.swap
  · exact Or.inl h.swap

/-- A way down to a block that is not its beginning comes through the parent of the block. -/
theorem Rooted.reaches_parent (hs : w.Rooted) (hx : w.Reaches h x) (hne : h ≠ x) :
    ∃ p, w.parent? x = some p ∧ w.Reaches h p := by
  rcases ReflTransGen.cases_tail hx with heq | ⟨p, hp, hhold⟩
  · exact absurd heq.symm hne
  · exact ⟨p, hs p x hhold, hp⟩

/-- No block is below two blocks that hang on the same one. -/
theorem Acyclic.eq_of_siblings (hac : w.Acyclic) (hs : w.Rooted) {d : Nat} (hc : c ∈ w.children p)
    (hd : d ∈ w.children p) (hcx : w.Reaches c x) (hdx : w.Reaches d x) : c = d := by
  -- If one child were above the other, it would be above their parent.
  have habove : ∀ a ∈ w.children p, ∀ b ∈ w.children p, w.Reaches a b → a = b := by
    intro a ha b hb hreach
    by_contra hne
    obtain ⟨q, hq, haq⟩ := hs.reaches_parent hreach hne
    rw [hs p b hb, Option.some.injEq] at hq
    subst hq
    exact hac p (TransGen.head' ha haq)
  rcases hs.reaches_total hcx hdx with hcd | hdc
  · exact habove c hc d hd hcd
  · exact (habove d hd c hc hdc).symm

/-- A way down that ends at the top has no steps. -/
theorem Rooted.eq_of_reaches_top (hs : w.Rooted) (hx : w.parent? x = none) (hreach : w.Reaches h x) :
    h = x := by
  by_contra hne
  obtain ⟨p, hp, -⟩ := hs.reaches_parent hreach hne
  rw [hx] at hp
  cases hp

/-- No block is below two top blocks. -/
theorem Rooted.eq_of_tops (hs : w.Rooted) {t u : Nat} (ht : w.parent? t = none)
    (hu : w.parent? u = none) (htx : w.Reaches t x) (hux : w.Reaches u x) : t = u := by
  rcases hs.reaches_total htx hux with htu | hut
  · exact hs.eq_of_reaches_top hu htu
  · exact (hs.eq_of_reaches_top ht hut).symm

theorem Acyclic.nodup_descendants (hac : w.Acyclic) (hs : w.Sound) (h : Nat) :
    (w.descendants h).Nodup := by
  refine hac.induction ?_ h
  intro h ih
  by_cases hh : h < w.nodes.length
  · have hreach : ∀ c ∈ w.children h, ∀ x ∈ w.descendants c, w.Reaches c x :=
      fun c hc x hx => (hac.mem_descendants hs (hs.rooted.child_lt hc)).mp hx
    rw [hac.descendants_eq hs hh, List.nodup_cons, List.nodup_flatMap, List.mem_flatMap]
    refine ⟨?_, ih, (hs.once h).imp_of_mem ?_⟩
    · rintro ⟨c, hc, hx⟩
      exact hac h (TransGen.head' hc (hreach c hc h hx))
    · intro c d hc hd hne x hxc hxd
      exact hne (hac.eq_of_siblings hs.rooted hc hd (hreach c hc x hxc) (hreach d hd x hxd))
  · rw [descendants_of_not_lt hh]
    exact List.nodup_nil

/-! ## All blocks under the top blocks -/

/-- Every block that has a parent hangs on it. -/
def Kept (w : Workspace) : Prop := ∀ c p, w.parent? c = some p → c ∈ w.children p

/-- Above every block is one that is attached to none, if all blocks hang on their parents. -/
theorem Acyclic.exists_top (hac : w.Acyclic) (hkept : w.Kept) (hx : x < w.nodes.length) :
    ∃ t, t < w.nodes.length ∧ w.parent? t = none ∧ w.Reaches t x := by
  -- Every step up makes the longest way down one block longer.
  have hup : ∀ j k x, k + j = w.nodes.length → x < w.nodes.length → ¬ w.Within k x →
      ∃ t, t < w.nodes.length ∧ w.parent? t = none ∧ w.Reaches t x := by
    intro j
    induction j with
    | zero =>
      intro k x hk _ hnot
      rw [Nat.add_zero] at hk
      subst hk
      exact absurd (hac.within x) hnot
    | succ j ih =>
      intro k x hk hx hnot
      rcases hparent : w.parent? x with _ | p
      · exact ⟨x, hx, hparent, ReflTransGen.refl⟩
      · have hhold := hkept x p hparent
        obtain ⟨t, ht, htop, hreach⟩ :=
          ih (k + 1) p (by omega) (lt_of_mem_children hhold) fun hall => hnot (hall x hhold)
        exact ⟨t, ht, htop, hreach.tail hhold⟩
  obtain ⟨n, hn⟩ := exists_node hx
  refine hup w.nodes.length 0 x (by omega) hx fun hnone => ?_
  unfold Within at hnone
  simp [hn] at hnone

/-- Every block is below just one top block, if all blocks hang on their parents and the
workspace owns them all. -/
theorem Acyclic.descendants_of_tops (hac : w.Acyclic) (hs : w.Sound) (hkept : w.Kept)
    (hmembers : w.members = List.range w.nodes.length) :
    (w.topBlocks.flatMap w.descendants).Perm w.members := by
  have hmem : ∀ t, t ∈ w.topBlocks ↔ t < w.nodes.length ∧ w.parent? t = none := by
    intro t
    simp [topBlocks, hmembers]
  have hnodup : w.topBlocks.Nodup := by
    unfold topBlocks
    rw [hmembers]
    exact List.nodup_range.filter _
  have hreach : ∀ t ∈ w.topBlocks, ∀ x ∈ w.descendants t, w.Reaches t x :=
    fun t ht x hx => (hac.mem_descendants hs ((hmem t).mp ht).1).mp hx
  rw [List.perm_ext_iff_of_nodup]
  · intro x
    rw [List.mem_flatMap, hmembers, List.mem_range]
    constructor
    · rintro ⟨t, ht, hx⟩
      rcases ReflTransGen.cases_tail (hreach t ht x hx) with rfl | ⟨p, -, hp⟩
      · exact ((hmem _).mp ht).1
      · exact hs.rooted.child_lt hp
    · intro hx
      obtain ⟨t, ht, htop, hreach⟩ := hac.exists_top hkept hx
      exact ⟨t, (hmem t).mpr ⟨ht, htop⟩, (hac.mem_descendants hs ht).mpr hreach⟩
  · rw [List.nodup_flatMap]
    refine ⟨fun t _ => hac.nodup_descendants hs t, hnodup.imp_of_mem ?_⟩
    intro t u ht hu hne x hxt hxu
    exact hne (hs.rooted.eq_of_tops ((hmem t).mp ht).2 ((hmem u).mp hu).2 (hreach t ht x hxt)
      (hreach u hu x hxu))
  · rw [hmembers]
    exact List.nodup_range

/-! ## What edits keep -/

theorem Unmoved.acyclic {w' : Workspace} (hu : Unmoved w w') (hac : w.Acyclic) : w'.Acyclic := by
  have hholds : w'.Holds = w.Holds := by
    funext p c
    unfold Holds
    rw [hu.children]
  unfold Acyclic
  rw [hholds]
  exact hac

/-- A way down is an old one, or it comes through the place where the child was attached. -/
theorem Attaches.transGen {w' : Workspace} {d : Option Nat} (ha : Attaches w w' h c d)
    (hnot : ¬ w.Reaches c h) {a b : Nat} (hab : TransGen w'.Holds a b) :
    TransGen w.Holds a b ∨ (w.Reaches a h ∧ w.Reaches c b) := by
  induction hab with
  | single hb =>
    rcases ha.mem_children hb with ⟨rfl, rfl⟩ | ⟨hold, -⟩
    · exact Or.inr ⟨ReflTransGen.refl, ReflTransGen.refl⟩
    · exact Or.inl (TransGen.single hold)
  | tail _ hb ih =>
    rcases ha.mem_children hb with ⟨rfl, rfl⟩ | ⟨hold, -⟩
    · rcases ih with hway | ⟨-, hback⟩
      · exact Or.inr ⟨hway.to_reflTransGen, ReflTransGen.refl⟩
      · exact absurd hback hnot
    · rcases ih with hway | ⟨hup, hdown⟩
      · exact Or.inl (hway.tail hold)
      · exact Or.inr ⟨hup, hdown.tail hold⟩

/-- No cycle comes about when a block is attached to one that is not below it. -/
theorem Attaches.acyclic {w' : Workspace} {d : Option Nat} (ha : Attaches w w' h c d)
    (hac : w.Acyclic) (hnot : ¬ w.Reaches c h) : w'.Acyclic := by
  intro a hcycle
  rcases ha.transGen hnot hcycle with hold | ⟨hup, hdown⟩
  · exact hac a hold
  · exact hnot (hdown.trans hup)

end Workspace
end BlockCode
