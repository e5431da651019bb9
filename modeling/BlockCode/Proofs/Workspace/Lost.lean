-- Blocks that are lost. A block that is plugged into an input, or that follows another,
-- takes the place of the block that stood there. That one keeps its parent, so it is no top
-- block, and it hangs on nothing, so it is below none, until it is attached again.
import BlockCode.Proofs.Workspace.Acyclic

namespace BlockCode

open Workspace

namespace Edit

/-- The edit makes no block but for the workspace. -/
def Own : Edit → Prop
  | make _ => False
  | add _ => False
  | _ => True

/-- Only blocks of the workspace are made, and none is attached to itself or to a block that
hangs on it. -/
def Treelike (w : Workspace) : Edit → Prop
  | newBlock _ => True
  | make _ => False
  | add _ => False
  | declare _ _ _ => True
  | connect h _ _ child => h ∉ w.descendants child
  | follow h child => h ∉ w.descendants child

instance decidableTreelike (w : Workspace) : (e : Edit) → Decidable (e.Treelike w)
  | newBlock _ => .isTrue trivial
  | make _ => .isFalse id
  | add _ => .isFalse id
  | declare _ _ _ => .isTrue trivial
  | connect h _ _ child => inferInstanceAs (Decidable (h ∉ w.descendants child))
  | follow h child => inferInstanceAs (Decidable (h ∉ w.descendants child))

/-- The block lost its place to another, and was not attached again. -/
def Displaced (edits : List Edit) (x : Nat) : Prop :=
  ∃ before e rest, edits = before ++ e :: rest ∧ e.displaced? (build before) = some x ∧
    ∀ f ∈ rest, f.child? ≠ some x

theorem displaced_snoc (edits : List Edit) (e : Edit) (x : Nat) :
    Displaced (edits ++ [e]) x ↔
      (Displaced edits x ∧ e.child? ≠ some x) ∨ e.displaced? (build edits) = some x := by
  constructor
  · rintro ⟨before, f, rest, heq, hf, hrest⟩
    rcases List.eq_nil_or_concat rest with rfl | ⟨rest, g, rfl⟩
    · obtain ⟨rfl, hlast⟩ := List.append_inj' heq rfl
      cases hlast
      exact Or.inr hf
    · rw [List.concat_eq_append] at heq hrest
      rw [← List.cons_append, ← List.append_assoc] at heq
      obtain ⟨rfl, hlast⟩ := List.append_inj' heq rfl
      cases hlast
      refine Or.inl ⟨⟨before, f, rest, rfl, hf, ?_⟩, hrest _ (by simp)⟩
      exact fun g hg => hrest g (List.mem_append_left _ hg)
  · rintro (⟨⟨before, f, rest, rfl, hf, hrest⟩, hlast⟩ | hlast)
    · refine ⟨before, f, rest ++ [e], by simp, hf, ?_⟩
      intro g hg
      rcases List.mem_append.mp hg with hg | hg
      · exact hrest g hg
      · rw [List.mem_singleton.mp hg]
        exact hlast
    · exact ⟨edits, e, [], rfl, hlast, fun g hg => absurd hg List.not_mem_nil⟩

end Edit

namespace Workspace

/-- The block has a parent on which it does not hang. -/
def Lost (w : Workspace) (x : Nat) : Prop := ∃ p, w.parent? x = some p ∧ x ∉ w.children p

variable {w w' : Workspace} {h c x : Nat} {d : Option Nat}

theorem kept_iff : w.Kept ↔ ∀ x, ¬ w.Lost x := by
  constructor
  · rintro hk x ⟨p, hp, hnot⟩
    exact hnot (hk x p hp)
  · intro hl x p hp
    by_contra hnot
    exact hl x ⟨p, hp, hnot⟩

/-- The block that gave its place is lost, and the one that took it is not. -/
theorem Attaches.lost_iff (ha : Attaches w w' h c d) (hs : w.Sound) :
    w'.Lost x ↔ (w.Lost x ∧ c ≠ x) ∨ d = some x := by
  obtain ⟨left, right, hbefore, hafter⟩ := ha.here
  have hplace : d = some x → x ∈ (w.children h).filter (· ≠ c) := by
    rintro rfl
    rw [hbefore]
    simp
  constructor
  · rintro ⟨p, hp, hnot⟩
    by_cases hxc : x = c
    · subst hxc
      rw [ha.parent, if_pos rfl, Option.some.injEq] at hp
      subst hp
      exact absurd ha.child hnot
    · rw [ha.parent, if_neg hxc] at hp
      by_cases hold : x ∈ w.children p
      · right
        by_cases hph : p = h
        · subst hph
          -- It hung there, and does not hang there now: it stood in the place itself.
          have hmem : x ∈ (w.children p).filter (· ≠ c) := by
            simpa using ⟨hold, hxc⟩
          rw [hbefore] at hmem
          rw [hafter] at hnot
          simp only [List.mem_append, List.mem_cons, Option.mem_toList, not_or] at hmem hnot
          rcases hmem with (hl | hd) | hr
          · exact absurd hl hnot.1
          · exact hd
          · exact absurd hr hnot.2.2
        · rw [ha.elsewhere p hph] at hnot
          exact absurd (by simpa using ⟨hold, hxc⟩) hnot
      · exact Or.inl ⟨⟨p, hp, hold⟩, Ne.symm hxc⟩
  · rintro (⟨⟨p, hp, hnot⟩, hne⟩ | hd)
    · refine ⟨p, by rw [ha.parent, if_neg hne.symm]; exact hp, fun hx => ?_⟩
      rcases ha.mem_children hx with ⟨-, heq⟩ | ⟨hold, -⟩
      · exact hne heq.symm
      · exact hnot hold
    · have hmem := hplace hd
      obtain ⟨hold, hne⟩ := List.mem_filter.mp hmem
      have hne : x ≠ c := by simpa using hne
      have hnodup := (hs.once h).filter (· ≠ c)
      subst hd
      rw [hbefore, Option.toList_some, List.append_assoc, List.singleton_append,
        List.perm_middle.nodup_iff, List.nodup_cons, List.mem_append, not_or] at hnodup
      refine ⟨h, by rw [ha.parent, if_neg hne]; exact hs.rooted h x hold, ?_⟩
      rw [hafter, List.mem_append, List.mem_cons, not_or, not_or]
      exact ⟨hnodup.1.1, hne, hnodup.1.2⟩

end Workspace

namespace Edit

variable {w : Workspace} {edits : List Edit} {x : Nat}

theorem lost_after {e : Edit} (hs : w.Sound) (hfits : e.Fits w) :
    (e.after w).Lost x ↔ (w.Lost x ∧ e.child? ≠ some x) ∨ e.displaced? w = some x := by
  rcases after_cases hs.rooted hfits with ⟨hlink, hdisplaced, hu⟩ | ⟨h, c, hlink, ha⟩
  · unfold Lost
    simp [child?, hlink, hdisplaced, hu.children, hu.parent]
  · rw [ha.lost_iff hs]
    simp [child?, hlink]

/-- The lost blocks are those that were displaced last. -/
theorem lost_iff_displaced {may : Workspace → Edit → Prop} (h : Allowed may edits) (x : Nat) :
    (build edits).Lost x ↔ Displaced edits x := by
  refine Allowed.induction ?_ ?_ h
  · constructor
    · rintro ⟨p, hp, -⟩
      simp [build, parent?_eq, node?] at hp
    · rintro ⟨before, e, rest, heq, -⟩
      simp at heq
  · intro edits e hbefore ih hfits _
    rw [build_snoc, lost_after (sound_build hbefore) hfits, displaced_snoc, ih]

/-- An edit that makes no block but for the workspace leaves it all blocks. -/
theorem members_after {e : Edit} (hown : e.Own)
    (hall : w.members = List.range w.nodes.length) :
    (e.after w).members = List.range (e.after w).nodes.length := by
  have hupdate : ∀ (w : Workspace) h f, (w.update h f).members = w.members ∧
      (w.update h f).nodes.length = w.nodes.length := by
    intro w h f
    simp [update]
  have hdetach : ∀ (w : Workspace) c, (w.detach c).members = w.members ∧
      (w.detach c).nodes.length = w.nodes.length := by
    intro w c
    unfold detach
    split <;> simp [hupdate]
  cases e with
  | newBlock b =>
    rw [after_newBlock, newBlock_eq]
    simp [Workspace.make, Workspace.add, hall, List.range_succ]
  | make b => exact absurd hown id
  | add h => exact absurd hown id
  | declare h name kind =>
    rw [after_declare]
    split <;> simp [addSlot, hupdate, hall]
  | connect h name kind child =>
    rw [after_connect]
    split <;> simp [Workspace.connect, addSlot, hupdate, hdetach, hall]
  | follow h child =>
    rw [after_follow]
    simp [Workspace.follow, hupdate, hdetach, hall]

/-- A workspace that is built of its own blocks owns them all. -/
theorem members_build {may : Workspace → Edit → Prop} (hown : ∀ w e, may w e → e.Own)
    (h : Allowed may edits) : (build edits).members = List.range (build edits).nodes.length := by
  refine Allowed.induction rfl ?_ h
  intro edits e _ ih _ hmay
  rw [build_snoc]
  exact members_after (hown _ e hmay) ih

theorem link_cases {e : Edit} {h c : Nat} (hlink : e.link? = some (h, c)) :
    (∃ name kind, e = connect h name kind c) ∨ e = follow h c := by
  cases e with
  | connect p name kind child =>
    simp only [link?] at hlink
    split at hlink
    · cases hlink
      exact Or.inl ⟨name, kind, rfl⟩
    · cases hlink
  | follow p child =>
    cases hlink
    exact Or.inr rfl
  | _ => cases hlink

theorem Fits.link {e : Edit} {h c : Nat} (hfits : e.Fits w) (hlink : e.link? = some (h, c)) :
    h < w.nodes.length ∧ c < w.nodes.length := by
  rcases link_cases hlink with ⟨name, kind, rfl⟩ | rfl
  · exact hfits
  · exact hfits

theorem Treelike.own {e : Edit} (hmay : e.Treelike w) : e.Own := by
  cases e with
  | make b => exact hmay
  | add h => exact hmay
  | _ => exact trivial

/-! ## Edits that attach no block below itself -/

/-- The edit attaches no block to itself or to one that hangs on it. It may take a place from
another block, and it may move a block with all that hangs on it. -/
def Upright (w : Workspace) (e : Edit) : Prop := ∀ h c, e.link? = some (h, c) → ¬ w.Reaches c h

/-- The same, as it can be searched for. -/
def Clear (w : Workspace) (e : Edit) : Prop := ∀ link ∈ e.link?, link.1 ∉ w.descendants link.2

instance decidableClear (w : Workspace) (e : Edit) : Decidable (e.Clear w) :=
  inferInstanceAs (Decidable (∀ link ∈ e.link?, link.1 ∉ w.descendants link.2))

theorem upright_acyclic (h : Allowed Upright edits) : (build edits).Acyclic := by
  refine Allowed.induction ?_ ?_ h
  · intro a ha
    obtain ⟨b, hb, -⟩ := Relation.TransGen.head'_iff.mp ha
    exact absurd hb List.not_mem_nil
  · intro edits e hbefore ih hfits hmay
    rw [build_snoc]
    rcases after_cases (sound_build hbefore).rooted hfits with ⟨-, -, hu⟩ | ⟨h, c, hlink, ha⟩
    · exact hu.acyclic ih
    · exact ha.acyclic ih (hmay h c hlink)

theorem upright_of_clear {may : Workspace → Edit → Prop} (hmay : ∀ w e, may w e → e.Clear w)
    (h : Allowed may edits) : Allowed Upright edits := by
  refine Allowed.induction trivial ?_ h
  intro edits e hbefore ih hfits hnext
  rw [allowed_snoc]
  refine ⟨ih, hfits, ?_⟩
  intro h c hlink hreach
  apply hmay _ e hnext (h, c) hlink
  rw [(upright_acyclic ih).mem_descendants (sound_build hbefore) (hfits.link hlink).2]
  exact hreach

theorem Treelike.clear {e : Edit} (hmay : e.Treelike w) : e.Clear w := by
  rintro ⟨h, c⟩ hlink
  rcases link_cases hlink with ⟨name, kind, rfl⟩ | rfl
  · exact hmay
  · exact hmay

theorem acyclic_build (h : Allowed Treelike edits) : (build edits).Acyclic :=
  upright_acyclic (upright_of_clear (fun _ _ => Treelike.clear) h)

/-! ## The law of lost blocks -/

/-- A block hangs on its parent unless it was displaced last. All blocks of a workspace are
below its top blocks, each once, exactly when none was displaced last. -/
theorem no_block_lost_iff (h : Allowed Treelike edits) :
    (∀ c p, (build edits).parent? c = some p →
      (c ∈ (build edits).children p ↔ ¬ Displaced edits c)) ∧
    (((build edits).topBlocks.flatMap (build edits).descendants).Perm (build edits).members ↔
      ∀ c, ¬ Displaced edits c) := by
  have hs := sound_build h
  have hac := acyclic_build h
  have hmembers := members_build (fun _ _ hmay => hmay.own) h
  have hlost := lost_iff_displaced h
  generalize build edits = w at hs hac hmembers hlost
  constructor
  · intro c p hp
    rw [← hlost]
    constructor
    · rintro hc ⟨q, hq, hnot⟩
      rw [hp, Option.some.injEq] at hq
      subst hq
      exact hnot hc
    · intro hkept
      by_contra hc
      exact hkept ⟨p, hp, hc⟩
  · simp only [← hlost]
    rw [← kept_iff]
    constructor
    · intro hperm c p hp
      have hmem : c ∈ w.topBlocks.flatMap w.descendants := by
        rw [hperm.mem_iff, hmembers, List.mem_range]
        exact lt_of_parent hp
      obtain ⟨t, ht, hc⟩ := List.mem_flatMap.mp hmem
      obtain ⟨htop, hnone⟩ : t < w.nodes.length ∧ w.parent? t = none := by
        simpa [topBlocks, hmembers] using ht
      have hne : t ≠ c := by
        rintro rfl
        simp [hnone] at hp
      rcases Relation.ReflTransGen.cases_tail ((hac.mem_descendants hs htop).mp hc) with
        heq | ⟨q, -, hhold⟩
      · exact absurd heq.symm hne
      · rw [hs.rooted q c hhold, Option.some.injEq] at hp
        exact hp ▸ hhold
    · exact fun hkept => hac.descendants_of_tops hs hkept hmembers

/-- Three blocks, of which the third takes the place of the second. -/
def replaced : List Edit :=
  [newBlock { type := .str "a" }, newBlock { type := .str "b" }, newBlock { type := .str "c" },
    connect 0 (.str "A") .value 1, connect 0 (.str "A") .value 2]

/-- The second block follows the third then, and none is lost. -/
theorem replaced_attached_again :
    Allowed Treelike (replaced ++ [follow 2 1]) ∧
      ((build (replaced ++ [follow 2 1])).topBlocks.flatMap
        (build (replaced ++ [follow 2 1])).descendants).Perm
          (build (replaced ++ [follow 2 1])).members ∧
      ∀ c, ¬ Displaced (replaced ++ [follow 2 1]) c := by
  have hallowed : Allowed Treelike (replaced ++ [follow 2 1]) := by decide
  have hperm : ((build (replaced ++ [follow 2 1])).topBlocks.flatMap
      (build (replaced ++ [follow 2 1])).descendants).Perm
        (build (replaced ++ [follow 2 1])).members := by decide
  exact ⟨hallowed, hperm, (no_block_lost_iff hallowed).2.mp hperm⟩

/-- The second block has the first for its parent, but does not hang on it. It is no top block
and below none. -/
theorem replaced_block_lost :
    Allowed Treelike replaced ∧ (build replaced).parent? 1 = some 0 ∧
      1 ∉ (build replaced).children 0 ∧ (build replaced).topBlocks = [0] ∧
      (build replaced).descendants 0 = [0, 2] ∧
      ¬ ((build replaced).topBlocks.flatMap (build replaced).descendants).Perm
        (build replaced).members := by
  decide

end Edit
end BlockCode
