-- Workspaces that are built without taking a place from a block. No block is lost there, and
-- each has an id that tells it apart from all others.
import BlockCode.Proofs.Document.Identity
import BlockCode.Proofs.Workspace.Lost

namespace BlockCode

namespace Workspace

variable {w : Workspace}

/-! ## The blocks stay what they are -/

/-- All blocks, each at its place. -/
def blocks (w : Workspace) : List Block := w.nodes.map (·.block)

theorem blocks_update (w : Workspace) (h : Nat) {f : Node → Node}
    (hf : ∀ n, (f n).block = n.block) : (w.update h f).blocks = w.blocks := by
  apply List.ext_getElem?
  intro k
  simp only [blocks, update, List.getElem?_map, List.getElem?_modify]
  rcases w.nodes[k]? with _ | n
  · rfl
  · by_cases hk : h = k <;> simp [hk, hf]

theorem blocks_detach (w : Workspace) (c : Nat) : (w.detach c).blocks = w.blocks := by
  unfold detach
  split
  · rfl
  · simp [blocks_update, release]

theorem blocks_addSlot (w : Workspace) (h : Nat) (name : Value) (kind : SlotKind) :
    (w.addSlot h name kind).blocks = w.blocks := by
  refine blocks_update _ _ fun n => ?_
  split <;> rfl

theorem blocks_connect (w : Workspace) (h : Nat) (name : Value) (kind : SlotKind) (c : Nat) :
    (w.connect h name kind c).blocks = w.blocks := by
  unfold connect
  simp [blocks_update, blocks_detach, blocks_addSlot]

theorem blocks_follow (w : Workspace) (h c : Nat) : (w.follow h c).blocks = w.blocks := by
  unfold follow
  simp [blocks_update, blocks_detach]

theorem block?_eq (w : Workspace) (h : Nat) : w.block? h = w.blocks[h]? := by
  simp [block?, node?, blocks]

theorem ids_eq (hmembers : w.members = List.range w.nodes.length) :
    w.ids = w.blocks.map (·.id) := by
  have hw : w = ofNodes w.nodes := by
    unfold ofNodes
    rw [← hmembers]
  rw [hw, ids_ofNodes]
  simp [blocks]

/-- Every block has a text of its own for its id, and a table of fields. -/
structure Named (w : Workspace) : Prop where
  texts : ∀ b ∈ w.blocks, ∃ s, b.id = .str s
  tabled : ∀ b ∈ w.blocks, ∃ entries, b.fields = .table entries
  distinct : w.Distinct

end Workspace

open Workspace

namespace Edit

/-! ## Gentle edits -/

/-- A block is made for the workspace, with an id that no other has, or a block is attached in a
place where none is. -/
def Gentle (w : Workspace) : Edit → Prop
  | newBlock b => (∃ s, b.id = .str s) ∧ (∃ entries, b.fields = .table entries) ∧
    ∀ id ∈ w.ids, id.equals b.id = false
  | make _ => False
  | add _ => False
  | declare _ _ _ => True
  | connect h name _ _ => (w.slot? h name).bind (·.target) = none
  | follow h _ => (w.node? h).bind (·.next) = none

variable {w : Workspace} {edits : List Edit} {e : Edit}

theorem Gentle.own (hmay : e.Gentle w) : e.Own := by
  cases e with
  | make b => exact hmay
  | add h => exact hmay
  | _ => exact trivial

theorem Gentle.displaced (hmay : e.Gentle w) : e.displaced? w = none := by
  cases e with
  | connect h name kind child =>
    unfold Gentle at hmay
    simp [displaced?, hmay]
  | follow h child =>
    unfold Gentle at hmay
    simp [displaced?, hmay]
  | _ => rfl

/-- No block is lost where none gives its place to another. -/
theorem kept_build (h : Allowed Gentle edits) : (build edits).Kept := by
  rw [kept_iff]
  intro x hlost
  obtain ⟨before, e, rest, rfl, hdisplaced, -⟩ := (lost_iff_displaced h x).mp hlost
  obtain ⟨-, ⟨-, hmay⟩, -⟩ := (allowedFrom_append {} before (e :: rest)).mp h
  rw [show before.foldl after {} = build before from rfl] at hmay
  rw [hmay.displaced] at hdisplaced
  cases hdisplaced

theorem blocks_after (hown : e.Own) (hnew : ∀ b, e ≠ newBlock b) :
    (e.after w).blocks = w.blocks := by
  cases e with
  | newBlock b => exact absurd rfl (hnew b)
  | make b => exact absurd hown id
  | add h => exact absurd hown id
  | declare h name kind =>
    rw [after_declare]
    split
    · exact blocks_addSlot w h name kind
    · rfl
  | connect h name kind child =>
    rw [after_connect]
    split
    · exact blocks_connect w h name kind child
    · rfl
  | follow h child =>
    rw [after_follow]
    exact blocks_follow w h child

theorem named_newBlock {b : Block} (hmay : (newBlock b).Gentle w)
    (hmembers : w.members = List.range w.nodes.length) (hnamed : w.Named) :
    ((newBlock b).after w).Named := by
  have hnow := members_after hmay.own hmembers
  obtain ⟨⟨s, hs⟩, htable, hfree⟩ := hmay
  have hblocks : ((newBlock b).after w).blocks =
      w.blocks ++ [{ b with handle := w.nodes.length }] := by
    rw [after_newBlock, newBlock_eq]
    simp [Workspace.blocks, Workspace.make, Workspace.add, hs, Value.isNull]
  have hdistinct := hnamed.distinct
  unfold Distinct at hdistinct
  rw [ids_eq hmembers] at hdistinct hfree
  refine ⟨?_, ?_, ?_⟩
  · rw [hblocks]
    simpa [or_imp, forall_and] using ⟨hnamed.texts, ⟨s, hs⟩⟩
  · rw [hblocks]
    simpa [or_imp, forall_and] using ⟨hnamed.tabled, htable⟩
  · unfold Distinct
    rw [ids_eq hnow, hblocks, List.map_append, List.pairwise_append]
    exact ⟨hdistinct, List.pairwise_singleton _ _, by simpa using hfree⟩

/-- A gentle edit keeps the names of all blocks, and names a new one. -/
theorem named_after (hmay : e.Gentle w) (hmembers : w.members = List.range w.nodes.length)
    (hnamed : w.Named) : (e.after w).Named := by
  by_cases hnew : ∃ b, e = newBlock b
  · obtain ⟨b, rfl⟩ := hnew
    exact named_newBlock hmay hmembers hnamed
  · have hblocks := blocks_after (w := w) hmay.own fun b hb => hnew ⟨b, hb⟩
    refine ⟨by rw [hblocks]; exact hnamed.texts, by rw [hblocks]; exact hnamed.tabled, ?_⟩
    have hdistinct := hnamed.distinct
    unfold Distinct at hdistinct ⊢
    rw [ids_eq (members_after hmay.own hmembers), hblocks, ← ids_eq hmembers]
    exact hdistinct

theorem named_build (h : Allowed Gentle edits) : (build edits).Named := by
  refine Allowed.induction ?_ ?_ h
  · exact ⟨nofun, nofun, List.Pairwise.nil⟩
  · intro edits e hbefore ih _ hmay
    rw [build_snoc]
    exact named_after hmay (members_build (fun _ _ hmay => hmay.own) hbefore) ih

end Edit
end BlockCode
