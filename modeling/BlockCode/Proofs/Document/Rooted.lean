-- How the blocks of a document hang together when it has been read. Whatever the document
-- says, a block that hangs on another has it for its parent, none hangs twice on another, each
-- knows its place, and each is in the workspace once.
import BlockCode.Proofs.Document.Grown

namespace BlockCode

namespace Workspace

/-- Blocks that hang on others have them for parents, and none hangs twice on another. -/
structure Tied (w : Workspace) : Prop where
  rooted : w.Rooted
  once : ∀ p, (w.children p).Nodup

/-- The blocks are tied, each knows its place, and none is a member twice. -/
structure Hung (w : Workspace) : Prop extends w.Tied where
  placed : ∀ h n, w.node? h = some n → n.block.handle = h
  listed : w.members.Nodup

variable {w w' : Workspace} {h c : Nat} {d : Option Nat}

theorem tied_empty : Tied {} := ⟨Edit.sound_empty.rooted, Edit.sound_empty.once⟩

theorem Unmoved.tied (hu : Unmoved w w') (hw : w.Tied) : w'.Tied :=
  ⟨hu.rooted hw.rooted, fun p => by rw [hu.children]; exact hw.once p⟩

theorem Attaches.tied (ha : Attaches w w' h c d) (hw : w.Tied) : w'.Tied :=
  ⟨ha.rooted hw.rooted, ha.once hw.once⟩

/-! ## Growing ties blocks together -/

theorem length_update (w : Workspace) (h : Nat) (f : Node → Node) :
    (w.update h f).nodes.length = w.nodes.length := by
  simp [update]

theorem length_detach (w : Workspace) (c : Nat) : (w.detach c).nodes.length = w.nodes.length := by
  unfold detach
  split
  · rfl
  · rw [length_update, length_update]

theorem length_connect (w : Workspace) (h : Nat) (name : Value) (kind : SlotKind) (c : Nat) :
    (w.connect h name kind c).nodes.length = w.nodes.length := by
  unfold connect
  simp only [length_update, length_detach, addSlot]

theorem length_follow (w : Workspace) (h c : Nat) :
    (w.follow h c).nodes.length = w.nodes.length := by
  unfold follow
  simp only [length_update, length_detach]

/-- Growing keeps blocks tied, and it makes as many new ones as the tree has. -/
def Ties (c : Chain) : Prop := ∀ w : Workspace, w.Tied →
  (w.grow c).Tied ∧ (w.grow c).nodes.length = w.nodes.length + c.blocks.length

theorem ties_inputs {inputs : Inputs} (hin : inputs.Every Ties) (h : Nat) (w : Workspace)
    (hh : h < w.nodes.length) (hw : w.Tied) : (w.growInputs h inputs).Tied ∧
      (w.growInputs h inputs).nodes.length = w.nodes.length + inputs.blocks.length := by
  induction inputs using Inputs.inductionOn generalizing w with
  | nil => exact ⟨hw, rfl⟩
  | cons name kind target rest ih =>
    rw [growInputs, Inputs.blocks, List.length_append]
    rcases hempty : target with _ | ⟨b, inputs, next⟩
    · have hdeclared : Unmoved w (w.addSlot h name kind) :=
        ⟨children_addSlot w h name kind, parent?_addSlot w h name kind⟩
      have hlength : (w.addSlot h name kind).nodes.length = w.nodes.length := length_update w h _
      obtain ⟨htied, hmore⟩ := ih hin.2 _ (by omega) (hdeclared.tied hw)
      rw [hlength] at hmore
      exact ⟨htied, by simpa [Chain.isEmpty, Chain.blocks] using hmore⟩
    · rw [← hempty]
      have hnot : target.isEmpty = false := by rw [hempty]; rfl
      have hpos : 0 < target.blocks.length := by
        rw [hempty, Chain.blocks]
        exact Nat.succ_pos _
      obtain ⟨hgrown, hlength⟩ := hin.1 w hw
      have ha := attaches_connect hgrown.rooted (h := h) (c := w.nodes.length) (by omega)
        (by omega) name kind
      have hconnected := length_connect (w.grow target) h name kind w.nodes.length
      obtain ⟨htied, hmore⟩ := ih hin.2 _ (by omega) (ha.tied hgrown)
      rw [hnot]
      exact ⟨htied, by simp only [Bool.false_eq_true, if_false]; omega⟩

theorem ties (c : Chain) : Ties c := by
  induction c using Chain.inductionOn with
  | nil => exact fun w hw => ⟨hw, rfl⟩
  | cons b inputs next hin hnext =>
    intro w hw
    have hmade : Unmoved w (w.newBlock b).1 := by
      rw [newBlock_eq]
      exact (unmoved_make w _).add _
    have hone : (w.newBlock b).1.nodes.length = w.nodes.length + 1 := by
      simp [newBlock_eq, Workspace.make, Workspace.add]
    obtain ⟨hgrown, hlength⟩ := ties_inputs hin w.nodes.length _ (by omega) (hmade.tied hw)
    rw [grow, Chain.blocks, List.length_cons, List.length_append]
    rcases hempty : next with _ | ⟨b', inputs', next'⟩
    · exact ⟨hgrown, by simp [Chain.isEmpty, Chain.blocks]; omega⟩
    · rw [← hempty]
      have hnot : next.isEmpty = false := by rw [hempty]; rfl
      have hpos : 0 < next.blocks.length := by
        rw [hempty, Chain.blocks]
        exact Nat.succ_pos _
      obtain ⟨htied, hmore⟩ := hnext _ hgrown
      have ha := attaches_follow htied.rooted (h := w.nodes.length)
        (c := ((w.newBlock b).1.growInputs w.nodes.length inputs).nodes.length) (by omega)
        (by omega)
      simp only [hnot, Bool.false_eq_true, if_false]
      exact ⟨ha.tied htied, by rw [length_follow]; omega⟩

theorem tied_growAll (trees : List Chain) (w : Workspace) (hw : w.Tied) :
    (Document.growAll w trees).Tied := by
  induction trees generalizing w with
  | nil => exact hw
  | cons c rest ih => exact ih _ (ties c w hw).1

end Workspace

open Workspace

theorem Document.load_hung {d : Value} {w : Workspace} (h : Document.load d = .ok w) :
    w.Acyclic ∧ w.Hung := by
  obtain ⟨trees, seen, -, -, rfl⟩ := Document.load_ok h
  have hgrown : Document.growAll {} trees = ofNodes (forest 0 trees) := growAll_ofNodes [] trees
  have htied := tied_growAll trees {} tied_empty
  rw [hgrown] at htied
  exact ⟨acyclic_forest trees, htied, fun h n => placed_forest trees, List.nodup_range⟩

end BlockCode
