-- Edits of a workspace, one after the other. An edit either leaves every block where it is
-- attached, or it attaches one block. Then that block leaves its old place and stands in
-- the new one, and the block that stood there before stands nowhere.
import BlockCode.Proofs.Document.Growth
import BlockCode.Workspace.Access
import Mathlib.Data.List.Induction

namespace BlockCode

/-- What can be done to a workspace. Blocks are named by their places. -/
inductive Edit where
  /-- A block of the workspace is made. -/
  | newBlock (b : Block)
  /-- A block is made that belongs to no workspace. -/
  | make (b : Block)
  /-- A block that was made before is added to the workspace. -/
  | add (h : Nat)
  | declare (h : Nat) (name : Value) (kind : SlotKind)
  | connect (h : Nat) (name : Value) (kind : SlotKind) (child : Nat)
  | follow (h child : Nat)

namespace Edit

def run (w : Workspace) : Edit → Except Fault Workspace
  | newBlock b => .ok (w.newBlock b).1
  | make b => .ok (w.make b).1
  | add h => .ok (w.add h)
  | declare h name kind => w.declareAt h name kind
  | connect h name kind child => w.connectAt h name kind child
  | follow h child => .ok (w.follow h child)

/-- The blocks that the edit names were made before. -/
def Fits (w : Workspace) : Edit → Prop
  | newBlock _ => True
  | make _ => True
  | add h => h < w.nodes.length
  | declare h _ _ => h < w.nodes.length
  | connect h _ _ child => h < w.nodes.length ∧ child < w.nodes.length
  | follow h child => h < w.nodes.length ∧ child < w.nodes.length

instance decidableFits (w : Workspace) : (e : Edit) → Decidable (e.Fits w)
  | newBlock _ => .isTrue trivial
  | make _ => .isTrue trivial
  | add h => inferInstanceAs (Decidable (h < w.nodes.length))
  | declare h _ _ => inferInstanceAs (Decidable (h < w.nodes.length))
  | connect h _ _ child =>
    inferInstanceAs (Decidable (h < w.nodes.length ∧ child < w.nodes.length))
  | follow h child => inferInstanceAs (Decidable (h < w.nodes.length ∧ child < w.nodes.length))

/-- The workspace after an edit. One that is refused changes nothing. -/
def after (w : Workspace) (e : Edit) : Workspace :=
  match e.run w with
  | .ok w' => w'
  | .error _ => w

/-- The workspace that edits build, one after the other. -/
def build (edits : List Edit) : Workspace := edits.foldl after {}

/-- Every edit names blocks that are there, and is one that may be made, when its turn comes. -/
def AllowedFrom (may : Workspace → Edit → Prop) : Workspace → List Edit → Prop
  | _, [] => True
  | w, e :: rest => (e.Fits w ∧ may w e) ∧ AllowedFrom may (e.after w) rest

instance decidableAllowedFrom (may : Workspace → Edit → Prop) [∀ w e, Decidable (may w e)] :
    ∀ w edits, Decidable (AllowedFrom may w edits)
  | _, [] => .isTrue trivial
  | w, e :: rest =>
    have := decidableAllowedFrom may (e.after w) rest
    inferInstanceAs (Decidable ((e.Fits w ∧ may w e) ∧ AllowedFrom may (e.after w) rest))

/-- Edits that may be made one after the other, where nothing is there at first. -/
def Allowed (may : Workspace → Edit → Prop) (edits : List Edit) : Prop := AllowedFrom may {} edits

instance decidableAllowed (may : Workspace → Edit → Prop) [∀ w e, Decidable (may w e)]
    (edits : List Edit) : Decidable (Allowed may edits) := decidableAllowedFrom may {} edits

/-- The block that the edit attaches to another, behind that other. A name that cannot be
looked up is refused. -/
def link? : Edit → Option (Nat × Nat)
  | connect h name _ child => if name.isKey then some (h, child) else none
  | follow h child => some (h, child)
  | _ => none

/-- The block that the edit attaches. -/
def child? (e : Edit) : Option Nat := e.link?.map (·.2)

/-- The block that loses its place to the one that the edit attaches. -/
def displaced? (w : Workspace) : Edit → Option Nat
  | connect h name _ child =>
    if name.isKey then ((w.slot? h name).bind (·.target)).filter (· ≠ child) else none
  | follow h child => ((w.node? h).bind (·.next)).filter (· ≠ child)
  | _ => none

/-! ## Histories -/

theorem build_snoc (edits : List Edit) (e : Edit) :
    build (edits ++ [e]) = e.after (build edits) := by
  unfold build
  rw [List.foldl_append, List.foldl_cons, List.foldl_nil]

variable {may : Workspace → Edit → Prop} {edits : List Edit} {e : Edit}

theorem allowedFrom_append (w : Workspace) (edits more : List Edit) :
    AllowedFrom may w (edits ++ more) ↔
      AllowedFrom may w edits ∧ AllowedFrom may (edits.foldl after w) more := by
  induction edits generalizing w with
  | nil => simp [AllowedFrom]
  | cons e rest ih => simp [AllowedFrom, ih, and_assoc]

theorem allowed_snoc : Allowed may (edits ++ [e]) ↔
    Allowed may edits ∧ e.Fits (build edits) ∧ may (build edits) e := by
  unfold Allowed build
  rw [allowedFrom_append]
  simp [AllowedFrom]

/-- What holds of no edits, and is kept by every further edit that is allowed, holds of all
histories. -/
@[elab_as_elim]
theorem Allowed.induction {P : List Edit → Prop} (nil : P [])
    (snoc : ∀ edits e, Allowed may edits → P edits → e.Fits (build edits) → may (build edits) e →
      P (edits ++ [e]))
    (h : Allowed may edits) : P edits := by
  induction edits using List.reverseRecOn with
  | nil => exact nil
  | append_singleton edits e ih =>
    obtain ⟨hbefore, hfits, hmay⟩ := allowed_snoc.mp h
    exact snoc edits e hbefore (ih hbefore) hfits hmay

end Edit

/-! ## What hangs on a node -/

/-- The blocks that are plugged into the inputs, then the block that follows. -/
def Node.children (n : Node) : List Nat := n.slots.filterMap (·.target) ++ n.next.toList

namespace Workspace

variable {w : Workspace} {h p c x : Nat} {n : Node}

theorem children_eq (w : Workspace) (h : Nat) :
    w.children h = ((w.node? h).map Node.children).getD [] := by
  unfold children Node.children
  rcases w.node? h with _ | n
  · rfl
  · rfl

theorem parent?_eq (w : Workspace) (h : Nat) : w.parent? h = (w.node? h).bind (·.parent) := rfl

theorem node?_lt (hn : w.node? h = some n) : h < w.nodes.length :=
  (List.getElem?_eq_some_iff.mp hn).1

theorem exists_node (hh : h < w.nodes.length) : ∃ n, w.node? h = some n :=
  ⟨_, List.getElem?_eq_getElem hh⟩

theorem lt_of_parent (hp : w.parent? c = some p) : c < w.nodes.length := by
  rcases hn : w.node? c with _ | n
  · simp [parent?_eq, hn] at hp
  · exact node?_lt hn

theorem lt_of_mem_children (hc : c ∈ w.children h) : h < w.nodes.length := by
  rcases hn : w.node? h with _ | n
  · simp [children_eq, hn] at hc
  · exact node?_lt hn

theorem node?_update (w : Workspace) (h : Nat) (f : Node → Node) (p : Nat) :
    (w.update h f).node? p = (w.node? p).map fun n => if p = h then f n else n := by
  unfold update node?
  simp only [List.getElem?_modify]
  by_cases hp : h = p
  · simp [hp]
  · simp [hp, Ne.symm hp]

/-! ## One block leaves its place -/

end Workspace

/-- An input without the block. -/
def Slot.without (c : Nat) (s : Slot) : Slot := if s.target == some c then { s with target := none } else s

@[simp] theorem Slot.name_without (c : Nat) (s : Slot) : (s.without c).name = s.name := by
  unfold without
  split <;> rfl

theorem Slot.target_without (c : Nat) (s : Slot) :
    (s.without c).target = s.target.filter (· ≠ c) := by
  unfold without
  rcases ht : s.target with _ | t
  · simp [ht]
  · by_cases htc : t = c <;> simp [ht, htc, Option.filter_some]

namespace Workspace

variable {w : Workspace} {h p c x : Nat} {n : Node}

theorem release_eq (c : Nat) (n : Node) :
    release c n = { n with slots := n.slots.map (·.without c), next := n.next.filter (· ≠ c) } := by
  unfold release
  rcases hnext : n.next with _ | t
  · rfl
  · by_cases htc : t = c
    · simp [htc, Slot.without, Option.filter_some]
    · simp [htc, Slot.without, Option.filter_some]

theorem targets_without (c : Nat) (slots : List Slot) :
    (slots.map (·.without c)).filterMap (·.target) =
      (slots.filterMap (·.target)).filter (· ≠ c) := by
  rw [List.filterMap_map, List.filter_filterMap]
  congr 1
  funext s
  exact Slot.target_without c s

theorem children_release (c : Nat) (n : Node) :
    (release c n).children = n.children.filter (· ≠ c) := by
  rw [release_eq]
  unfold Node.children
  rw [List.filter_append, targets_without, Option.toList_filter]

/-- A node that does not hold the block stays as it is. -/
theorem release_of_not_mem (hc : c ∉ n.children) : release c n = n := by
  unfold Node.children at hc
  rw [List.mem_append, not_or, List.mem_filterMap, Option.mem_toList] at hc
  obtain ⟨hslots, hnext⟩ := hc
  have hmap : n.slots.map (·.without c) = n.slots := by
    rw [List.map_congr_left (g := id), List.map_id]
    intro s hs
    have hs' : s.target ≠ some c := fun h => hslots ⟨s, hs, h⟩
    simp [Slot.without, hs']
  have hfollower : n.next.filter (· ≠ c) = n.next := by
    rcases ht : n.next with _ | t
    · rfl
    · have htc : t ≠ c := fun h => hnext (by rw [ht, h])
      simp [htc, Option.filter_some]
  rw [release_eq, hmap, hfollower]

/-- A block that is taken out of its place is in no place any more, if its parent is the
only block that holds it. -/
theorem node?_detach (hs : ∀ p, c ∈ w.children p → w.parent? c = some p) (p : Nat) :
    (w.detach c).node? p = (w.node? p).map fun n =>
      { release c n with parent := if p = c then none else n.parent } := by
  have hkept : ∀ n, w.node? p = some n → w.parent? c ≠ some p → release c n = n := by
    intro n hn hne
    refine release_of_not_mem fun hc => hne (hs p ?_)
    rw [children_eq, hn]
    exact hc
  unfold detach
  rcases hparent : w.parent? c with _ | q
  · rcases hn : w.node? p with _ | n
    · simp
    · have hsame := hkept n hn (by simp [hparent])
      by_cases hpc : p = c
      · subst hpc
        rw [parent?_eq, hn, Option.bind_some] at hparent
        simp [hsame, ← hparent]
      · simp [hsame, hpc]
  · simp only
    rw [node?_update, node?_update]
    rcases hn : w.node? p with _ | n
    · rfl
    · simp only [Option.map_some]
      by_cases hpq : p = q
      · subst hpq
        by_cases hpc : p = c <;> simp [hpc, release]
      · have hsame := hkept n hn (by rw [hparent]; simpa using Ne.symm hpq)
        by_cases hpc : p = c <;> simp [hpq, hpc, hsame]

/-! ## One block takes its place -/

theorem node?_addSlot (w : Workspace) (h : Nat) (name : Value) (kind : SlotKind) (p : Nat) :
    (w.addSlot h name kind).node? p = (w.node? p).map fun n =>
      if p = h then { n with slots := declare n.slots name kind } else n := by
  unfold addSlot declare
  rw [node?_update]
  congr 1
  funext n
  split
  · split <;> rfl
  · rfl

theorem targets_declare (slots : List Slot) (name : Value) (kind : SlotKind) :
    (declare slots name kind).filterMap (·.target) = slots.filterMap (·.target) := by
  unfold declare
  split
  · rfl
  · simp

theorem children_addSlot (w : Workspace) (h : Nat) (name : Value) (kind : SlotKind) (p : Nat) :
    (w.addSlot h name kind).children p = w.children p := by
  rw [children_eq, children_eq, node?_addSlot]
  rcases w.node? p with _ | n
  · rfl
  · by_cases hp : p = h
    · simp [hp, Node.children, targets_declare]
    · simp [hp]

theorem parent?_addSlot (w : Workspace) (h : Nat) (name : Value) (kind : SlotKind) (x : Nat) :
    (w.addSlot h name kind).parent? x = w.parent? x := by
  rw [parent?_eq, parent?_eq, node?_addSlot]
  rcases w.node? x with _ | n
  · rfl
  · by_cases hx : x = h <;> simp [hx]

/-- To declare an input makes no difference to those that are emptied. -/
theorem declare_without (slots : List Slot) (name : Value) (kind : SlotKind) (c : Nat) :
    (declare slots name kind).map (·.without c) = declare (slots.map (·.without c)) name kind := by
  unfold declare
  have hany : (slots.map (·.without c)).any (·.name.same name) = slots.any (·.name.same name) := by
    rw [List.any_map]
    congr 1
    funext s
    simp
  rw [hany]
  split
  · rfl
  · simp [Slot.without]

/-- The node of a block when one block has been taken out of all inputs and plugged into the
input of the block `h`. -/
theorem node?_connect (hs : ∀ p, c ∈ w.children p → w.parent? c = some p) (h : Nat) (name : Value)
    (kind : SlotKind) (p : Nat) :
    (w.connect h name kind c).node? p = (w.node? p).map fun n =>
      { release c n with
        slots := if p = h then plugInto name c (declare (n.slots.map (·.without c)) name kind)
          else n.slots.map (·.without c)
        parent := if p = c then some h else n.parent } := by
  have hs' : ∀ q, c ∈ (w.addSlot h name kind).children q →
      (w.addSlot h name kind).parent? c = some q := by
    intro q hq
    rw [children_addSlot] at hq
    rw [parent?_addSlot]
    exact hs q hq
  unfold connect
  simp only
  rw [node?_update, node?_update, node?_detach hs', node?_addSlot]
  rcases w.node? p with _ | n
  · rfl
  · by_cases hph : p = h
    · subst hph
      by_cases hpc : p = c <;> simp [hpc, release_eq, declare_without]
    · by_cases hpc : p = c
      · subst hpc
        simp [hph, release_eq]
      · simp [hph, hpc, release_eq]

theorem node?_follow (hs : ∀ p, c ∈ w.children p → w.parent? c = some p) (h p : Nat) :
    (w.follow h c).node? p = (w.node? p).map fun n =>
      { release c n with
        next := if p = h then some c else (release c n).next
        parent := if p = c then some h else n.parent } := by
  unfold follow
  simp only
  rw [node?_update, node?_update, node?_detach hs]
  rcases w.node? p with _ | n
  · rfl
  · by_cases hph : p = h
    · subst hph
      by_cases hpc : p = c <;> simp [hpc]
    · by_cases hpc : p = c
      · subst hpc
        simp [hph]
      · simp [hph, hpc]

/-- Of the blocks that are plugged in, the one in the input of this name gives its place. -/
theorem targets_plugInto (slots : List Slot) (name : Value) (kind : SlotKind) (c : Nat) :
    ∃ left right,
      slots.filterMap (·.target) =
        left ++ ((slots.find? (·.name.same name)).bind (·.target)).toList ++ right ∧
      (plugInto name c (declare slots name kind)).filterMap (·.target) = left ++ c :: right := by
  induction slots with
  | nil => exact ⟨[], [], rfl, by simp [declare, plugInto, Value.same_self]⟩
  | cons s rest ih =>
    by_cases hname : s.name.same name = true
    · refine ⟨[], rest.filterMap (·.target), ?_, ?_⟩
      · rcases ht : s.target with _ | t <;> simp [ht, hname]
      · simp [declare, plugInto, hname]
    · obtain ⟨left, right, hbefore, hafter⟩ := ih
      have hdeclare : declare (s :: rest) name kind = s :: declare rest name kind := by
        unfold declare
        rw [List.any_cons, Bool.eq_false_iff.mpr hname, Bool.false_or]
        split <;> rfl
      refine ⟨s.target.toList ++ left, right, ?_, ?_⟩
      · rcases ht : s.target with _ | t <;> simp [ht, hname, hbefore]
      · rw [hdeclare, plugInto, if_neg hname, List.append_assoc, ← hafter]
        rcases ht : s.target with _ | t <;> simp [ht]

end Workspace
end BlockCode
