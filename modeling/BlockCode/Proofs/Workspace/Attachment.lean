-- Where blocks are attached. In every workspace that edits build, whatever they connect, a
-- block that hangs on another has it for its parent, and it hangs in one place only.
import BlockCode.Proofs.Workspace.Edits
import Mathlib.Data.List.Nodup

namespace BlockCode

namespace Workspace

/-- What holds of a node of every workspace that is built: its block knows its place, and no
two inputs have one name. Each name can be looked up. -/
structure Orderly (h : Nat) (n : Node) : Prop where
  placed : n.block.handle = h
  apart : (n.slots.map (·.name)).Pairwise fun a b => a.same b = false
  keyed : ∀ name ∈ n.slots.map (·.name), name.isKey = true

/-- A block that hangs on another has it for its parent. -/
def Rooted (w : Workspace) : Prop := ∀ p c, c ∈ w.children p → w.parent? c = some p

/-- What holds of every workspace that is built. -/
structure Sound (w : Workspace) : Prop where
  rooted : w.Rooted
  /-- No block hangs twice on another. -/
  once : ∀ p, (w.children p).Nodup
  orderly : ∀ h n, w.node? h = some n → Orderly h n

theorem Sound.placed {w : Workspace} (hs : w.Sound) (h : Nat) (n : Node) (hn : w.node? h = some n) :
    n.block.handle = h := (hs.orderly h n hn).placed

/-- Every block is attached where it was. -/
structure Unmoved (w w' : Workspace) : Prop where
  children : ∀ p, w'.children p = w.children p
  parent : ∀ x, w'.parent? x = w.parent? x

/-- The block `c` has been attached to the block `h`. It has left its old place, and so has
the block `d` that stood in its new one, if there was any. -/
structure Attaches (w w' : Workspace) (h c : Nat) (d : Option Nat) : Prop where
  parent : ∀ x, w'.parent? x = if x = c then some h else w.parent? x
  here : ∃ left right, (w.children h).filter (· ≠ c) = left ++ d.toList ++ right ∧
    w'.children h = left ++ c :: right
  elsewhere : ∀ p, p ≠ h → w'.children p = (w.children p).filter (· ≠ c)

variable {w w' : Workspace} {h p c x : Nat} {d : Option Nat}

/-! ## What hangs where -/

theorem Attaches.child (ha : Attaches w w' h c d) : c ∈ w'.children h := by
  obtain ⟨left, right, -, hafter⟩ := ha.here
  simp [hafter]

/-- What hangs on a block has just been attached, or hung there before. -/
theorem Attaches.mem_children (ha : Attaches w w' h c d) (hx : x ∈ w'.children p) :
    (p = h ∧ x = c) ∨ (x ∈ w.children p ∧ x ≠ c) := by
  by_cases hp : p = h
  · subst hp
    obtain ⟨left, right, hbefore, hafter⟩ := ha.here
    by_cases hxc : x = c
    · exact Or.inl ⟨rfl, hxc⟩
    · have hold : x ∈ (w.children p).filter (· ≠ c) := by
        rw [hbefore]
        rw [hafter] at hx
        simp only [List.mem_append, List.mem_cons, hxc, false_or] at hx ⊢
        rcases hx with hx | hx
        · exact Or.inl (Or.inl hx)
        · exact Or.inr hx
      exact Or.inr ⟨(List.mem_filter.mp hold).1, hxc⟩
  · rw [ha.elsewhere p hp, List.mem_filter] at hx
    exact Or.inr ⟨hx.1, by simpa using hx.2⟩

theorem Unmoved.rooted (hu : Unmoved w w') (hs : w.Rooted) : w'.Rooted := by
  intro p c hc
  rw [hu.children] at hc
  rw [hu.parent]
  exact hs p c hc

theorem Attaches.rooted (ha : Attaches w w' h c d) (hs : w.Rooted) : w'.Rooted := by
  intro p x hx
  rw [ha.parent]
  rcases ha.mem_children hx with ⟨rfl, rfl⟩ | ⟨hold, hne⟩
  · rw [if_pos rfl]
  · rw [if_neg hne]
    exact hs p x hold

theorem Attaches.once (ha : Attaches w w' h c d) (hs : ∀ p, (w.children p).Nodup) :
    ∀ p, (w'.children p).Nodup := by
  intro p
  by_cases hp : p = h
  · subst hp
    obtain ⟨left, right, hbefore, hafter⟩ := ha.here
    have hnodup : ((w.children p).filter (· ≠ c)).Nodup := (hs p).filter _
    have hnot : c ∉ left ++ right := by
      intro hc
      have hmem : c ∈ (w.children p).filter (· ≠ c) := by
        rw [hbefore]
        rcases List.mem_append.mp hc with hc | hc
        · exact List.mem_append_left _ (List.mem_append_left _ hc)
        · exact List.mem_append_right _ hc
      simp at hmem
    have hothers : (left ++ right).Nodup := by
      rw [hbefore, List.append_assoc] at hnodup
      exact hnodup.sublist ((List.sublist_append_right _ _).append_left left)
    rw [hafter, List.perm_middle.nodup_iff]
    exact List.nodup_cons.mpr ⟨hnot, hothers⟩
  · rw [ha.elsewhere p hp]
    exact (hs p).filter _

/-! ## What each edit does -/

theorem node?_make (w : Workspace) (b : Block) (p : Nat) :
    (w.make b).1.node? p =
      if p = w.nodes.length then some { block := { b with handle := w.nodes.length } }
      else w.node? p := by
  unfold make node?
  simp only [List.getElem?_append, List.getElem?_singleton]
  by_cases hp : p = w.nodes.length
  · simp [hp]
  · by_cases hlt : p < w.nodes.length
    · simp [hp, hlt]
    · rw [List.getElem?_eq_none (Nat.le_of_not_lt hlt)]
      simp only [hlt, hp, if_false]
      rw [if_neg (by omega)]

theorem newBlock_eq (w : Workspace) (b : Block) :
    (w.newBlock b).1 =
      (w.make { b with id := if b.id.isNull then w.nextId else b.id }).1.add w.nodes.length := by
  unfold newBlock
  rfl

/-- To add a block to the workspace moves nothing. -/
theorem Unmoved.add (hu : Unmoved w w') (h : Nat) : Unmoved w (w'.add h) := ⟨hu.children, hu.parent⟩

/-- Nothing hangs on a new block, and it hangs on none. -/
theorem unmoved_make (w : Workspace) (b : Block) : Unmoved w (w.make b).1 := by
  have hnone : w.node? w.nodes.length = none := by
    unfold node?
    simp
  constructor
  · intro p
    rw [children_eq, children_eq, node?_make]
    by_cases hp : p = w.nodes.length
    · simp [hp, hnone, Node.children]
    · simp [hp]
  · intro x
    rw [parent?_eq, parent?_eq, node?_make]
    by_cases hx : x = w.nodes.length
    · simp [hx, hnone]
    · simp [hx]

/-- A block is attached when the nodes say so: it gets its parent, and the others let it go. -/
theorem attaches_of_nodes {f : Nat → Node → Node}
    (hnode : ∀ p, w'.node? p = (w.node? p).map (f p)) (hc : c < w.nodes.length)
    (hparent : ∀ p n, (f p n).parent = if p = c then some h else n.parent)
    (hothers : ∀ p n, p ≠ h → (f p n).children = n.children.filter (· ≠ c))
    (hhere : ∃ left right, (w.children h).filter (· ≠ c) = left ++ d.toList ++ right ∧
      w'.children h = left ++ c :: right) : Attaches w w' h c d where
  parent := by
    intro x
    obtain ⟨m, hm⟩ := exists_node hc
    rw [parent?_eq, parent?_eq, hnode]
    by_cases hx : x = c
    · simp [hx, hm, hparent]
    · rcases w.node? x with _ | n <;> simp [hx, hparent]
  here := hhere
  elsewhere := by
    intro p hp
    rw [children_eq, children_eq, hnode]
    rcases w.node? p with _ | n
    · rfl
    · exact hothers p n hp

theorem attaches_connect (hs : w.Rooted)
    (hh : h < w.nodes.length) (hc : c < w.nodes.length) (name : Value) (kind : SlotKind) :
    Attaches w (w.connect h name kind c) h c
      (((w.slot? h name).bind (·.target)).filter (· ≠ c)) := by
  have hnode := node?_connect (fun p => hs p c) h name kind
  obtain ⟨n, hn⟩ := exists_node hh
  refine attaches_of_nodes hnode hc (fun _ _ => rfl) (fun p l hp => ?_) ?_
  · rw [if_neg hp, ← children_release, release_eq]
    rfl
  -- The input is found by its name also when the child has been taken out.
  have hfind : ((n.slots.map (·.without c)).find? (·.name.same name)).bind (·.target) =
      ((w.slot? h name).bind (·.target)).filter (· ≠ c) := by
    unfold slot? slots
    rw [hn, List.find?_map]
    simp only [Option.map_some, Option.getD_some, Function.comp_def, Slot.name_without]
    generalize n.slots.find? (·.name.same name) = found
    cases found with
    | none => rfl
    | some s => exact Slot.target_without c s
  obtain ⟨left, right, hbefore, hafter⟩ :=
    targets_plugInto (n.slots.map (·.without c)) name kind c
  refine ⟨left, right ++ (n.next.filter (· ≠ c)).toList, ?_, ?_⟩
  · rw [children_eq, hn, Option.map_some, Option.getD_some, Node.children, List.filter_append,
      ← targets_without, hbefore, hfind, List.append_assoc _ right]
    rw [Option.toList_filter (o := n.next)]
  · rw [children_eq, hnode, hn]
    simp only [Option.map_some, Option.getD_some, if_true, Node.children, release_eq, hafter,
      List.append_assoc, List.cons_append]

theorem attaches_follow (hs : w.Rooted)
    (hh : h < w.nodes.length) (hc : c < w.nodes.length) :
    Attaches w (w.follow h c) h c (((w.node? h).bind (·.next)).filter (· ≠ c)) := by
  have hnode := node?_follow (fun p => hs p c) h
  obtain ⟨n, hn⟩ := exists_node hh
  refine attaches_of_nodes hnode hc (fun _ _ => rfl) (fun p l hp => ?_) ?_
  · rw [if_neg hp]
    exact children_release c l
  refine ⟨(n.slots.filterMap (·.target)).filter (· ≠ c), [], ?_, ?_⟩
  · rw [children_eq, hn, Option.map_some, Option.getD_some, Node.children, List.filter_append,
      Option.bind_some, Option.toList_filter, List.append_nil]
  · rw [children_eq, hnode, hn, ← targets_without]
    simp only [Option.map_some, Option.getD_some, if_true, Node.children, release_eq,
      Option.toList_some]

end Workspace

open Workspace

namespace Edit

variable {w : Workspace}

theorem after_declare (w : Workspace) (h : Nat) (name : Value) (kind : SlotKind) :
    (declare h name kind).after w = if name.isKey then w.addSlot h name kind else w := by
  unfold after run declareAt Value.asKey
  by_cases hkey : name.isKey = true
  · simp only [hkey, if_true]
    rfl
  · simp only [Bool.eq_false_iff.mpr hkey, Bool.false_eq_true, if_false]
    rfl

theorem after_connect (w : Workspace) (h : Nat) (name : Value) (kind : SlotKind) (child : Nat) :
    (connect h name kind child).after w =
      if name.isKey then w.connect h name kind child else w := by
  unfold after run connectAt Value.asKey
  by_cases hkey : name.isKey = true
  · simp only [hkey, if_true]
    rfl
  · simp only [Bool.eq_false_iff.mpr hkey, Bool.false_eq_true, if_false]
    rfl

theorem after_newBlock (w : Workspace) (b : Block) : (newBlock b).after w = (w.newBlock b).1 := rfl

theorem after_follow (w : Workspace) (h child : Nat) : (follow h child).after w = w.follow h child := rfl

/-- An edit attaches one block, or none. -/
theorem after_cases {e : Edit} (hs : w.Rooted) (hfits : e.Fits w) :
    (e.link? = none ∧ e.displaced? w = none ∧ Unmoved w (e.after w)) ∨
      ∃ h c, e.link? = some (h, c) ∧ Attaches w (e.after w) h c (e.displaced? w) := by
  have hidle : Unmoved w w := ⟨fun _ => rfl, fun _ => rfl⟩
  cases e with
  | newBlock b =>
    refine Or.inl ⟨rfl, rfl, ?_⟩
    rw [after_newBlock, newBlock_eq]
    exact (unmoved_make w _).add _
  | make b => exact Or.inl ⟨rfl, rfl, unmoved_make w b⟩
  | add h => exact Or.inl ⟨rfl, rfl, hidle.add h⟩
  | declare h name kind =>
    refine Or.inl ⟨rfl, rfl, ?_⟩
    rw [after_declare]
    split
    · exact ⟨children_addSlot w h name kind, parent?_addSlot w h name kind⟩
    · exact hidle
  | connect h name kind child =>
    rw [after_connect]
    simp only [link?, displaced?]
    split
    · exact Or.inr ⟨h, child, rfl, attaches_connect hs hfits.1 hfits.2 name kind⟩
    · exact Or.inl ⟨rfl, rfl, hidle⟩
  | follow h child => exact Or.inr ⟨h, child, rfl, attaches_follow hs hfits.1 hfits.2⟩

/-! ## Nodes stay in order -/

theorem names_plugInto (name : Value) (child : Nat) (slots : List Slot) :
    (plugInto name child slots).map (·.name) = slots.map (·.name) := by
  induction slots with
  | nil => rfl
  | cons s rest ih =>
    unfold plugInto
    split
    · rfl
    · simp [ih]

theorem apart_declare {slots : List Slot} {name : Value} {kind : SlotKind}
    (h : (slots.map (·.name)).Pairwise fun a b => a.same b = false) :
    ((Workspace.declare slots name kind).map (·.name)).Pairwise fun a b => a.same b = false := by
  unfold Workspace.declare
  split
  · exact h
  · rename_i hany
    rw [Bool.not_eq_true, List.any_eq_false] at hany
    rw [List.map_append]
    refine List.pairwise_append.mpr ⟨h, List.pairwise_singleton _ _, ?_⟩
    intro a ha b hb
    obtain ⟨s, hs, rfl⟩ := List.mem_map.mp ha
    rw [List.map_singleton, List.mem_singleton] at hb
    rw [hb]
    simpa using hany s hs

theorem keyed_declare {slots : List Slot} {name : Value} (kind : SlotKind)
    (h : ∀ other ∈ slots.map (·.name), other.isKey = true) (hname : name.isKey = true) :
    ∀ other ∈ (Workspace.declare slots name kind).map (·.name), other.isKey = true := by
  unfold Workspace.declare
  intro other hother
  split at hother
  · exact h other hother
  · rw [List.map_append, List.mem_append, List.map_singleton, List.mem_singleton] at hother
    rcases hother with hother | rfl
    · exact h other hother
    · exact hname

theorem names_without (c : Nat) (slots : List Slot) :
    (slots.map (·.without c)).map (·.name) = slots.map (·.name) := by
  rw [List.map_map]
  congr 1
  funext s
  exact Slot.name_without c s

/-- Only the place of the block and the names of the inputs matter. -/
theorem orderly_of_names {h : Nat} {n m : Node} (ho : Orderly h n)
    (hplace : m.block.handle = n.block.handle)
    (hnames : m.slots.map (·.name) = n.slots.map (·.name)) : Orderly h m where
  placed := hplace.trans ho.placed
  apart := by
    rw [hnames]
    exact ho.apart
  keyed := by
    rw [hnames]
    exact ho.keyed

theorem orderly_declare {h : Nat} {n : Node} {name : Value} (ho : Orderly h n) (kind : SlotKind)
    (hname : name.isKey = true) :
    Orderly h { n with slots := Workspace.declare n.slots name kind } :=
  ⟨ho.placed, apart_declare ho.apart, keyed_declare kind ho.keyed hname⟩

/-- A new node is in order. -/
theorem orderly_make (ho : ∀ h n, w.node? h = some n → Orderly h n) (b : Block) :
    ∀ h n, (w.make b).1.node? h = some n → Orderly h n := by
  intro h n hn
  rw [node?_make] at hn
  split at hn
  · rename_i hh
    cases hn
    exact ⟨hh.symm, List.Pairwise.nil, nofun⟩
  · exact ho h n hn

/-- Each edit keeps the order of all nodes. -/
theorem orderly_after {e : Edit} (hs : w.Rooted)
    (ho : ∀ h n, w.node? h = some n → Orderly h n) :
    ∀ h n, (e.after w).node? h = some n → Orderly h n := by
  cases e with
  | newBlock b =>
    intro h n hn
    rw [after_newBlock, newBlock_eq] at hn
    exact orderly_make ho _ h n hn
  | make b => exact orderly_make ho b
  | add h => exact ho
  | declare h name kind =>
    intro p n hn
    rw [after_declare] at hn
    split at hn
    · rename_i hname
      rw [node?_addSlot, Option.map_eq_some_iff] at hn
      obtain ⟨m, hm, rfl⟩ := hn
      split
      · exact orderly_declare (ho p m hm) kind hname
      · exact ho p m hm
    · exact ho p n hn
  | connect h name kind child =>
    intro p n hn
    rw [after_connect] at hn
    split at hn
    · rename_i hname
      rw [node?_connect (fun p => hs p child), Option.map_eq_some_iff] at hn
      obtain ⟨m, hm, rfl⟩ := hn
      by_cases hp : p = h
      · refine orderly_of_names (orderly_declare (ho p m hm) kind hname) rfl ?_
        simp only [hp, if_true]
        rw [names_plugInto, ← declare_without, names_without]
      · refine orderly_of_names (ho p m hm) rfl ?_
        simp only [hp, if_false]
        exact names_without child m.slots
    · exact ho p n hn
  | follow h child =>
    intro p n hn
    rw [after_follow, node?_follow (fun p => hs p child), Option.map_eq_some_iff] at hn
    obtain ⟨m, hm, rfl⟩ := hn
    refine orderly_of_names (ho p m hm) rfl ?_
    rw [release_eq]
    exact names_without child m.slots

/-! ## Every history -/

theorem sound_empty : Sound {} where
  rooted := fun _ _ hc => absurd hc List.not_mem_nil
  once := fun _ => List.nodup_nil
  orderly := fun _ _ hn => by simp [node?] at hn

theorem sound_after {e : Edit} (hs : w.Sound) (hfits : e.Fits w) : (e.after w).Sound := by
  have horderly := orderly_after (e := e) hs.rooted hs.orderly
  rcases after_cases hs.rooted hfits with ⟨-, -, hu⟩ | ⟨h, c, -, ha⟩
  · exact ⟨hu.rooted hs.rooted, fun p => by rw [hu.children]; exact hs.once p, horderly⟩
  · exact ⟨ha.rooted hs.rooted, ha.once hs.once, horderly⟩

theorem sound_build {may : Workspace → Edit → Prop} {edits : List Edit} (h : Allowed may edits) :
    (build edits).Sound := by
  refine Allowed.induction sound_empty ?_ h
  intro edits e _ ih hfits _
  rw [build_snoc]
  exact sound_after ih hfits

/-- Whatever is connected to whatever, all that is plugged into a block or follows it has
that block for its parent, and of all places in all blocks no two hold the same block. What is
attached next hangs where it is attached. -/
theorem one_place_for_every_block {edits : List Edit} (h : Allowed (fun _ _ => True) edits) :
    (∀ p n, (build edits).node? p = some n → ∀ c,
      (∃ s ∈ n.slots, s.target = some c) ∨ n.next = some c → (build edits).parent? c = some p) ∧
    ((List.range (build edits).nodes.length).flatMap (build edits).children).Nodup ∧
    ∀ (e : Edit) p c, e.Fits (build edits) → e.link? = some (p, c) →
      c ∈ (e.after (build edits)).children p := by
  have hs := sound_build h
  generalize build edits = w at hs
  refine ⟨?_, ?_, ?_⟩
  · intro p n hn c hc
    refine hs.rooted p c ?_
    rw [children_eq, hn, Option.map_some, Option.getD_some, Node.children, List.mem_append,
      List.mem_filterMap, Option.mem_toList]
    exact hc
  · rw [List.nodup_flatMap]
    refine ⟨fun p _ => hs.once p, ?_⟩
    refine List.nodup_range.imp ?_
    intro p q hpq c hp hq
    have := hs.rooted q c hq
    rw [hs.rooted p c hp, Option.some.injEq] at this
    exact hpq this
  · intro e p c hfits hlink
    rcases after_cases hs.rooted hfits with ⟨hnone, -, -⟩ | ⟨p', c', hlink', ha⟩
    · rw [hnone] at hlink
      cases hlink
    · rw [hlink', Option.some.injEq, Prod.mk.injEq] at hlink
      obtain ⟨rfl, rfl⟩ := hlink
      exact ha.child

/-- Three blocks, of which the third is none of the workspace: it takes the place of the
second, then it follows itself, and then the first follows the second. -/
def tangled : List Edit :=
  [newBlock { type := .str "a" }, newBlock { type := .str "b" }, make { type := .str "c" },
    connect 0 (.str "A") .value 1, connect 0 (.str "A") .statement 2, follow 2 2, follow 1 0]

/-- The second block has no place any more, and the others have one each. -/
theorem tangled_in_one_place :
    Allowed (fun _ _ => True) tangled ∧
      (List.range 3).map (build tangled).children = [[], [0], [2]] ∧
      (List.range 3).map (build tangled).parent? = [some 1, some 0, some 2] ∧
      (build tangled).parent? 0 = some 1 ∧
      ((List.range (build tangled).nodes.length).flatMap (build tangled).children).Nodup ∧
      1 ∈ ((follow 0 1).after (build tangled)).children 0 := by
  have hallowed : Allowed (fun _ _ => True) tangled := by decide
  obtain ⟨hparent, honce, hnext⟩ := one_place_for_every_block hallowed
  exact ⟨hallowed, by decide, by decide, hparent 1 _ rfl 0 (Or.inr rfl), honce,
    hnext (follow 0 1) 0 1 (by decide) rfl⟩

end Edit
end BlockCode
