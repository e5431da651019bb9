-- The search through all that hangs on a block, by itself: a block, then all that hangs on the
-- first of its children, then all that hangs on the second, and so on. Nothing in it counts steps.
-- As long as no block is attached to itself or below itself, it ends, and the blocks come in the
-- order of the tree.
import BlockCode.Proofs.Workspace.Lost

namespace BlockCode

namespace Workspace

open Relation

mutual
/-- A search that starts at the block ends with the list. -/
inductive Walks (w : Workspace) : Nat → List Nat → Prop
  | block {h : Nat} {below : List Nat} : WalksAll w (w.children h) below → Walks w h (h :: below)

/-- The searches that start at the blocks, one after the other, end with the list. -/
inductive WalksAll (w : Workspace) : List Nat → List Nat → Prop
  | nil : WalksAll w [] []
  | cons {c : Nat} {rest first more : List Nat} :
      Walks w c first → WalksAll w rest more → WalksAll w (c :: rest) (first ++ more)
end

variable {w : Workspace} {h a b c x : Nat}

/-! ## The search ends -/

mutual
/-- A search has one end at most. -/
theorem Walks.unique {start : Nat} {l l' : List Nat} :
    w.Walks start l → w.Walks start l' → l = l'
  | .block hbelow, .block hbelow' => by rw [hbelow.unique hbelow']

theorem WalksAll.unique {starts l l' : List Nat} :
    w.WalksAll starts l → w.WalksAll starts l' → l = l'
  | .nil, .nil => rfl
  | .cons hfirst hmore, .cons hfirst' hmore' => by
    rw [hfirst.unique hfirst', hmore.unique hmore']
end

theorem walksAll_of_forall {starts : List Nat} {f : Nat → List Nat}
    (h : ∀ c ∈ starts, w.Walks c (f c)) : w.WalksAll starts (starts.flatMap f) := by
  induction starts with
  | nil => exact .nil
  | cons c rest ih =>
    obtain ⟨hfirst, hrest⟩ := List.forall_mem_cons.mp h
    rw [List.flatMap_cons]
    exact .cons hfirst (ih hrest)

/-- Without cycles every search ends, with the descendants. -/
theorem Acyclic.walks (hac : w.Acyclic) (hs : w.Sound) (hh : h < w.nodes.length) :
    w.Walks h (w.descendants h) := by
  refine hac.induction (P := fun h => h < w.nodes.length → w.Walks h (w.descendants h)) ?_ h hh
  intro h ih hh
  rw [hac.descendants_eq hs hh]
  apply Walks.block
  apply walksAll_of_forall
  intro c hc
  exact ih c hc (hs.rooted.child_lt hc)

theorem Acyclic.walks_iff (hac : w.Acyclic) (hs : w.Sound) (hh : h < w.nodes.length)
    (l : List Nat) : w.Walks h l ↔ l = w.descendants h := by
  constructor
  · intro hwalk
    exact hwalk.unique (hac.walks hs hh)
  · rintro rfl
    exact hac.walks hs hh

/-! ## The order of the blocks -/

/-- Of two blocks, the one that the other can be reached from comes first. -/
theorem Acyclic.pairwise_descendants (hac : w.Acyclic) (hs : w.Sound) (h : Nat) :
    (w.descendants h).Pairwise fun x y => ¬ w.Reaches y x := by
  refine hac.induction ?_ h
  intro h ih
  by_cases hh : h < w.nodes.length
  · have hreach : ∀ c ∈ w.children h, ∀ x ∈ w.descendants c, w.Reaches c x := by
      intro c hc x hx
      exact (hac.mem_descendants hs (hs.rooted.child_lt hc)).mp hx
    rw [hac.descendants_eq hs hh, List.pairwise_cons, List.pairwise_flatMap]
    refine ⟨?_, ih, (hs.once h).imp_of_mem ?_⟩
    · intro y hy hback
      obtain ⟨c, hc, hcy⟩ := List.mem_flatMap.mp hy
      exact hac h (TransGen.head' hc ((hreach c hc y hcy).trans hback))
    · intro c d hc hd hne x hx y hy hback
      apply hne
      exact hac.eq_of_siblings hs.rooted hc hd (hreach c hc x hx) ((hreach d hd y hy).trans hback)
  · rw [descendants_of_not_lt hh]
    exact List.Pairwise.nil

/-- All that hangs on a block comes right behind it. -/
theorem Acyclic.infix_descendants (hac : w.Acyclic) (hs : w.Sound) (hh : h < w.nodes.length)
    (hx : w.Reaches h x) : w.descendants x <:+: w.descendants h := by
  induction hx using ReflTransGen.head_induction_on with
  | refl => exact List.infix_rfl
  | head hc _ ih =>
    apply (ih (hs.rooted.child_lt hc)).trans
    rw [hac.descendants_eq hs hh]
    apply List.infix_cons
    exact List.infix_of_mem_flatten (List.mem_map_of_mem hc)

/-- Two searches have nothing in common, or one of them goes through the start of the other. -/
theorem Acyclic.disjoint_or_mem (hac : w.Acyclic) (hs : w.Sound) (ha : a < w.nodes.length)
    (hb : b < w.nodes.length) :
    (w.descendants a).Disjoint (w.descendants b) ∨ b ∈ w.descendants a ∨ a ∈ w.descendants b := by
  by_cases hcommon : ∃ x, w.Reaches a x ∧ w.Reaches b x
  · obtain ⟨x, hax, hbx⟩ := hcommon
    rcases hs.rooted.reaches_total hax hbx with hab | hba
    · exact Or.inr (Or.inl ((hac.mem_descendants hs ha).mpr hab))
    · exact Or.inr (Or.inr ((hac.mem_descendants hs hb).mpr hba))
  · left
    intro x hxa hxb
    apply hcommon
    exact ⟨x, (hac.mem_descendants hs ha).mp hxa, (hac.mem_descendants hs hb).mp hxb⟩

/-- The names of the inputs of a block, in their order. -/
def slotNames (w : Workspace) (h : Nat) : List Value := (w.slots h).map (·.name)

theorem slotNames_eq (w : Workspace) (h : Nat) :
    w.slotNames h = ((w.node? h).map fun n => n.slots.map (·.name)).getD [] := by
  unfold slotNames slots
  rcases w.node? h with _ | n
  · rfl
  · rfl

theorem children_of_slots (w : Workspace) (h : Nat) :
    w.children h =
      (w.slots h).filterMap (·.target) ++ ((w.node? h).bind (·.next)).toList := by
  unfold children slots
  rcases w.node? h with _ | n
  · rfl
  · rfl

end Workspace

open Workspace

namespace Edit

variable {w : Workspace} {edits : List Edit} {e : Edit}

/-! ## The order of inputs -/

/-- The input of the block that the edit declares, if it is not there. -/
def input? (h : Nat) : Edit → Option Value
  | declare p name _ => if p = h ∧ name.isKey = true then some name else none
  | connect p name _ _ => if p = h ∧ name.isKey = true then some name else none
  | _ => none

/-- The names with one more, if it is none of them. -/
def withName (names : List Value) (name : Value) : List Value :=
  if names.any (·.same name) then names else names ++ [name]

/-- The inputs that the edits declare for a block, each where it was declared first. -/
def inputsOf (h : Nat) (edits : List Edit) : List Value :=
  (edits.filterMap (input? h)).foldl withName []

theorem names_declare (slots : List Slot) (name : Value) (kind : SlotKind) :
    (Workspace.declare slots name kind).map (·.name) = withName (slots.map (·.name)) name := by
  unfold Workspace.declare withName
  rw [List.any_map, apply_ite (List.map _), List.map_append]
  rfl

theorem slotNames_make (w : Workspace) (b : Block) (h : Nat) :
    (w.make b).1.slotNames h = w.slotNames h := by
  rw [slotNames_eq, slotNames_eq, node?_make]
  by_cases hnew : h = w.nodes.length
  · have hnone : w.node? w.nodes.length = none := by simp [node?]
    rw [if_pos hnew, hnew, hnone]
    rfl
  · rw [if_neg hnew]

/-- An edit declares one input, or none. -/
theorem slotNames_after (hs : w.Rooted) (hfits : e.Fits w) (h : Nat) :
    (e.after w).slotNames h = (e.input? h).toList.foldl withName (w.slotNames h) := by
  cases e with
  | newBlock b => exact slotNames_make w _ h
  | make b => exact slotNames_make w b h
  | add p => rfl
  | declare p name kind =>
    obtain ⟨n, hn⟩ := exists_node hfits
    rw [after_declare]
    by_cases hkey : name.isKey = true
    · rw [if_pos hkey, slotNames_eq, slotNames_eq, node?_addSlot]
      by_cases hp : p = h
      · subst hp
        simp [hn, input?, hkey, names_declare]
      · simp [input?, hp, Ne.symm hp]
    · simp [input?, hkey]
  | connect p name kind child =>
    obtain ⟨n, hn⟩ := exists_node hfits.1
    rw [after_connect]
    by_cases hkey : name.isKey = true
    · rw [if_pos hkey, slotNames_eq, slotNames_eq, node?_connect fun q => hs q child]
      by_cases hp : p = h
      · subst hp
        simp only [hn, input?, hkey, if_true, and_self, Option.map_some, Option.getD_some,
          names_plugInto, names_declare, names_without]
        rfl
      · rcases w.node? h with _ | n
        · simp [input?, hp]
        · simp only [input?, hp, Ne.symm hp, if_false, false_and, Option.map_some,
            Option.getD_some, names_without]
          rfl
    · simp [input?, hkey]
  | follow p child =>
    rw [after_follow, slotNames_eq, slotNames_eq, node?_follow fun q => hs q child]
    rcases w.node? h with _ | n
    · rfl
    · simp [release_eq, input?]

theorem slotNames_build {may : Workspace → Edit → Prop} (hallowed : Allowed may edits) (h : Nat) :
    (build edits).slotNames h = inputsOf h edits := by
  refine Allowed.induction rfl ?_ hallowed
  intro edits e hbefore ih hfits _
  rw [build_snoc, slotNames_after (sound_build hbefore).rooted hfits, ih]
  unfold inputsOf
  rw [List.filterMap_append, List.foldl_append]
  rcases hinput : e.input? h with _ | name <;> simp [hinput]

/-! ## The law of the search -/

/-- Whatever edits build a workspace, as long as none attaches a block to itself or below itself,
the search from every block ends, and there is one list for it to end with. The block is the
first, and then comes all that hangs on the first of its inputs, on the second and so on, in
the order in which the inputs were declared, and at last all that hangs on the block that
follows. Each block is in the list once, if it can be reached at all, and before all that can be
reached from it. Two lists have nothing in common unless one of them goes through the start of the
other. -/
theorem search_ends (h : Allowed Upright edits) {w : Workspace} (hw : build edits = w) :
    (∀ a < w.nodes.length,
      (∀ l, w.Walks a l ↔ l = w.descendants a) ∧
      w.descendants a = a :: ((w.slots a).filterMap (·.target)).flatMap w.descendants ++
        ((w.node? a).bind (·.next)).toList.flatMap w.descendants ∧
      (w.slots a).map (·.name) = inputsOf a edits ∧
      (w.descendants a).Nodup ∧
      (∀ c, c ∈ w.descendants a ↔ w.Reaches a c) ∧
      (w.descendants a).Pairwise (fun x y => ¬ w.Reaches y x) ∧
      ∀ c ∈ w.descendants a, w.descendants c <:+: w.descendants a) ∧
    ∀ a < w.nodes.length, ∀ b < w.nodes.length,
      (w.descendants a).Disjoint (w.descendants b) ∨
        b ∈ w.descendants a ∨ a ∈ w.descendants b := by
  have hs := sound_build h
  have hac := upright_acyclic h
  rw [hw] at hs hac
  constructor
  · intro a ha
    have hmem : ∀ c, c ∈ w.descendants a ↔ w.Reaches a c := fun c => hac.mem_descendants hs ha
    refine ⟨hac.walks_iff hs ha, ?_, ?_, hac.nodup_descendants hs a, hmem,
      hac.pairwise_descendants hs a, ?_⟩
    · rw [hac.descendants_eq hs ha, children_of_slots, List.flatMap_append, List.cons_append]
    · rw [← slotNames_build h, hw]
      rfl
    · intro c hc
      exact hac.infix_descendants hs ha ((hmem c).mp hc)
  · exact fun a ha b hb => hac.disjoint_or_mem hs ha hb

/-- Five blocks, of which one is none of the workspace. The third takes the place of the second,
and moves away later with the block that follows it. -/
def moved : List Edit :=
  [newBlock { type := .str "a" }, newBlock { type := .str "b" }, newBlock { type := .str "c" },
    make { type := .str "d" }, newBlock { type := .str "e" }, declare 0 (.str "B") .value,
    connect 0 (.str "A") .value 1, connect 0 (.str "A") .statement 2, follow 2 3, follow 0 4,
    connect 0 (.str "B") .statement 2]

/-- The moved blocks come before the block that follows the first. The second is on its own. -/
theorem moved_in_order :
    Allowed Upright moved ∧ (build moved).Walks 0 [0, 2, 3, 4] ∧
      ((build moved).slots 0).map (·.name) = [.str "B", .str "A"] ∧
      ¬ (build moved).Reaches 3 2 ∧
      ((build moved).descendants 1).Disjoint ((build moved).descendants 0) := by
  have hclear : Allowed Clear moved := by decide
  have hallowed : Allowed Upright moved := upright_of_clear (fun _ _ h => h) hclear
  obtain ⟨hsearch, hapart⟩ := search_ends hallowed rfl
  obtain ⟨hwalks, -, hnames, -⟩ := hsearch 0 (by decide)
  obtain ⟨-, -, -, -, hreach, -⟩ := hsearch 3 (by decide)
  refine ⟨hallowed, (hwalks _).mpr (by decide), hnames, ?_, ?_⟩
  · rw [← hreach]
    decide
  · rcases hapart 1 (by decide) 0 (by decide) with hnone | hbelow | hbelow
    · exact hnone
    · exact absurd hbelow (by decide)
    · exact absurd hbelow (by decide)

end Edit
end BlockCode
