-- The tree of a block that has grown. It is the tree that it grew from, with ids and
-- places for its blocks; of two inputs with one name, the later takes the place of the
-- earlier.
import BlockCode.Proofs.Document.Growth

namespace BlockCode

/-- The inputs with one more that is declared. -/
def Inputs.declare (inputs : Inputs) (name : Value) (kind : SlotKind) : Inputs :=
  if inputs.has name then inputs else inputs.append (.cons name kind .nil .nil)

/-- The inputs with a tree in the one of this name. -/
def Inputs.plug (name : Value) (tree : Chain) : Inputs → Inputs
  | .nil => .nil
  | .cons n kind target rest =>
    if n.same name then .cons n kind tree rest else .cons n kind target (rest.plug name tree)

mutual
/-- The tree as it stands when it has grown from `start` on. -/
def Chain.settle (start : Nat) : Chain → Chain
  | .nil => .nil
  | .cons b inputs next =>
    .cons (b.placed start) (Inputs.settleFrom .nil (start + 1) inputs)
      (next.settle (start + 1 + inputs.blocks.length))

/-- The inputs in `done`, and those that grow after them from `start` on. -/
def Inputs.settleFrom (done : Inputs) (start : Nat) : Inputs → Inputs
  | .nil => done
  | .cons name kind target rest =>
    if target.isEmpty then (done.declare name kind).settleFrom start rest
    else ((done.declare name kind).plug name (target.settle start)).settleFrom
      (start + target.blocks.length) rest
end

namespace Workspace

/-! ## Trees of inputs -/

variable {tree : Option Nat → Chain}

theorem has_ofSlots (slots : List Slot) (name : Value) :
    (Inputs.ofSlots tree slots).has name = slots.any (·.name.same name) := by
  induction slots with
  | nil => rfl
  | cons s rest ih => rw [Inputs.ofSlots, Inputs.has, List.any_cons, ih]

theorem ofSlots_append (slots more : List Slot) :
    Inputs.ofSlots tree (slots ++ more) =
      (Inputs.ofSlots tree slots).append (Inputs.ofSlots tree more) := by
  induction slots with
  | nil => rfl
  | cons s rest ih => rw [List.cons_append, Inputs.ofSlots, Inputs.ofSlots, Inputs.append, ih]

theorem ofSlots_declare (htree : tree none = .nil) (slots : List Slot) (name : Value)
    (kind : SlotKind) :
    Inputs.ofSlots tree (declare slots name kind) =
      (Inputs.ofSlots tree slots).declare name kind := by
  unfold declare Inputs.declare
  rw [has_ofSlots]
  split
  · rfl
  · rw [ofSlots_append, Inputs.ofSlots, Inputs.ofSlots, htree]

theorem ofSlots_plugInto (slots : List Slot) (name : Value) (child : Nat) :
    Inputs.ofSlots tree (plugInto name child slots) =
      (Inputs.ofSlots tree slots).plug name (tree (some child)) := by
  induction slots with
  | nil => rfl
  | cons s rest ih =>
    rw [plugInto, Inputs.ofSlots, Inputs.plug]
    split
    · rfl
    · rw [Inputs.ofSlots, ih]

/-! ## Trees of nodes -/

/-- The nodes stand in the workspace from `start` on. -/
def Stands (w : Workspace) (start : Nat) (nodes : List Node) : Prop :=
  ∀ i n, nodes[i]? = some n → w.node? (start + i) = some n

variable {w : Workspace} {start : Nat}

theorem Stands.left {nodes more : List Node} (h : w.Stands start (nodes ++ more)) :
    w.Stands start nodes := by
  intro i n hn
  refine h i n ?_
  rw [List.getElem?_append_left (List.getElem?_eq_some_iff.mp hn).1]
  exact hn

theorem Stands.right {nodes more : List Node} (h : w.Stands start (nodes ++ more)) :
    w.Stands (start + nodes.length) more := by
  intro i n hn
  have := h (nodes.length + i) n (by
    rw [List.getElem?_append_right (Nat.le_add_right _ _), Nat.add_sub_cancel_left]
    exact hn)
  rwa [← Nat.add_assoc] at this

theorem Stands.tail {n : Node} {more : List Node} (h : w.Stands start (n :: more)) :
    w.Stands (start + 1) more := @Stands.right w start [n] more h

theorem treeWithin_none (w : Workspace) (fuel : Nat) : w.treeWithin fuel none = .nil := by
  cases fuel <;> rfl

/-- Where the tree begins, if it is there at all. -/
def root (c : Chain) (start : Nat) : Option Nat := if c.isEmpty then none else some start

/-- What is said of a tree: where its nodes stand, it can be read off. -/
def ReadOff (c : Chain) : Prop := ∀ (w : Workspace) parent start fuel,
  w.Stands start (c.nodes parent start) → c.blocks.length ≤ fuel →
    w.treeWithin fuel (root c start) = c.settle start

theorem readOff_inputs {inputs : Inputs} (hin : inputs.Every ReadOff) (w : Workspace)
    (host fuel : Nat) (slots : List Slot) (start : Nat)
    (h : w.Stands start (inputs.nodes host start)) (hfuel : inputs.blocks.length ≤ fuel) :
    Inputs.ofSlots (w.treeWithin fuel) (slotsFrom slots start inputs) =
      (Inputs.ofSlots (w.treeWithin fuel) slots).settleFrom start inputs := by
  have hnone := treeWithin_none w fuel
  induction inputs using Inputs.inductionOn generalizing slots start with
  | nil => rfl
  | cons name kind target rest ih =>
    rw [Inputs.nodes] at h
    rw [Inputs.blocks, List.length_append] at hfuel
    have hrest := h.right
    rw [Chain.length_nodes] at hrest
    rw [slotsFrom, Inputs.settleFrom]
    rcases hempty : target.isEmpty with _ | _
    · have htarget := hin.1 w _ _ fuel h.left (by omega)
      unfold root at htarget
      rw [hempty] at htarget
      simp only [Bool.false_eq_true, if_false] at htarget ⊢
      rw [ih hin.2 _ _ hrest (by omega), ofSlots_plugInto, ofSlots_declare hnone, htarget]
    · simp only [if_true]
      have hlength : target.blocks.length = 0 := by
        cases target with
        | nil => rfl
        | cons b inputs next => cases hempty
      rw [hlength, Nat.add_zero] at hrest
      rw [ih hin.2 _ _ hrest (by omega), ofSlots_declare hnone]

theorem readOff (c : Chain) : ReadOff c := by
  induction c using Chain.inductionOn with
  | nil =>
    intro w parent start fuel _ _
    exact treeWithin_none w fuel
  | cons b inputs next hin hnext =>
    intro w parent start fuel h hfuel
    rw [Chain.blocks, List.length_cons, List.length_append] at hfuel
    rw [Chain.nodes] at h
    obtain ⟨fuel, rfl⟩ : ∃ f, fuel = f + 1 := ⟨fuel - 1, by omega⟩
    have hfirst := h 0 _ rfl
    have hinputs := h.tail.left
    have hrest := h.tail.right
    rw [Inputs.length_nodes] at hrest
    have hslots := readOff_inputs hin w start fuel [] (start + 1) hinputs (by omega)
    have hfollower := hnext w _ _ fuel hrest (by omega)
    unfold root at hfollower
    show w.treeWithin (fuel + 1) (some start) = _
    rw [treeWithin, Chain.settle]
    rw [Nat.add_zero] at hfirst
    simp only [hfirst]
    rw [hslots, hfollower]
    rfl

/-! ## Top blocks -/

/-- The nodes of plugged trees are all attached. -/
theorem attached_inputs {inputs : Inputs}
    (hin : inputs.Every fun c => ∀ host start, ∀ n ∈ c.nodes (some host) start, n.parent ≠ none)
    (host start : Nat) : ∀ n ∈ inputs.nodes host start, n.parent ≠ none := by
  induction inputs using Inputs.inductionOn generalizing start with
  | nil => exact fun n hn => absurd hn List.not_mem_nil
  | cons name kind target rest ih =>
    intro n hn
    rcases List.mem_append.mp hn with hn | hn
    · exact hin.1 host start n hn
    · exact ih hin.2 _ n hn

theorem attached (c : Chain) :
    ∀ host start, ∀ n ∈ c.nodes (some host) start, n.parent ≠ none := by
  induction c using Chain.inductionOn with
  | nil => exact fun _ _ n hn => absurd hn List.not_mem_nil
  | cons b inputs next hin hnext =>
    intro host start n hn
    rcases List.mem_cons.mp hn with rfl | hn
    · exact nofun
    · rcases List.mem_append.mp hn with hn | hn
      · exact attached_inputs hin _ _ n hn
      · exact hnext _ _ n hn

/-- A tree that stands alone is attached to nothing, and all that hangs on it is attached. -/
theorem alone {c : Chain} (hc : c.isEmpty = false) (start : Nat) :
    ∃ first rest, c.nodes none start = first :: rest ∧ first.parent = none ∧
      ∀ n ∈ rest, n.parent ≠ none := by
  cases c with
  | nil => cases hc
  | cons b inputs next =>
    refine ⟨_, _, rfl, rfl, ?_⟩
    intro n hn
    rcases List.mem_append.mp hn with hn | hn
    · exact attached_inputs (Inputs.every_of_forall attached inputs) _ _ n hn
    · exact attached next _ _ n hn

/-- The places where trees begin that stand side by side. -/
def roots (start : Nat) : List Chain → List Nat
  | [] => []
  | c :: rest => start :: roots (start + c.blocks.length) rest

/-- The trees as they stand when they have grown side by side. -/
def settled (start : Nat) : List Chain → List Chain
  | [] => []
  | c :: rest => c.settle start :: settled (start + c.blocks.length) rest

theorem filter_attached {nodes : List Node} {parent? : Nat → Option Nat} {start : Nat}
    (hparent : ∀ i n, nodes[i]? = some n → parent? (start + i) = n.parent)
    (hall : ∀ n ∈ nodes, n.parent ≠ none) :
    (List.range' start nodes.length).filter (fun h => (parent? h).isNone) = [] := by
  rw [List.filter_eq_nil_iff]
  intro h hh
  obtain ⟨i, hi, rfl⟩ := List.mem_range'.mp hh
  rw [Nat.one_mul, hparent i _ (List.getElem?_eq_getElem hi)]
  have := hall _ (List.getElem_mem hi)
  simpa using this

/-- Of all nodes of trees side by side, those where a tree begins are attached to none. -/
theorem filter_roots {trees : List Chain} (htrees : ∀ c ∈ trees, c.isEmpty = false)
    {parent? : Nat → Option Nat} {start : Nat}
    (hparent : ∀ i n, (forest start trees)[i]? = some n → parent? (start + i) = n.parent) :
    (List.range' start (forest start trees).length).filter (fun h => (parent? h).isNone) =
      roots start trees := by
  induction trees generalizing start with
  | nil => rfl
  | cons c rest ih =>
    obtain ⟨first, others, hnodes, hfirst, hothers⟩ :=
      alone (htrees c List.mem_cons_self) start
    have hlength : c.blocks.length = others.length + 1 := by
      rw [← Chain.length_nodes c none start, hnodes, List.length_cons]
    have hforest : forest start (c :: rest) =
        first :: (others ++ forest (start + c.blocks.length) rest) := by
      rw [forest, hnodes, List.cons_append]
    rw [hforest] at hparent ⊢
    have hhere : parent? start = none := by
      have := hparent 0 first rfl
      rwa [Nat.add_zero, hfirst] at this
    have hmiddle : ∀ i n, others[i]? = some n → parent? (start + 1 + i) = n.parent := by
      intro i n hn
      have := hparent (i + 1) n (by
        rw [List.getElem?_cons_succ, List.getElem?_append_left (List.getElem?_eq_some_iff.mp hn).1]
        exact hn)
      rwa [show start + 1 + i = start + (i + 1) by omega]
    have hlater : ∀ i n, (forest (start + c.blocks.length) rest)[i]? = some n →
        parent? (start + c.blocks.length + i) = n.parent := by
      intro i n hn
      have := hparent (others.length + i + 1) n (by
        rw [List.getElem?_cons_succ, List.getElem?_append_right (Nat.le_add_right _ _),
          Nat.add_sub_cancel_left]
        exact hn)
      rwa [show start + c.blocks.length + i = start + (others.length + i + 1) by omega]
    rw [List.length_cons, List.range'_succ, List.filter_cons_of_pos (by rw [hhere]; rfl),
      List.length_append, ← List.range'_append_1, List.filter_append,
      filter_attached hmiddle hothers, List.nil_append, roots]
    rw [show start + 1 + others.length = start + c.blocks.length by omega]
    rw [ih (fun d hd => htrees d (List.mem_cons_of_mem _ hd)) hlater]

theorem topBlocks_forest {trees : List Chain} (htrees : ∀ c ∈ trees, c.isEmpty = false) :
    (ofNodes (forest 0 trees)).topBlocks = roots 0 trees := by
  have hparent : ∀ i n, (forest 0 trees)[i]? = some n →
      (ofNodes (forest 0 trees)).parent? (0 + i) = n.parent := by
    intro i n hn
    unfold parent? node?
    rw [Nat.zero_add, nodes_ofNodes, hn, Option.bind_some]
  unfold topBlocks
  rw [← filter_roots htrees hparent, ← List.range_eq_range']
  rfl

theorem map_tree {trees : List Chain} (htrees : ∀ c ∈ trees, c.isEmpty = false) {w : Workspace}
    {start : Nat} (h : w.Stands start (forest start trees))
    (hfuel : (forest start trees).length ≤ w.nodes.length) :
    (roots start trees).map w.tree = settled start trees := by
  induction trees generalizing start with
  | nil => rfl
  | cons c rest ih =>
    rw [forest] at h hfuel
    rw [List.length_append, Chain.length_nodes] at hfuel
    have hright := h.right
    rw [Chain.length_nodes] at hright
    have hfirst := readOff c w none start w.nodes.length h.left (by omega)
    unfold root at hfirst
    rw [htrees c List.mem_cons_self] at hfirst
    have htree : w.tree start = c.settle start := hfirst
    rw [roots, settled, List.map_cons, htree,
      ih (fun d hd => htrees d (List.mem_cons_of_mem _ hd)) hright (by omega)]

/-- The trees of a workspace that has grown are those that it grew from, settled. -/
theorem trees_forest {trees : List Chain} (htrees : ∀ c ∈ trees, c.isEmpty = false) :
    (ofNodes (forest 0 trees)).trees = settled 0 trees := by
  unfold Workspace.trees
  rw [topBlocks_forest htrees]
  refine map_tree htrees ?_ (Nat.le_refl _)
  intro i n hn
  unfold node?
  rw [Nat.zero_add]
  exact hn

end Workspace
end BlockCode
