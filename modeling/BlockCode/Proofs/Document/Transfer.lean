-- Workspaces that are written and read again. The inputs of a block for values are written
-- before those for statements, whatever order they were declared in. So every block comes back
-- with its inputs in this order, and with the same blocks below it.
import BlockCode.Proofs.Document.Exact
import BlockCode.Proofs.Document.Grown

namespace BlockCode

open Relation Workspace

/-! ## Ids of trees that have settled -/

/-- Every block of the tree has an id. -/
def Chain.Known (c : Chain) : Prop := ∀ id ∈ c.ids, id.isNull = false

theorem Chain.Known.split {b : Block} {inputs : Inputs} {next : Chain}
    (h : (Chain.cons b inputs next).Known) :
    b.id.isNull = false ∧ (∀ id ∈ inputs.ids, id.isNull = false) ∧ next.Known := by
  unfold Chain.Known at h
  rw [Document.Chain.ids_cons, List.forall_mem_cons, List.forall_mem_append] at h
  exact h

theorem Block.id_placed {b : Block} (h : b.id.isNull = false) (start : Nat) :
    (b.placed start).id = b.id := by
  simp [Block.placed, h]

theorem ids_placedFrom {blocks : List Block} (h : ∀ id ∈ blocks.map (·.id), id.isNull = false)
    (start : Nat) : (placedFrom start blocks).map (·.id) = blocks.map (·.id) := by
  induction blocks generalizing start with
  | nil => rfl
  | cons b rest ih =>
    rw [List.map_cons, List.forall_mem_cons] at h
    rw [placedFrom_cons, List.map_cons, List.map_cons, Block.id_placed h.1, ih h.2]

theorem Chain.ids_settle_apart {c : Chain} (h : c.Known) (hapart : c.Apart) (start : Nat) :
    (c.settle start).ids = c.ids := by
  unfold Chain.ids
  rw [c.blocks_settle hapart, ids_placedFrom h]

theorem Chain.idAt_settle {c : Chain} (h : c.Known) (start : Nat) :
    (c.settle start).head?.map (·.id) = c.head?.map (·.id) := by
  cases c with
  | nil => rfl
  | cons b inputs next =>
    simp [Chain.settle, Chain.head?, Block.id_placed h.split.1]

theorem Inputs.wires_settleEach {inputs : Inputs} (h : ∀ id ∈ inputs.ids, id.isNull = false)
    (start : Nat) : (inputs.settleEach start).wires = inputs.wires := by
  induction inputs using Inputs.inductionOn generalizing start with
  | nil => rfl
  | cons name kind target rest ih =>
    rw [Document.Inputs.ids_cons, List.forall_mem_append] at h
    rw [settleEach, wires, wires, Chain.idAt_settle h.1, ih h.2]

/-! ## Plain trees -/

theorem Inputs.plain_ofSlots (tree : Option Nat → Chain) (kind : SlotKind) (slots : List Slot) :
    (Inputs.ofSlots tree slots).plain kind =
      .ofSlots (fun o => (tree o).plain) (slots.filter (·.kind == kind)) := by
  induction slots with
  | nil => rfl
  | cons s rest ih =>
    rw [ofSlots, plain, List.filter_cons]
    split
    · rename_i hkind
      rw [ofSlots, ih, beq_iff_eq.mp hkind]
    · exact ih

theorem Inputs.ids_ofSlots (tree : Option Nat → Chain) (slots : List Slot) :
    (Inputs.ofSlots tree slots).ids = slots.flatMap fun s => (tree s.target).ids := by
  induction slots with
  | nil => rfl
  | cons s rest ih => rw [ofSlots, Document.Inputs.ids_cons, ih, List.flatMap_cons]

theorem Inputs.heads_ofSlots (tree : Option Nat → Chain) (slots : List Slot) :
    (Inputs.ofSlots tree slots).heads = slots.map fun s => (s.name, s.kind) := by
  induction slots with
  | nil => rfl
  | cons s rest ih => rw [ofSlots, heads, ih, List.map_cons]

theorem Inputs.apart_ofSlots {tree : Option Nat → Chain} {slots : List Slot}
    (h : ∀ s ∈ slots, (tree s.target).Apart) : (Inputs.ofSlots tree slots).Apart := by
  induction slots with
  | nil => exact trivial
  | cons s rest ih =>
    exact ⟨h s List.mem_cons_self, ih fun t ht => h t (List.mem_cons_of_mem _ ht)⟩

theorem Chain.idAt_plain (c : Chain) : c.plain.head?.map (·.id) = c.head?.map (·.id) := by
  cases c with
  | nil => rfl
  | cons b inputs next => rfl

theorem Chain.plain_mem_parts (c : Chain) : ∀ d ∈ c.parts, d.plain ∈ c.plain.parts := by
  induction c using Chain.inductionOn with
  | nil => exact nofun
  | cons b inputs next hin hnext =>
    have hinputs : ∀ d ∈ inputs.parts, d.plain ∈ inputs.sorted.parts := by
      clear hnext
      unfold Inputs.sorted
      rw [Inputs.parts_append]
      induction inputs using Inputs.inductionOn with
      | nil => exact nofun
      | cons name kind target rest ih =>
        intro d hd
        rcases List.mem_append.mp hd with hd | hd
        · have hplain := hin.1 d hd
          cases kind <;> simp [Inputs.plain, Inputs.parts, hplain]
        · rcases List.mem_append.mp (ih hin.2 d hd) with hrest | hrest <;>
            cases kind <;> simp [Inputs.plain, Inputs.parts, hrest]
    intro d hd
    rw [Chain.parts, List.mem_cons, List.mem_append] at hd
    rw [Chain.plain, Chain.parts, List.mem_cons, List.mem_append]
    rcases hd with rfl | hd | hd
    · exact Or.inl rfl
    · exact Or.inr (Or.inl (hinputs d hd))
    · exact Or.inr (Or.inr (hnext d hd))

namespace Workspace

variable {w : Workspace} {h : Nat} {n : Node}

/-- The inputs of a block, those for values first. -/
def slotsSorted (w : Workspace) (h : Nat) : List Slot := w.slotsOf h .value ++ w.slotsOf h .statement

/-- No input for statements was declared before one for values. -/
def ValuesFirst (w : Workspace) (h : Nat) : Prop := w.slotsSorted h = w.slots h

theorem Acyclic.plain_tree (hac : w.Acyclic) (hn : w.node? h = some n) :
    (w.tree h).plain = .cons n.block.plain
      (.ofSlots (fun o => (w.treeAt o).plain) (w.slotsSorted h)) (w.treeAt n.next).plain := by
  have hslots : w.slots h = n.slots := by simp [slots, hn]
  rw [hac.tree_eq hn, Chain.plain, Inputs.plain_ofSlots, Inputs.plain_ofSlots, ← ofSlots_append,
    slotsSorted, slotsOf, slotsOf, hslots]

theorem perm_slotsSorted (w : Workspace) (h : Nat) : (w.slotsSorted h).Perm (w.slots h) := by
  have hother : (fun s : Slot => s.kind == .statement) = fun s => !(s.kind == .value) := by
    funext s
    cases s.kind <;> rfl
  unfold slotsSorted slotsOf
  rw [hother]
  exact List.filter_append_perm _ _

/-- A sound workspace is told of by trees that stand as they are. -/
theorem Acyclic.apart_plain (hac : w.Acyclic) (hs : w.Sound) (place : Option Nat) :
    (w.treeAt place).plain.Apart := by
  induction place using hac.placeInduction with
  | empty =>
    rw [treeAt_none]
    exact trivial
  | gone h hn =>
    rw [treeAt_some, tree_of_none hn]
    exact trivial
  | node h n hn hplugged hnext =>
    have hslots : w.slots h = n.slots := by simp [slots, hn]
    have hnames : ((w.slotsSorted h).map (·.name)).Pairwise Document.Unlike := by
      have ho := hs.orderly h n hn
      rw [((w.perm_slotsSorted h).map (·.name)).pairwise_iff fun hab => ⟨hab.2, hab.1⟩, hslots]
      refine ho.apart.imp_of_mem ?_
      intro a b ha hb hab
      refine ⟨hab, Bool.eq_false_iff.mpr fun hba => ?_⟩
      rw [Value.same_symm_of_key b a (ho.keyed b hb) hba] at hab
      cases hab
    rw [treeAt_some, hac.plain_tree hn]
    refine ⟨?_, Inputs.apart_ofSlots ?_, hnext⟩
    · rw [NamesApart, Inputs.heads_ofSlots, List.pairwise_map]
      exact (List.pairwise_map.mp hnames).imp fun hab => hab.1
    · intro s hsort
      refine hplugged s ?_
      rw [← hslots]
      exact (w.perm_slotsSorted h).mem_iff.mp hsort

/-- Where inputs for values come first in any case, the blocks are told of in their order. -/
theorem Acyclic.ids_plain (hac : w.Acyclic) {place : Option Nat}
    (hfirst : ∀ h ∈ place, ∀ z, w.Reaches h z → w.ValuesFirst z) :
    (w.treeAt place).plain.ids = (w.treeAt place).ids := by
  induction place using hac.placeInduction with
  | empty =>
    rw [treeAt_none]
    rfl
  | gone h hn =>
    rw [treeAt_some, tree_of_none hn]
    rfl
  | node h n hn hplugged hnext =>
    have hbelow : ∀ c ∈ w.children h, ∀ z, w.Reaches c z → w.ValuesFirst z :=
      fun c hc z hz => hfirst h rfl z (ReflTransGen.head hc hz)
    have hslots : w.slotsSorted h = n.slots := by
      rw [hfirst h rfl h ReflTransGen.refl]
      simp [slots, hn]
    have hinputs : n.slots.flatMap (fun s => (w.treeAt s.target).plain.ids) =
        n.slots.flatMap fun s => (w.treeAt s.target).ids :=
      List.flatMap_congr fun s hmem =>
        hplugged s hmem fun c hc => hbelow c (mem_children_of_slot hn hmem hc)
    rw [treeAt_some, hac.plain_tree hn, hac.tree_eq hn, Document.Chain.ids_cons,
      Document.Chain.ids_cons, Inputs.ids_ofSlots, Inputs.ids_ofSlots, hslots, hinputs,
      hnext fun c hc => hbelow c (mem_children_of_next hn hc)]
    rfl

/-! ## Written and read -/

/-- Under its id the block `x` of the first workspace is the block `y` of the second: of the same
type, with the same inputs and the same follower, and with the same blocks below it. Inputs for
values come first now, and so do the blocks below them. -/
structure Carried (w v : Workspace) (x y : Nat) : Prop where
  found : (w.idAt x).bind v.findId? = some y
  type : (v.block? y).map (·.type) = (w.block? x).map (·.type)
  inputs : v.wires (v.slots y) = w.wires (w.slotsSorted x)
  follower : v.followerId y = w.followerId x
  below : v.idsBelow y = (w.tree x).plain.ids
  same : (v.idsBelow y).Perm (w.idsBelow x)
  inOrder : (∀ z ∈ w.descendants x, w.ValuesFirst z) → v.idsBelow y = w.idsBelow x

theorem mem_blocks_of_tree (hplaced : ∀ h n, w.node? h = some n → n.block.handle = h) {b : Block}
    (hb : b ∈ (w.tree h).blocks) : b ∈ w.blocks := by
  have hat := block?_of_mem_tree hplaced _ _ b hb
  rw [block?_eq] at hat
  exact List.mem_iff_getElem?.mpr ⟨_, hat⟩

theorem Named.known (hnamed : w.Named) (hs : w.Sound) (h : Nat) : (w.tree h).Known := by
  intro id hid
  obtain ⟨b, hb, rfl⟩ := List.mem_map.mp hid
  obtain ⟨s, hs⟩ := hnamed.texts b (mem_blocks_of_tree hs.placed hb)
  rw [hs]
  rfl

theorem mem_members_ofNodes {nodes : List Node} {h : Nat} {b : Block}
    (hb : (ofNodes nodes).block? h = some b) : h ∈ (ofNodes nodes).members := by
  rw [block?_ofNodes, Option.map_eq_some_iff] at hb
  obtain ⟨n, hn, -⟩ := hb
  exact List.mem_range.mpr (List.getElem?_eq_some_iff.mp hn).1

theorem Acyclic.told_of_block (hac : w.Acyclic) (hkept : w.Kept)
    (hmembers : w.members = List.range w.nodes.length) {x : Nat} (hx : x < w.nodes.length) :
    (w.tree x).plain ∈ (w.trees.map Chain.plain).flatMap Chain.parts := by
  obtain ⟨n, hn⟩ := exists_node hx
  obtain ⟨t, ht, htop, hreach⟩ := hac.exists_top hkept hx
  have htrees : w.tree t ∈ w.trees := by
    refine List.mem_map_of_mem ?_
    simp [topBlocks, hmembers, ht, htop]
  refine List.mem_flatMap.mpr ⟨_, List.mem_map_of_mem htrees, ?_⟩
  exact Chain.plain_mem_parts _ _ (hac.tree_mem_parts hreach hn)

/-- A block that grows out of what is told of another is that one. -/
theorem Acyclic.carried_of_told (hac : w.Acyclic) (hs : w.Sound) (hnamed : w.Named) {v : Workspace}
    (hback : v.Acyclic) (hplaced : ∀ h n, v.node? h = some n → n.block.handle = h) {x y : Nat}
    (hx : x < w.nodes.length) (hfound : ∀ b, v.block? y = some b → v.findId? b.id = some y)
    (hy : v.tree y = (w.tree x).plain.settle y) : Carried w v x y := by
  obtain ⟨n, hn⟩ := exists_node hx
  have hapart : (w.tree x).plain.Apart := hac.apart_plain hs (some x)
  have hknown : (w.tree x).plain.Known :=
    fun id hid => hnamed.known hs x id ((w.tree x).ids_plain.mem_iff.mp hid)
  have hbelow : v.idsBelow y = (w.tree x).plain.ids := by
    rw [idsBelow_eq hplaced, hy, Chain.ids_settle_apart hknown hapart]
  have hbefore := idsBelow_eq hs.placed x
  -- What hangs on the new block can be read off its tree, as there are no cycles.
  rw [hac.plain_tree hn] at hknown hapart hy
  rw [Chain.settle_apart hapart] at hy
  obtain ⟨hblock, hwires, hnext⟩ := hback.told hy
  obtain ⟨hid, hinputs, hnextKnown⟩ := hknown.split
  have hgiven : w.block? x = some n.block := by simp [block?, hn]
  refine ⟨?_, ?_, ?_, ?_, hbelow, ?_, ?_⟩
  · have hsame := hfound _ hblock
    rw [Block.id_placed hid] at hsame
    rw [idAt, hgiven]
    exact hsame
  · rw [hblock, hgiven]
    rfl
  · rw [← hwires, Inputs.wires_settleEach hinputs, Inputs.wires_ofSlots]
    simp [wires, Chain.idAt_plain, hac.idAt_treeAt]
  · rw [← hnext, Chain.idAt_settle hnextKnown, Chain.idAt_plain, hac.idAt_treeAt]
    simp [followerId, hn]
  · rw [hbelow, hbefore]
    exact (w.tree x).ids_plain
  · intro hfirst
    rw [hbelow, hbefore]
    have hreached : ∀ h ∈ some x, ∀ z, w.Reaches h z → w.ValuesFirst z := by
      rintro h ⟨⟩ z hz
      exact hfirst z ((hac.mem_descendants hs hx).mpr hz)
    exact hac.ids_plain hreached

/-- A workspace that grows out of the trees that tell of another has each of its blocks. -/
theorem Acyclic.carried (hac : w.Acyclic) (hs : w.Sound) (hkept : w.Kept) (hnamed : w.Named)
    (hmembers : w.members = List.range w.nodes.length)
    (hfind : (ofNodes (forest 0 (w.trees.map Chain.plain))).Findable) {x : Nat}
    (hx : x < w.nodes.length) : ∃ y, Carried w (ofNodes (forest 0 (w.trees.map Chain.plain))) x y := by
  obtain ⟨y, hy⟩ := tree_of_part (stands_forest _) (Nat.le_refl _) _
    (hac.told_of_block hkept hmembers hx)
  refine ⟨y, hac.carried_of_told hs hnamed (acyclic_forest _) (fun _ _ => placed_forest _) hx ?_ hy⟩
  intro b hb
  obtain ⟨b', hb', hfound⟩ := hfind y (mem_members_ofNodes hb)
  rw [hb, Option.some.injEq] at hb'
  rwa [hb']

theorem Acyclic.ids_trees (hac : w.Acyclic) (hs : w.Sound) (hkept : w.Kept)
    (hmembers : w.members = List.range w.nodes.length) :
    (w.trees.flatMap Chain.ids).Perm w.ids := by
  have hbelow : w.trees.flatMap Chain.ids = (w.topBlocks.flatMap w.descendants).filterMap w.idAt := by
    unfold trees
    rw [List.flatMap_map, List.filterMap_flatMap]
    refine List.flatMap_congr fun t _ => ?_
    rw [← idsBelow_eq hs.placed]
    rfl
  have hids : w.ids = w.members.filterMap w.idAt := by
    unfold ids
    rw [← List.filterMap_eq_map]
    refine List.filterMap_congr fun h hh => ?_
    rw [hmembers, List.mem_range] at hh
    obtain ⟨n, hn⟩ := exists_node hh
    simp [idAt, block?, hn]
  rw [hbelow, hids]
  exact (hac.descendants_of_tops hs hkept hmembers).filterMap _

theorem Named.texts_ids (hnamed : w.Named) (hmembers : w.members = List.range w.nodes.length) :
    ∀ id ∈ w.ids, ∃ s, id = .str s := by
  intro id hid
  rw [ids_eq hmembers] at hid
  obtain ⟨b, hb, rfl⟩ := List.mem_map.mp hid
  exact hnamed.texts b hb

theorem Named.claimed (hnamed : w.Named) (hmembers : w.members = List.range w.nodes.length)
    {ids : List Value} (hids : ids.Perm w.ids) :
    ∃ all, Document.claims [] ids = some all := by
  have htexts := hnamed.texts_ids hmembers
  rw [Document.claims_texts fun id hid => Or.inr (htexts id (hids.mem_iff.mp hid)),
    (hids.filterMap _).nodup_iff]
  refine ⟨?_, fun _ _ => List.not_mem_nil⟩
  refine List.Pairwise.filterMap _ ?_ hnamed.distinct
  intro a b hab s hs t ht heq
  rw [Value.str?_eq_some.mp hs, Value.str?_eq_some.mp ht, heq,
    (Value.equals_self_iff (.str t)).mpr nofun] at hab
  cases hab

theorem findable_forest {trees : List Chain} {seen : List Value}
    (hclaim : Document.claims [] (trees.flatMap Chain.ids) = some seen)
    (htexts : ∀ id ∈ trees.flatMap Chain.ids, ∃ s, id = .str s) :
    (ofNodes (forest 0 trees)).Findable := by
  rw [findable_iff, Distinct, ids_ofNodes, ids_forest, no_nan_numbered,
    numbered_apart_iff (claims_apart hclaim).1]
  constructor
  · rintro ⟨k, hk, -⟩
    obtain ⟨s, hs⟩ := htexts _ (List.mem_iff_getElem?.mpr ⟨k, hk⟩)
    cases hs
  · rintro id hid rfl
    obtain ⟨s, hs⟩ := htexts _ hid
    cases hs

end Workspace

open Document

namespace Edit

variable {edits : List Edit}

/-- A workspace without cycles that was built gently is written, and what is written is read. Each
block comes back under its id, with its inputs for values before those for statements. -/
theorem carried_over (h : Allowed Gentle edits) (hac : (build edits).Acyclic) :
    ∃ d v, save (build edits) = .ok d ∧ load d = .ok v ∧
      ∀ x b, (build edits).block? x = some b → ∃ y, Carried (build edits) v x y := by
  have hs := sound_build h
  have hkept := kept_build h
  have hnamed := named_build h
  have hmembers := members_build (fun _ _ hmay => hmay.own) h
  generalize build edits = w at hac hs hkept hnamed hmembers
  have htrees : ∀ c ∈ w.trees, c.isEmpty = false ∧ c.Tabled := by
    intro c hc
    obtain ⟨t, ht, rfl⟩ := List.mem_map.mp hc
    obtain ⟨n, hn⟩ : ∃ n, w.node? t = some n := by
      simp only [topBlocks, hmembers, List.mem_filter, List.mem_range] at ht
      exact exists_node ht.1
    refine ⟨by rw [hac.tree_eq hn]; rfl, fun b hb => hnamed.tabled b ?_⟩
    exact mem_blocks_of_tree hs.placed hb
  obtain ⟨entries, hentries, hout⟩ := tells_all htrees
  have hids : ((w.trees.map Chain.plain).flatMap Chain.ids).Perm w.ids :=
    (ids_told w.trees).trans (hac.ids_trees hs hkept hmembers)
  obtain ⟨seen, hseen⟩ := hnamed.claimed hmembers hids
  have hload := load_of_outlines (by rw [outlines_ofEntries, hout]) hseen
  refine ⟨_, _, save_eq hentries, hload, ?_⟩
  have hfind := findable_forest hseen fun id hid =>
    hnamed.texts_ids hmembers id (hids.mem_iff.mp hid)
  intro x b hb
  obtain ⟨n, hn, -⟩ := Option.map_eq_some_iff.mp hb
  exact hac.carried hs hkept hnamed hmembers hfind (node?_lt hn)

/-- Three blocks, of which the second is plugged into an input for statements before the third is
plugged into one for values. -/
def interleaved : List Edit :=
  [newBlock { type := .str "if", id := .str "a" }, newBlock { type := .str "print", id := .str "b" },
    newBlock { type := .str "text", id := .str "c" }, connect 0 (.str "DO") .statement 1,
    connect 0 (.str "IF") .value 2]

/-- What is written of them. -/
def reordered : Value :=
  ofEntries [.table [(.str "type", .str "if"), (.str "id", .str "a"),
    (.str "inputs", .table [(.str "IF", .table [(.str "type", .str "text"), (.str "id", .str "c")])]),
    (.str "statements", .table
      [(.str "DO", .table [(.str "type", .str "print"), (.str "id", .str "b")])])]]

/-- What is read then. -/
def reorderedNodes : List Node :=
  [{ block := { type := .str "if", id := .str "a" }
     slots := [{ name := .str "IF", kind := .value, target := some 1 },
       { name := .str "DO", kind := .statement, target := some 2 }] },
    { block := { handle := 1, type := .str "text", id := .str "c" }, parent := some 0 },
    { block := { handle := 2, type := .str "print", id := .str "b" }, parent := some 0 }]

theorem interleaved_gentle : Allowed Gentle interleaved :=
  ⟨⟨trivial, ⟨_, rfl⟩, ⟨_, rfl⟩, by decide⟩, ⟨trivial, ⟨_, rfl⟩, ⟨_, rfl⟩, by decide⟩,
    ⟨trivial, ⟨_, rfl⟩, ⟨_, rfl⟩, by decide⟩, ⟨by decide, rfl⟩, ⟨by decide, rfl⟩, trivial⟩

theorem interleaved_acyclic : (build interleaved).Acyclic := by
  have hallowed : Allowed Treelike interleaved := by decide
  exact acyclic_build hallowed

/-- Each of the three blocks comes back under its id. -/
theorem interleaved_carried_over :
    Allowed Gentle interleaved ∧ (build interleaved).Acyclic ∧
      ∃ d v, save (build interleaved) = .ok d ∧ load d = .ok v ∧
        ∀ x b, (build interleaved).block? x = some b → ∃ y, Carried (build interleaved) v x y :=
  ⟨interleaved_gentle, interleaved_acyclic, carried_over interleaved_gentle interleaved_acyclic⟩

/-- The first block comes back with its inputs in another order, and so do the blocks below it. -/
theorem interleaved_reordered :
    Allowed Gentle interleaved ∧ (build interleaved).Acyclic ∧
      save (build interleaved) = .ok reordered ∧ load reordered = .ok (ofNodes reorderedNodes) ∧
      (build interleaved).findId? (.str "a") = some 0 ∧
      (ofNodes reorderedNodes).findId? (.str "a") = some 0 ∧
      (build interleaved).wires ((build interleaved).slots 0) =
        [(.str "DO", .statement, some (.str "b")), (.str "IF", .value, some (.str "c"))] ∧
      (ofNodes reorderedNodes).wires ((ofNodes reorderedNodes).slots 0) =
        [(.str "IF", .value, some (.str "c")), (.str "DO", .statement, some (.str "b"))] ∧
      (build interleaved).idsBelow 0 = [.str "a", .str "b", .str "c"] ∧
      (ofNodes reorderedNodes).idsBelow 0 = [.str "a", .str "c", .str "b"] := by
  have hsave : save (build interleaved) = .ok reordered := rfl
  have hout : outlines reordered = some [.cons { type := .str "if", id := .str "a" }
      (.cons (.str "IF") .value (.cons { type := .str "text", id := .str "c" } .nil .nil)
        (.cons (.str "DO") .statement (.cons { type := .str "print", id := .str "b" } .nil .nil)
          .nil)) .nil] := rfl
  have hload : load reordered = .ok (ofNodes reorderedNodes) := load_of_outlines hout rfl
  exact ⟨interleaved_gentle, interleaved_acyclic, hsave, hload, rfl, rfl, rfl, rfl, rfl, rfl⟩

end Edit
end BlockCode
