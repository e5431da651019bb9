-- Ids that are given and ids that are made up. A block without an id gets one by its
-- number, whatever ids there are. So blocks can be told apart by their ids exactly when
-- no given id is one that is made up for another block.
import BlockCode.Proofs.Document.Growth
import BlockCode.Proofs.Names.Fresh

namespace BlockCode

namespace Workspace

/-- The ids of the blocks of a workspace, in their order. -/
def ids (w : Workspace) : List Value := w.members.map fun h => ((w.block? h).map (·.id)).getD .null

/-- No block has the id of another. -/
def Distinct (w : Workspace) : Prop := w.ids.Pairwise fun a b => a.equals b = false

/-- Every block is found under its id. -/
def Findable (w : Workspace) : Prop :=
  ∀ h ∈ w.members, ∃ b, w.block? h = some b ∧ w.findId? b.id = some h

/-- The workspace of blocks that are made one after the other. -/
def made (blocks : List Block) : Workspace := blocks.foldl (fun w b => (w.newBlock b).1) {}

end Workspace

open Workspace

/-! ## Made-up ids -/

/-- The id that is made up for the block after `k` others. -/
def generatedId (k : Nat) : Value := .str ("b" ++ toString (k + 1))

theorem generatedId_injective {j k : Nat} (h : generatedId j = generatedId k) : j = k := by
  unfold generatedId at h
  rw [Value.str.injEq] at h
  have := toString_injective (append_injective "b" h)
  omega

/-- Ids with one made up for each that is missing, the first at `start`. -/
def numbered (start : Nat) (given : List Value) : List Value :=
  given.mapIdx fun k id => if id.isNull then generatedId (start + k) else id

theorem numbered_append (start : Nat) (given more : List Value) :
    numbered start (given ++ more) = numbered start given ++ numbered (start + given.length) more := by
  unfold numbered
  rw [List.mapIdx_append]
  simp only [Nat.add_assoc, Nat.add_comm given.length]

theorem numbered_cons (start : Nat) (id : Value) (rest : List Value) :
    numbered start (id :: rest) =
      (if id.isNull then generatedId start else id) :: numbered (start + 1) rest := by
  rw [← List.singleton_append, numbered_append]
  rfl

/-- A given id is the one that is made up for another block. -/
def Clashes (given : List Value) : Prop := ∃ k, given[k]? = some .null ∧ generatedId k ∈ given

/-- No id is given twice. -/
def GivenApart (given : List Value) : Prop :=
  given.Pairwise fun a b => a ≠ .null → b ≠ .null → a.equals b = false

theorem equals_generatedId (v : Value) (k : Nat) :
    v.equals (generatedId k) = true ↔ v = generatedId k := by
  constructor
  · intro h
    have hsame : v.same (generatedId k) = true := by
      unfold Value.equals at h
      split at h
      · cases h
      · exact h
    exact (Value.same_text_iff v _).mp hsame
  · rintro rfl
    exact Value.same_self _

theorem generatedId_equals (v : Value) (k : Nat) :
    (generatedId k).equals v = true ↔ v = generatedId k := Value.same_str_iff _ v

theorem pairwise_iff_places {α : Type} {R : α → α → Prop} {l : List α} :
    l.Pairwise R ↔ ∀ (i j : Nat) (a b : α), i < j → l[i]? = some a → l[j]? = some b → R a b := by
  rw [List.pairwise_iff_getElem]
  constructor
  · intro h i j a b hij ha hb
    obtain ⟨hi, rfl⟩ := List.getElem?_eq_some_iff.mp ha
    obtain ⟨hj, rfl⟩ := List.getElem?_eq_some_iff.mp hb
    exact h i j hi hj hij
  · intro h i j hi hj hij
    exact h i j _ _ hij (List.getElem?_eq_getElem hi) (List.getElem?_eq_getElem hj)

theorem numbered_at {given : List Value} {k : Nat} {v : Value}
    (h : (numbered 0 given)[k]? = some v) :
    (given[k]? = some .null ∧ v = generatedId k) ∨ (given[k]? = some v ∧ v ≠ .null) := by
  unfold numbered at h
  rw [List.getElem?_mapIdx, Option.map_eq_some_iff] at h
  obtain ⟨id, hid, hv⟩ := h
  rw [Nat.zero_add] at hv
  split at hv
  · rename_i hnull
    rw [(Value.isNull_iff id).mp hnull] at hid
    exact Or.inl ⟨hid, hv.symm⟩
  · rename_i hnull
    subst hv
    refine Or.inr ⟨hid, ?_⟩
    rintro rfl
    exact hnull rfl

theorem numbered_null {given : List Value} {k : Nat} (h : given[k]? = some .null) :
    (numbered 0 given)[k]? = some (generatedId k) := by
  unfold numbered
  rw [List.getElem?_mapIdx, h, Option.map_some, Nat.zero_add]
  rfl

theorem numbered_given {given : List Value} {k : Nat} {v : Value} (h : given[k]? = some v)
    (hv : v ≠ .null) : (numbered 0 given)[k]? = some v := by
  have hnull : v.isNull = false := by
    rcases hn : v.isNull with _ | _
    · rfl
    · exact absurd ((Value.isNull_iff v).mp hn) hv
  unfold numbered
  rw [List.getElem?_mapIdx, h, Option.map_some, hnull]
  rfl

/-- Numbered ids are told apart exactly when no given one clashes with a made-up one. -/
theorem numbered_apart_iff {given : List Value} (hgiven : GivenApart given) :
    (numbered 0 given).Pairwise (fun a b => a.equals b = false) ↔ ¬ Clashes given := by
  rw [pairwise_iff_places]
  constructor
  · rintro h ⟨k, hnull, hmem⟩
    obtain ⟨j, hj⟩ := List.mem_iff_getElem?.mp hmem
    have hk' := numbered_null hnull
    have hj' := numbered_given hj (by intro h; cases h)
    have hequal : (generatedId k).equals (generatedId k) = true := Value.same_self _
    rcases Nat.lt_trichotomy j k with hlt | heq | hgt
    · rw [h j k _ _ hlt hj' hk'] at hequal
      cases hequal
    · rw [heq, hnull] at hj
      cases hj
    · rw [h k j _ _ hgt hk' hj'] at hequal
      cases hequal
  · intro hno i j a b hij ha hb
    by_contra hequal
    rw [Bool.not_eq_false] at hequal
    rcases numbered_at ha with ⟨hi, rfl⟩ | ⟨hi, hane⟩
    · -- The first is made up: the second is the same text, made up or given.
      rw [generatedId_equals] at hequal
      subst hequal
      rcases numbered_at hb with ⟨-, heq⟩ | ⟨hj, -⟩
      · have := generatedId_injective heq
        omega
      · exact hno ⟨i, hi, List.mem_iff_getElem?.mpr ⟨j, hj⟩⟩
    · rcases numbered_at hb with ⟨hj, rfl⟩ | ⟨hj, hbne⟩
      · rw [equals_generatedId] at hequal
        subst hequal
        exact hno ⟨j, hj, List.mem_iff_getElem?.mpr ⟨i, hi⟩⟩
      · have hapart := pairwise_iff_places.mp hgiven i j a b hij hi hj hane hbne
        rw [hapart] at hequal
        cases hequal

/-! ## The ids of nodes -/

theorem block?_ofNodes (nodes : List Node) (h : Nat) :
    (ofNodes nodes).block? h = (nodes[h]?).map (·.block) := rfl

theorem ids_ofNodes (nodes : List Node) : (ofNodes nodes).ids = nodes.map (·.block.id) := by
  apply List.ext_getElem
  · simp only [ids, ofNodes, List.length_map, List.length_range]
  · intro k _ hk
    rw [List.length_map] at hk
    simp only [ids, ofNodes, List.getElem_map, List.getElem_range, block?, node?,
      List.getElem?_eq_getElem hk, Option.map_some, Option.getD_some]

theorem findId?_ofNodes (nodes : List Node) (id : Value) (h : Nat) :
    (ofNodes nodes).findId? id = some h ↔
      (∃ n, nodes[h]? = some n ∧ n.block.id.equals id = true) ∧
        ∀ j < h, ∀ n, nodes[j]? = some n → n.block.id.equals id = false := by
  have hany : ∀ k, ((ofNodes nodes).block? k).any (·.id.equals id) =
      (nodes[k]?).any (·.block.id.equals id) := fun k => Option.any_map
  unfold findId?
  show (List.range nodes.length).find? _ = some h ↔ _
  rw [List.find?_range_eq_some, hany, Option.any_eq_true]
  constructor
  · rintro ⟨hfound, -, hbefore⟩
    refine ⟨hfound, ?_⟩
    intro j hj n hn
    have := hbefore j hj
    rw [hany, hn] at this
    simpa using this
  · rintro ⟨⟨n, hn, hequal⟩, hbefore⟩
    refine ⟨⟨n, hn, hequal⟩, List.mem_range.mpr (List.getElem?_eq_some_iff.mp hn).1, ?_⟩
    intro j hj
    rw [hany]
    rcases hnode : nodes[j]? with _ | m
    · rfl
    · rw [Option.any_some, hbefore j hj m hnode]
      rfl

/-- Blocks are found under their ids when these are told apart and none is NaN. -/
theorem findable_iff (nodes : List Node) :
    (ofNodes nodes).Findable ↔
      (ofNodes nodes).Distinct ∧ ∀ id ∈ (ofNodes nodes).ids, id ≠ .float .nan := by
  have hmember : ∀ h, h ∈ (ofNodes nodes).members ↔ ∃ n, nodes[h]? = some n := by
    intro h
    rw [show (ofNodes nodes).members = List.range nodes.length from rfl, List.mem_range]
    constructor
    · intro hlt
      exact ⟨_, List.getElem?_eq_getElem hlt⟩
    · rintro ⟨n, hn⟩
      exact (List.getElem?_eq_some_iff.mp hn).1
  unfold Distinct
  rw [ids_ofNodes, pairwise_iff_places]
  constructor
  · intro hfind
    have hfound : ∀ h n, nodes[h]? = some n → (ofNodes nodes).findId? n.block.id = some h := by
      intro h n hn
      obtain ⟨b, hb, hid⟩ := hfind h ((hmember h).mpr ⟨n, hn⟩)
      rw [block?_ofNodes, hn, Option.map_some] at hb
      cases hb
      exact hid
    constructor
    · intro i j a b hij ha hb
      rw [List.getElem?_map, Option.map_eq_some_iff] at ha hb
      obtain ⟨m, hm, rfl⟩ := ha
      obtain ⟨n, hn, rfl⟩ := hb
      exact ((findId?_ofNodes nodes _ j).mp (hfound j n hn)).2 i hij m hm
    · intro id hid
      obtain ⟨n, hn, rfl⟩ := List.mem_map.mp hid
      obtain ⟨h, hh⟩ := List.mem_iff_getElem?.mp hn
      obtain ⟨m, hm, hequal⟩ := ((findId?_ofNodes nodes _ h).mp (hfound h n hh)).1
      rw [hh] at hm
      cases hm
      exact (Value.equals_self_iff _).mp hequal
  · rintro ⟨hapart, hnan⟩ h hmem
    obtain ⟨n, hn⟩ := (hmember h).mp hmem
    refine ⟨n.block, by rw [block?_ofNodes, hn]; rfl, ?_⟩
    refine (findId?_ofNodes nodes _ h).mpr ⟨⟨n, hn, ?_⟩, ?_⟩
    · exact (Value.equals_self_iff _).mpr
        (hnan _ (List.mem_map.mpr ⟨n, List.mem_iff_getElem?.mpr ⟨h, hn⟩, rfl⟩))
    · intro j hj m hm
      exact hapart j h _ _ hj (by rw [List.getElem?_map, hm]; rfl)
        (by rw [List.getElem?_map, hn]; rfl)

theorem no_nan_numbered (given : List Value) :
    (∀ id ∈ numbered 0 given, id ≠ .float .nan) ↔ ∀ id ∈ given, id ≠ .float .nan := by
  constructor
  · intro h id hid hnan
    obtain ⟨k, hk⟩ := List.mem_iff_getElem?.mp hid
    have hk' := numbered_given hk (by rw [hnan]; intro h; cases h)
    exact h id (List.mem_iff_getElem?.mpr ⟨k, hk'⟩) hnan
  · intro h id hid hnan
    obtain ⟨k, hk⟩ := List.mem_iff_getElem?.mp hid
    rcases numbered_at hk with ⟨-, heq⟩ | ⟨hgiven, -⟩
    · rw [hnan] at heq
      cases heq
    · exact h id (List.mem_iff_getElem?.mpr ⟨k, hgiven⟩) hnan

/-! ## The ids of trees -/

theorem Chain.ids_nodes (c : Chain) (parent : Option Nat) (start : Nat) :
    (c.nodes parent start).map (·.block.id) = numbered start c.ids := by
  induction c using Chain.inductionOn generalizing parent start with
  | nil => rfl
  | cons b inputs next hin hnext =>
    have hinputs : ∀ host start,
        (inputs.nodes host start).map (·.block.id) = numbered start inputs.ids := by
      intro host
      clear hnext
      induction inputs using Inputs.inductionOn with
      | nil =>
        intro start
        rfl
      | cons name kind target rest ih =>
        intro start
        rw [Inputs.nodes, List.map_append, hin.1, ih hin.2, Document.Inputs.ids_cons,
          numbered_append]
        rw [show target.ids.length = target.blocks.length from List.length_map _]
    rw [Chain.nodes, List.map_cons, List.map_append, hinputs, hnext, Document.Chain.ids_cons,
      numbered_cons, numbered_append]
    rw [show inputs.ids.length = inputs.blocks.length from List.length_map _]
    rfl

theorem ids_forest (start : Nat) (trees : List Chain) :
    (forest start trees).map (·.block.id) = numbered start (trees.flatMap Chain.ids) := by
  induction trees generalizing start with
  | nil => rfl
  | cons c rest ih =>
    rw [forest, List.map_append, Chain.ids_nodes, ih, List.flatMap_cons, numbered_append]
    rw [show c.ids.length = c.blocks.length from List.length_map _]

/-- Ids that can be claimed one after the other are keys and are told apart. -/
theorem claims_apart {seen ids all : List Value} (h : Document.claims seen ids = some all) :
    GivenApart ids ∧ ∀ id ∈ ids, id ≠ .null → id.isKey = true ∧ ∀ s ∈ seen, id.same s = false := by
  induction ids generalizing seen with
  | nil => exact ⟨List.Pairwise.nil, fun id hid => absurd hid (List.not_mem_nil)⟩
  | cons id rest ih =>
    unfold Document.claims at h
    split at h
    · rename_i hnull
      have hid := (Value.isNull_iff id).mp hnull
      obtain ⟨hrest, hkeys⟩ := ih h
      refine ⟨List.pairwise_cons.mpr ⟨fun v _ hne => absurd hid hne, hrest⟩, ?_⟩
      intro v hv hne
      rcases List.mem_cons.mp hv with rfl | hv
      · exact absurd hid hne
      · exact hkeys v hv hne
    · split at h
      · rename_i hnull hfree
        rw [Bool.and_eq_true, Bool.not_eq_true', List.any_eq_false] at hfree
        obtain ⟨hkey, hfree⟩ := hfree
        obtain ⟨hrest, hkeys⟩ := ih h
        refine ⟨List.pairwise_cons.mpr ⟨?_, hrest⟩, ?_⟩
        · intro v hv _ hne
          have hother := (hkeys v hv hne).2 id List.mem_cons_self
          by_contra hequal
          rw [Bool.not_eq_false] at hequal
          have hsame : id.same v = true := by
            unfold Value.equals at hequal
            split at hequal
            · cases hequal
            · exact hequal
          rw [Value.same_symm_of_key id v hkey hsame] at hother
          cases hother
        · intro v hv hne
          rcases List.mem_cons.mp hv with rfl | hv
          · exact ⟨hkey, fun s hs => by simpa using hfree s hs⟩
          · exact ⟨(hkeys v hv hne).1, fun s hs => (hkeys v hv hne).2 s (List.mem_cons_of_mem _ hs)⟩
      · cases h

/-- The ids that the entries of a document bring along, in the order of reading. -/
def Document.givenIds (d : Value) : List Value := ((outlines d).getD []).flatMap Chain.ids

theorem ids_load {d : Value} {w : Workspace} (h : Document.load d = .ok w) :
    ∃ nodes, w = ofNodes nodes ∧ w.ids = numbered 0 (Document.givenIds d) ∧
      GivenApart (Document.givenIds d) := by
  obtain ⟨trees, seen, hout, hclaim, rfl⟩ := Document.load_ok h
  have hgiven : Document.givenIds d = trees.flatMap Chain.ids := by
    unfold Document.givenIds
    rw [hout]
    rfl
  refine ⟨_, rfl, ?_, ?_⟩
  · rw [ids_ofNodes, ids_forest, hgiven]
  · rw [hgiven]
    exact (claims_apart hclaim).1

/-! ## The ids of blocks that are made one by one -/

namespace Workspace

theorem made_after (nodes : List Node) (blocks : List Block) :
    ∃ more, blocks.foldl (fun w b => (w.newBlock b).1) (ofNodes nodes) = ofNodes (nodes ++ more) ∧
      more.map (·.block.id) = numbered nodes.length (blocks.map (·.id)) := by
  induction blocks generalizing nodes with
  | nil => exact ⟨[], by rw [List.append_nil]; rfl, rfl⟩
  | cons b rest ih =>
    obtain ⟨more, hmade, hids⟩ := ih (nodes ++ [{ block := b.placed nodes.length }])
    refine ⟨{ block := b.placed nodes.length } :: more, ?_, ?_⟩
    · rw [List.foldl_cons, newBlock_ofNodes, hmade, List.append_assoc, List.singleton_append]
    · rw [List.map_cons, List.map_cons, hids, numbered_cons, List.length_append,
        List.length_singleton]
      rfl

theorem made_ofNodes (blocks : List Block) :
    ∃ nodes, made blocks = ofNodes nodes ∧
      nodes.map (·.block.id) = numbered 0 (blocks.map (·.id)) :=
  made_after [] blocks

/-- Every id that is given is new when its block is made. -/
def NewWhenMade (blocks : List Block) : Prop :=
  ∀ before b after, blocks = before ++ b :: after → b.id ≠ .null →
    ∀ id ∈ (made before).ids, id.equals b.id = false

theorem givenApart_of_new {blocks : List Block} (h : NewWhenMade blocks) :
    GivenApart (blocks.map (·.id)) := by
  refine pairwise_iff_places.mpr ?_
  intro i j a b hij ha hb hane hbne
  rw [List.getElem?_map, Option.map_eq_some_iff] at hb
  obtain ⟨later, hlater, rfl⟩ := hb
  obtain ⟨hj, rfl⟩ := List.getElem?_eq_some_iff.mp hlater
  have hsplit : blocks = blocks.take j ++ blocks[j] :: blocks.drop (j + 1) := by
    rw [← List.drop_eq_getElem_cons hj, List.take_append_drop]
  obtain ⟨nodes, hmade, hids⟩ := made_ofNodes (blocks.take j)
  apply h _ _ _ hsplit hbne
  rw [hmade, ids_ofNodes, hids]
  apply List.mem_iff_getElem?.mpr
  refine ⟨i, numbered_given ?_ hane⟩
  rw [List.map_take, List.getElem?_take, if_pos hij]
  exact ha

end Workspace

/-! ## When ids identify blocks -/

/-- Blocks have ids of their own exactly when no given id is made up for another block,
and they are found under them when none is NaN besides. It is so for documents, which
refuse an id that is given twice, and for blocks that are made one by one. -/
theorem ids_identify_iff (d : Value) (w : Workspace) (blocks : List Block) :
    (Document.load d = .ok w →
      (w.Distinct ↔ ¬ Clashes (Document.givenIds d)) ∧
      (w.Findable ↔ ¬ Clashes (Document.givenIds d) ∧
        ∀ id ∈ Document.givenIds d, id ≠ .float .nan)) ∧
    (NewWhenMade blocks →
      ((made blocks).Distinct ↔ ¬ Clashes (blocks.map (·.id))) ∧
      ((made blocks).Findable ↔ ¬ Clashes (blocks.map (·.id)) ∧
        ∀ id ∈ blocks.map (·.id), id ≠ .float .nan)) := by
  have hboth : ∀ nodes given, (ofNodes nodes).ids = numbered 0 given → GivenApart given →
      ((ofNodes nodes).Distinct ↔ ¬ Clashes given) ∧
      ((ofNodes nodes).Findable ↔ ¬ Clashes given ∧ ∀ id ∈ given, id ≠ .float .nan) := by
    intro nodes given hids hgiven
    have hdistinct : (ofNodes nodes).Distinct ↔ ¬ Clashes given := by
      unfold Distinct
      rw [hids]
      exact numbered_apart_iff hgiven
    refine ⟨hdistinct, ?_⟩
    rw [findable_iff, hdistinct, hids, no_nan_numbered]
  constructor
  · intro h
    obtain ⟨nodes, rfl, hids, hgiven⟩ := ids_load h
    exact hboth nodes _ hids hgiven
  · intro hnew
    obtain ⟨nodes, hmade, hids⟩ := made_ofNodes blocks
    rw [hmade]
    exact hboth nodes _ (by rw [ids_ofNodes, hids]) (givenApart_of_new hnew)

/-- Two entries, of which the second brings an id along. -/
def twoEntries (id : String) : Value :=
  .table [(.str "blocks", .list
    [.table [(.str "type", .str "a")], .table [(.str "type", .str "b"), (.str "id", .str id)]])]

def twoNodes (id : String) : List Node :=
  [{ block := { handle := 0, type := .str "a", id := generatedId 0 } },
    { block := { handle := 1, type := .str "b", id := .str id } }]

theorem load_twoEntries (id : String) :
    Document.load (twoEntries id) = .ok (ofNodes (twoNodes id)) := rfl

theorem loop_not_generated (k : Nat) : .str "loop" ≠ generatedId k := by
  intro h
  unfold generatedId at h
  rw [Value.str.injEq] at h
  have := congrArg (·.toList.head?) h
  simp at this

/-- With an id of its own the second block is told apart from the first. -/
theorem loop_identified :
    Document.load (twoEntries "loop") = .ok (ofNodes (twoNodes "loop")) ∧
      (ofNodes (twoNodes "loop")).Distinct ∧ (ofNodes (twoNodes "loop")).Findable ∧
      NewWhenMade [{}, { id := .str "loop" }] ∧ (made [{}, { id := .str "loop" }]).Distinct := by
  have hno : ¬ Clashes [.null, .str "loop"] := by
    rintro ⟨k, -, hmem⟩
    rcases List.mem_cons.mp hmem with h | h
    · cases h
    · exact loop_not_generated k (List.mem_singleton.mp h).symm
  have hnan : ∀ id ∈ [.null, .str "loop"], id ≠ Value.float .nan := by
    intro id hid h
    subst h
    simp at hid
  have hnew : NewWhenMade [{}, { id := .str "loop" }] := by
    rintro before b after hsplit hne id hid
    rcases before with _ | ⟨x, _ | ⟨y, rest⟩⟩
    · cases hsplit
      exact absurd rfl hne
    · cases hsplit
      rw [show (made [{}]).ids = [generatedId 0] from rfl, List.mem_singleton] at hid
      subst hid
      rcases h : (generatedId 0).equals (.str "loop") with _ | _
      · rfl
      · exact absurd ((generatedId_equals _ 0).mp h) (loop_not_generated 0)
    · have hlength := congrArg List.length hsplit
      simp only [List.length_append, List.length_cons, List.length_nil] at hlength
      omega
  obtain ⟨hloaded, hmade⟩ := ids_identify_iff (twoEntries "loop") (ofNodes (twoNodes "loop"))
    [{}, { id := .str "loop" }]
  obtain ⟨hdistinct, hfindable⟩ := hloaded (load_twoEntries "loop")
  exact ⟨load_twoEntries "loop", hdistinct.mpr hno, hfindable.mpr ⟨hno, hnan⟩, hnew,
    (hmade hnew).1.mpr hno⟩

/-- The id "b1" is made up for the first block although the second brings it along, and
the second block is not found under it. -/
theorem made_up_id_is_given :
    Document.load (twoEntries "b1") = .ok (ofNodes (twoNodes "b1")) ∧
      ¬ (ofNodes (twoNodes "b1")).Distinct ∧ ¬ (ofNodes (twoNodes "b1")).Findable := by
  have hequal : (generatedId 0).equals (.str "b1") = true :=
    (generatedId_equals _ 0).mpr (congrArg Value.str (by decide))
  have hno : ¬ (ofNodes (twoNodes "b1")).Distinct := by
    intro h
    unfold Distinct at h
    rw [ids_ofNodes] at h
    rw [show (twoNodes "b1").map (·.block.id) = [generatedId 0, .str "b1"] from rfl] at h
    rw [List.rel_of_pairwise_cons h List.mem_cons_self] at hequal
    cases hequal
  refine ⟨load_twoEntries "b1", hno, ?_⟩
  intro h
  exact hno ((findable_iff _).mp h).1

end BlockCode
