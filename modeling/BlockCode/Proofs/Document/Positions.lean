-- The places in a document where a block can stand: in its list, in an input, and behind
-- another. Every value that is read at such a place is an entry, and becomes one block. Only
-- behind another are there values that are passed over: those that count as false.
import BlockCode.Proofs.Document.Growth
import BlockCode.Proofs.Document.Stumbling

namespace BlockCode.Document

/-! ## Induction over the entries of a value -/

/-- Induction on what stands in an entry: a property of all that is plugged in and of what
comes behind may be used. -/
@[elab_as_elim]
theorem entryInduction {P : Value → Prop} (other : ∀ v, isTable v = false → P v)
    (table : ∀ entries, (∀ e ∈ held entries "inputs", P e.2) →
      (∀ e ∈ held entries "statements", P e.2) → P (part entries "next" .null) →
      P (.table entries)) : ∀ v, P v
  | .table entries =>
    table entries (fun e _ => entryInduction other table e.2)
      (fun e _ => entryInduction other table e.2)
      (entryInduction other table (part entries "next" .null))
  | .null => other .null rfl
  | .bool b => other (.bool b) rfl
  | .int i => other (.int i) rfl
  | .float x => other (.float x) rfl
  | .str s => other (.str s) rfl
  | .torn t => other (.torn t) rfl
  | .list items => other (.list items) rfl
  | .tuple items => other (.tuple items) rfl
termination_by v => sizeOf v
decreasing_by
  · rename_i hmem
    have hheld := sizeOf_held entries "inputs"
    have hentry := List.sizeOf_lt_of_mem hmem
    rcases e with ⟨name, v⟩
    simp only [Prod.mk.sizeOf_spec] at hentry ⊢
    omega
  · rename_i hmem
    have hheld := sizeOf_held entries "statements"
    have hentry := List.sizeOf_lt_of_mem hmem
    rcases e with ⟨name, v⟩
    simp only [Prod.mk.sizeOf_spec] at hentry ⊢
    omega
  · exact sizeOf_part entries "next"

/-! ## Places -/

section Positions

variable (counts : Value → Bool)

mutual
/-- The values at the places for blocks in a value at such a place, itself the first. A value
in an input has a place unless it is nothing; `counts` says which values have one behind a
block. -/
def positions : Value → List Value
  | .table entries => .table entries ::
    (positionsIn (held entries "inputs") ++ (positionsIn (held entries "statements") ++
      if counts (part entries "next" .null) then positions (part entries "next" .null) else []))
  | v => [v]
termination_by v => sizeOf v
decreasing_by
  · exact sizeOf_held entries "inputs"
  · exact sizeOf_held entries "statements"
  · exact sizeOf_part entries "next"

def positionsIn : Entries → List Value
  | [] => []
  | (_, v) :: rest => (if v.isNull then [] else positions v) ++ positionsIn rest
termination_by entries => sizeOf entries
decreasing_by
  · simp only [List.cons.sizeOf_spec, Prod.mk.sizeOf_spec]
    omega
  · simp only [List.cons.sizeOf_spec, Prod.mk.sizeOf_spec]
    omega
end

/-- The values at the places for blocks in a document. -/
def allPositions (d : Value) : List Value := (listed d).flatMap (positions counts)

end Positions

theorem positions_other {v : Value} (h : isTable v = false) (counts : Value → Bool) :
    positions counts v = [v] := by
  cases v with
  | table entries => cases h
  | _ =>
    rw [positions]
    nofun

/-- Something stands there. -/
def isThere (v : Value) : Bool := !v.isNull

/-- What stands behind a block and is passed over: it is there, but counts as false. -/
def passedOver : Value → Option Value
  | .table entries =>
    let next := part entries "next" .null
    if isThere next && !next.truth then some next else none
  | _ => none

theorem isThere_of_truth {v : Value} (h : v.truth = true) : isThere v = true := by
  cases v with
  | null => cases h
  | _ => rfl

/-- What counts as false is no entry with a type, and has no other places in it. -/
theorem of_passedOver {v next : Value} (h : passedOver v = some next) :
    isTyped next = false ∧ positions isThere next = [next] := by
  have hfalse : next.truth = false := by
    unfold passedOver at h
    split at h
    · simp only at h
      split at h
      · rename_i hcond
        cases h
        exact Bool.eq_false_iff.mpr (by simpa using (Bool.and_eq_true_iff.mp hcond).2)
      · cases h
    · cases h
  cases next with
  | table entries =>
    cases entries with
    | nil =>
      refine ⟨rfl, ?_⟩
      rw [positions]
      simp [held, part, isThere, Value.isNull, positionsIn]
    | cons e rest => cases hfalse
  | _ => exact ⟨rfl, positions_other rfl isThere⟩

/-! ## What is passed over -/

theorem perm_split {α : Type} {left left' more right right' more' : List α}
    (h : left.Perm (left' ++ more)) (h' : right.Perm (right' ++ more')) :
    (left ++ right).Perm (left' ++ right' ++ (more ++ more')) := by
  calc (left ++ right).Perm (left' ++ more ++ (right' ++ more')) := h.append h'
    _ = left' ++ (more ++ (right' ++ more')) := List.append_assoc ..
    _ |>.Perm (left' ++ (right' ++ (more ++ more'))) :=
      (List.perm_append_comm_assoc more right' more').append_left left'
    _ = left' ++ right' ++ (more ++ more') := (List.append_assoc ..).symm

/-- The values at all places in the value are those that are read and those that are passed
over. -/
def ReadOrPassed (v : Value) : Prop := (positions isThere v).Perm
  (positions Value.truth v ++ (positions Value.truth v).filterMap passedOver)

theorem readOrPassed_in {entries : Entries} (h : ∀ e ∈ entries, ReadOrPassed e.2) :
    (positionsIn isThere entries).Perm (positionsIn Value.truth entries ++
      (positionsIn Value.truth entries).filterMap passedOver) := by
  induction entries with
  | nil =>
    rw [positionsIn, positionsIn]
    exact List.Perm.nil
  | cons e rest ih =>
    rcases e with ⟨name, v⟩
    have hrest := ih fun e he => h e (List.mem_cons_of_mem _ he)
    have hv : ReadOrPassed v := h (name, v) List.mem_cons_self
    rw [positionsIn, positionsIn, List.filterMap_append]
    split
    · exact perm_split List.Perm.nil hrest
    · exact perm_split hv hrest

theorem readOrPassed (v : Value) : ReadOrPassed v := by
  induction v using entryInduction with
  | other v hv =>
    unfold ReadOrPassed
    rw [positions_other hv, positions_other hv]
    have hnone : passedOver v = none := by
      cases v with
      | table entries => cases hv
      | _ => rfl
    simp [hnone]
  | table entries hinputs hstatements hnext =>
    have hsome := @of_passedOver (.table entries)
    have hbehind : (if isThere (part entries "next" .null)
        then positions isThere (part entries "next" .null) else []).Perm
        ((if (part entries "next" .null).truth
          then positions Value.truth (part entries "next" .null) else []) ++
          ((passedOver (.table entries)).toList ++
            (if (part entries "next" .null).truth
              then positions Value.truth (part entries "next" .null) else []).filterMap
                passedOver)) := by
      unfold passedOver at hsome ⊢
      simp only at hsome ⊢
      generalize part entries "next" .null = next at hnext hsome ⊢
      rcases htruth : next.truth with _ | _
      · rcases hthere : isThere next with _ | _
        · exact List.Perm.nil
        · have hdropped : (if (isThere next && !next.truth) = true then some next else none) =
              some next := by simp [htruth, hthere]
          rw [(hsome hdropped).2]
          exact List.Perm.refl _
      · simp only [isThere_of_truth htruth, if_true, Bool.not_true, Bool.and_false,
          Bool.false_eq_true, if_false]
        exact hnext
    have hall := perm_split (readOrPassed_in hinputs) (perm_split (readOrPassed_in hstatements) hbehind)
    unfold ReadOrPassed
    rw [positions, positions, List.cons_append, List.filterMap_cons]
    refine List.Perm.cons _ (hall.trans (List.Perm.append_left _ ?_))
    rcases passedOver (.table entries) with _ | next
    · simp only [List.filterMap_append]
      exact List.Perm.refl _
    · simp only [List.filterMap_append, Option.toList_some, List.singleton_append]
      rw [← List.append_assoc, ← List.append_assoc]
      exact List.perm_middle

theorem perm_allPositions (d : Value) : (allPositions isThere d).Perm
    (allPositions Value.truth d ++ (allPositions Value.truth d).filterMap passedOver) := by
  unfold allPositions
  induction listed d with
  | nil => exact List.Perm.nil
  | cons v rest ih =>
    rw [List.flatMap_cons, List.flatMap_cons, List.filterMap_append]
    exact perm_split (readOrPassed v) ih

/-! ## What is read -/

/-- The values at the places that are read are entries, and the tree has a block for each. -/
structure Filled (read : List Value) (blocks : List Block) : Prop where
  typed : ∀ v ∈ read, isTyped v = true
  length : blocks.length = read.length

namespace Filled

theorem nil : Filled [] [] := ⟨List.forall_mem_nil _, rfl⟩

theorem append {read read' : List Value} {blocks blocks' : List Block} (h : Filled read blocks)
    (h' : Filled read' blocks') : Filled (read ++ read') (blocks ++ blocks') :=
  ⟨List.forall_mem_append.mpr ⟨h.typed, h'.typed⟩, by
    rw [List.length_append, List.length_append, h.length, h'.length]⟩

theorem cons {v : Value} {b : Block} {read : List Value} {blocks : List Block}
    (hv : isTyped v = true) (h : Filled read blocks) : Filled (v :: read) (b :: blocks) :=
  ⟨List.forall_mem_cons.mpr ⟨hv, h.typed⟩, by rw [List.length_cons, List.length_cons, h.length]⟩

end Filled

/-- If the value is read as an entry, every place in it is filled. -/
def Fills (v : Value) : Prop :=
  ∀ c, outline v = some c → Filled (positions Value.truth v) c.blocks

theorem fills_slots {entries : Entries} (h : ∀ e ∈ entries, Fills e.2) {kind : SlotKind}
    {inputs : Inputs} (hout : outlineSlots entries kind = some inputs) :
    Filled (positionsIn Value.truth entries) inputs.blocks := by
  induction entries generalizing inputs with
  | nil =>
    rw [outlineSlots] at hout
    cases hout
    rw [positionsIn]
    exact Filled.nil
  | cons e rest ih =>
    rcases e with ⟨name, v⟩
    have hv : Fills v := h (name, v) List.mem_cons_self
    have hrest : ∀ e ∈ rest, Fills e.2 := fun e he => h e (List.mem_cons_of_mem _ he)
    rw [outlineSlots] at hout
    rw [positionsIn]
    split at hout
    · rename_i hnull
      obtain ⟨others, hothers, rfl⟩ := Option.map_eq_some_iff.mp hout
      rw [if_pos hnull]
      exact Filled.nil.append (ih hrest hothers)
    · rename_i hnull
      obtain ⟨target, htarget, hout⟩ := Option.bind_eq_some_iff.mp hout
      obtain ⟨others, hothers, rfl⟩ := Option.map_eq_some_iff.mp hout
      rw [if_neg hnull]
      exact (hv target htarget).append (ih hrest hothers)

theorem outlineSlots_of_sketched {entries : Entries} {name : String} {kind : SlotKind}
    {inputs : Inputs} (h : sketched (sketches entries) name .nil (·.slots kind) = some inputs) :
    outlineSlots (held entries name) kind = some inputs := by
  rw [sketched_eq] at h
  unfold held part
  rcases hget : Entries.get? entries (.str name) with _ | v
  · rw [hget] at h
    exact h
  · rw [hget] at h
    cases v with
    | table inner => exact h
    | _ => cases h

theorem fills_next {entries : Entries} (h : Fills (part entries "next" .null)) {next : Chain}
    (hout : outlineNext entries (sketches entries) = some next) :
    Filled (if (part entries "next" .null).truth
      then positions Value.truth (part entries "next" .null) else []) next.blocks := by
  unfold outlineNext at hout
  split at hout
  · rename_i htruth
    rw [sketched_eq] at hout
    rw [if_pos htruth]
    unfold part at h htruth ⊢
    rcases hget : Entries.get? entries (.str "next") with _ | v
    · rw [hget] at htruth
      cases htruth
    · rw [hget] at hout h
      exact h next hout
  · rename_i htruth
    rw [if_neg htruth]
    cases hout
    exact Filled.nil

theorem fills (v : Value) : Fills v := by
  induction v using entryInduction with
  | other v hv =>
    intro c hc
    cases v with
    | table entries => cases hv
    | _ => cases hc
  | table entries hinputs hstatements hnext =>
    intro c hc
    rw [outline, outlineEntry] at hc
    simp only [Option.bind_eq_bind, Option.bind_eq_some_iff, pure, Option.some.injEq] at hc
    obtain ⟨type, htype, b, -, values, hvalues, statements, hstmts, next, hout, rfl⟩ := hc
    have htyped : isTyped (.table entries) = true := by
      show (Entries.get? entries (.str "type")).isSome = true
      rw [htype]
      rfl
    rw [positions, Chain.blocks, Inputs.blocks_append, List.append_assoc]
    exact Filled.cons htyped <| (fills_slots hinputs (outlineSlots_of_sketched hvalues)).append <|
      (fills_slots hstatements (outlineSlots_of_sketched hstmts)).append (fills_next hnext hout)

/-! ## Documents -/

theorem length_forest (start : Nat) (trees : List Chain) :
    (Workspace.forest start trees).length = (trees.flatMap Chain.blocks).length := by
  induction trees generalizing start with
  | nil => rfl
  | cons c rest ih =>
    rw [Workspace.forest, List.flatMap_cons, List.length_append, List.length_append, ih,
      Chain.length_nodes]

theorem mapM_listed {d : Value} {trees : List Chain} (h : outlines d = some trees) :
    (listed d).mapM outline = some trees := by
  cases d with
  | table entries =>
    simp only [outlines] at h
    simp only [listed]
    generalize part entries "blocks" (.list []) = blocks at h ⊢
    cases blocks with
    | list values => exact h
    | _ => cases h
  | _ => cases h

theorem filled_outlines {d : Value} {trees : List Chain} (h : outlines d = some trees) :
    Filled (allPositions Value.truth d) (trees.flatMap Chain.blocks) := by
  have hall : ∀ (entries : List Value) (found : List Chain), entries.mapM outline = some found →
      Filled (entries.flatMap (positions Value.truth)) (found.flatMap Chain.blocks) := by
    intro entries
    induction entries with
    | nil =>
      intro found hfound
      cases hfound
      exact Filled.nil
    | cons v rest ih =>
      intro found hfound
      rw [List.mapM_cons] at hfound
      obtain ⟨first, hfirst, hfound⟩ := Option.bind_eq_some_iff.mp hfound
      obtain ⟨others, hothers, hfound⟩ := Option.bind_eq_some_iff.mp hfound
      cases hfound
      exact (fills v first hfirst).append (ih others hothers)
  exact hall _ trees (mapM_listed h)

/-- In a document that is loaded, the values at all places for blocks that are read are entries
with a type, and each becomes one block. So all values at places for blocks are entries, and
there are as many as blocks, unless something stands behind an entry that counts as false:
that is passed over. -/
theorem places_filled_iff {d : Value} {w : Workspace} (h : load d = .ok w) :
    (∀ v ∈ allPositions Value.truth d, isTyped v = true) ∧
    w.size = (allPositions Value.truth d).length ∧
    ((∀ v ∈ allPositions isThere d, isTyped v = true) ↔
      ∀ v ∈ allPositions Value.truth d, passedOver v = none) ∧
    (w.size = (allPositions isThere d).length ↔
      ∀ v ∈ allPositions Value.truth d, passedOver v = none) := by
  obtain ⟨trees, seen, hout, -, rfl⟩ := load_ok h
  have hfilled := filled_outlines hout
  have hperm := perm_allPositions d
  have hsize : (Workspace.ofNodes (Workspace.forest 0 trees)).size =
      (allPositions Value.truth d).length := by
    unfold Workspace.size Workspace.ofNodes
    rw [List.length_range, length_forest, hfilled.length]
  have hnone : (∀ v ∈ allPositions Value.truth d, passedOver v = none) ↔
      (allPositions Value.truth d).filterMap passedOver = [] := List.filterMap_eq_nil_iff.symm
  refine ⟨hfilled.typed, hsize, ?_, ?_⟩
  · constructor
    · intro htyped v hv
      rcases hover : passedOver v with _ | next
      · rfl
      · have hnext : next ∈ allPositions isThere d :=
          hperm.mem_iff.mpr (List.mem_append_right _ (List.mem_filterMap.mpr ⟨v, hv, hover⟩))
        exact absurd (htyped next hnext) (by simp [(of_passedOver hover).1])
    · intro hover v hv
      have hread := hperm.mem_iff.mp hv
      rw [hnone.mp hover, List.append_nil] at hread
      exact hfilled.typed v hread
  · rw [hnone, hsize, hperm.length_eq, List.length_append, ← List.length_eq_zero_iff]
    omega

/-- A document with two blocks, the one behind the other. -/
def twoInLine : Value :=
  .table [(.str "blocks", .list [.table [(.str "type", .str "a"),
    (.str "next", .table [(.str "type", .str "b")])]])]

theorem twoInLine_filled : ∃ w, load twoInLine = .ok w ∧ w.size = 2 ∧
    w.size = (allPositions Value.truth twoInLine).length :=
  ⟨_, rfl, rfl, (places_filled_iff (d := twoInLine) rfl).2.1⟩

/-- An empty object behind an entry is no entry, and yet the document is loaded, without it. -/
theorem empty_next_passed_over :
    ∃ w, load (oneEntry "next" (.table [])) = .ok w ∧ w.size = 1 ∧ ∃ first,
      allPositions isThere (oneEntry "next" (.table [])) = [first, .table []] ∧
      isTyped (.table []) = false := by
  refine ⟨_, rfl, rfl, .table [(.str "type", .str "a"), (.str "next", .table [])], ?_, rfl⟩
  have hover : passedOver (.table [(.str "type", .str "a"), (.str "next", .table [])]) =
      some (.table []) := rfl
  show positions isThere (.table [(.str "type", .str "a"), (.str "next", .table [])]) ++ [] = _
  rw [positions, List.append_nil]
  show _ :: (positionsIn isThere [] ++ (positionsIn isThere [] ++ positions isThere (.table []))) = _
  rw [(of_passedOver hover).2, positionsIn]
  rfl

end BlockCode.Document
