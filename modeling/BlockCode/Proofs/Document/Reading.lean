-- Reading an entry is to find its tree, to claim its ids and to grow it. An entry that
-- describes no tree, or an id that cannot be claimed, ends the reading.
import BlockCode.Proofs.Document.Outline

namespace BlockCode.Document

/-! ## One step of a builder -/

section Steps

variable {σ ε α β : Type}

theorem toOption_bind (x : StateT σ (Except ε) α) (f : α → StateT σ (Except ε) β) (s : σ) :
    ((x >>= f) s).toOption = (x s).toOption.bind fun r => (f r.1 r.2).toOption := by
  show ((x s).bind fun r => f r.1 r.2).toOption = _
  rcases x s with fault | r
  · rfl
  · rfl

theorem toOption_pure (a : α) (s : σ) :
    ((pure a : StateT σ (Except ε) α) s).toOption = some (a, s) := rfl

theorem toOption_map (x : Except ε α) (f : α → β) :
    (x.bind fun a => .ok (f a)).toOption = x.toOption.map f := by
  rcases x with fault | a
  · rfl
  · rfl

end Steps

theorem change_run (f : Workspace → Workspace) (b : Building) :
    (change f b).toOption = some ((), { b with workspace := f b.workspace }) := rfl

theorem claimId_run (id : Value) (b : Building) :
    (claimId id b).toOption = (claims b.seen [id]).map fun seen => ((), { b with seen }) := by
  unfold claimId
  simp only [claims]
  rcases id.isNull with _ | _
  · rcases id.isKey with _ | _
    · rfl
    · simp only [Bool.false_eq_true, if_false, Bool.not_true, Bool.true_and]
      rw [toOption_bind]
      -- The builder looks at what is seen, and the claim does.
      show ((if b.seen.any (id.same ·) then _ else _ : Builder Unit) b).toOption = _
      rcases b.seen.any (id.same ·) with _ | _
      · rfl
      · rfl
  · rfl

theorem makeBlock_run (entries : Entries) (type : Value) (b : Building) :
    (makeBlock entries type b).toOption =
      (rawBlock entries type).bind fun raw => (claims b.seen [raw.id]).map fun seen =>
        (b.workspace.nodes.length, { workspace := (b.workspace.newBlock raw).1, seen }) := by
  unfold makeBlock rawBlock
  rw [toOption_bind, claimId_run]
  rcases hf : fields (part entries "fields" (.table [])) with fault | fields
  · rcases claims b.seen [part entries "id" .null] with _ | seen
    · rfl
    · rfl
  · rcases hc : claims b.seen [part entries "id" .null] with _ | seen
    · simp [Except.toOption, hc]
    · simp only [Except.toOption, Option.map_some, Option.bind_some, pure, bind, hc]
      rfl

/-! ## What stands under a name -/

theorem find_contents (entries : Entries) (key : Value) :
    (contents entries).find? (·.1.same key) =
      (entries.find? (·.1.same key)).map fun e =>
        (e.1, { block := readBlock e.2, slots := readInputs e.2 }) := by
  induction entries with
  | nil => rfl
  | cons e rest ih =>
    rcases e with ⟨name, v⟩
    rw [contents, List.find?_cons, List.find?_cons]
    rcases name.same key with _ | _
    · exact ih
    · rfl

/-! ## Trees -/

/-- Reading the value as an entry is to claim the ids of its tree and to grow it. -/
def Follows (v : Value) : Prop := ∀ b : Building,
  (readBlock v b).toOption = (outline v).bind fun c => (claims b.seen c.ids).map fun seen =>
    (b.workspace.nodes.length, { workspace := b.workspace.grow c, seen })

/-- Reading the value as the inputs of a block is to claim their ids and to grow them. -/
def FollowsInputs (v : Value) : Prop := ∀ kind h (b : Building),
  (readInputs v kind h b).toOption = (outlineInputs v kind).bind fun inputs =>
    (claims b.seen inputs.ids).map fun seen =>
      ((), { workspace := b.workspace.growInputs h inputs, seen })

theorem Chain.ids_cons (b : Block) (inputs : Inputs) (next : Chain) :
    (Chain.cons b inputs next).ids = b.id :: (inputs.ids ++ next.ids) := by
  simp only [Chain.ids, Inputs.ids, Chain.blocks, List.map_cons, List.map_append]

theorem Inputs.ids_cons (name : Value) (kind : SlotKind) (target : Chain) (rest : Inputs) :
    (Inputs.cons name kind target rest).ids = target.ids ++ rest.ids := by
  simp only [Chain.ids, Inputs.ids, Inputs.blocks, List.map_append]

theorem readSlots_run (entries : Entries) (h : ∀ e ∈ entries, Follows e.2) (kind : SlotKind)
    (host : Nat) (b : Building) :
    (readSlots entries kind host b).toOption = (outlineSlots entries kind).bind fun inputs =>
      (claims b.seen inputs.ids).map fun seen =>
        ((), { workspace := b.workspace.growInputs host inputs, seen }) := by
  induction entries generalizing b with
  | nil => rfl
  | cons e rest ih =>
    rcases e with ⟨name, v⟩
    have hrest := ih fun e he => h e (List.mem_cons_of_mem _ he)
    have hv := h (name, v) List.mem_cons_self
    rw [readSlots, outlineSlots]
    rcases hnull : v.isNull with _ | _
    · simp only [Bool.false_eq_true, if_false]
      rw [toOption_bind, hv b]
      rcases hout : outline v with _ | target
      · rfl
      · have hne := outline_not_empty hout
        simp only [Option.bind_some]
        rcases hclaim : claims b.seen target.ids with _ | seen
        · rcases outlineSlots rest kind with _ | inputs
          · rfl
          · simp only [Option.map_some, Option.bind_some, Inputs.ids_cons, claims_append, hclaim]
            rfl
        · simp only [Option.map_some, Option.bind_some, toOption_bind, change_run, hrest]
          rcases outlineSlots rest kind with _ | inputs
          · rfl
          · simp only [Option.map_some, Option.bind_some, Inputs.ids_cons, claims_append, hclaim,
              Workspace.growInputs, hne, Bool.false_eq_true, if_false]
    · simp only [if_true]
      rw [toOption_bind, change_run]
      simp only [Option.bind_some, hrest]
      rcases outlineSlots rest kind with _ | inputs
      · rfl
      · rfl

theorem followsInputs (v : Value) (h : ∀ entries, v = .table entries → ∀ e ∈ entries, Follows e.2) :
    FollowsInputs v := by
  intro kind host b
  cases v with
  | table entries =>
    rw [readInputs, outlineInputs]
    exact readSlots_run entries (h entries rfl) kind host b
  | _ => rfl

/-! ## Entries -/

theorem under_inputs_run (entries : Entries) (h : ∀ e ∈ entries, FollowsInputs e.2) (name : String)
    (kind : SlotKind) (host : Nat) (b : Building) :
    (under (contents entries) name (·.slots kind host) b).toOption =
      (sketched (sketches entries) name .nil (·.slots kind)).bind fun inputs =>
        (claims b.seen inputs.ids).map fun seen =>
          ((), { workspace := b.workspace.growInputs host inputs, seen }) := by
  unfold under sketched
  rw [find_contents, find_sketches]
  rcases hfind : entries.find? (·.1.same (.str name)) with _ | e <;> rw [hfind]
  · rfl
  · exact h e (List.mem_of_find?_eq_some hfind) kind host b

/-- The step of reading that follows the inputs. -/
def readNext (entries : Entries) (host : Nat) : Builder Unit :=
  if (part entries "next" .null).truth then
    under (contents entries) "next" fun content => do
      let child ← content.block
      change (·.follow host child)
  else pure ()

/-- Lets what was grown follow a block, if there is anything. -/
def followed (w : Workspace) (host : Nat) (next : Chain) : Workspace :=
  if next.isEmpty then w else (w.grow next).follow host w.nodes.length

theorem readNext_run (entries : Entries) (h : ∀ e ∈ entries, Follows e.2) (host : Nat)
    (b : Building) :
    (readNext entries host b).toOption =
      (outlineNext entries (sketches entries)).bind fun next =>
        (claims b.seen next.ids).map fun seen =>
          ((), { workspace := followed b.workspace host next, seen }) := by
  unfold readNext outlineNext
  split
  · unfold under sketched
    rw [find_contents, find_sketches]
    rcases hfind : entries.find? (·.1.same (.str "next")) with _ | e <;> rw [hfind]
    · rfl
    · have he := h e (List.mem_of_find?_eq_some hfind) b
      simp only [Option.map_some]
      rw [toOption_bind, he]
      rcases hout : outline e.2 with _ | next
      · rfl
      · simp only [Option.bind_some]
        rcases claims b.seen next.ids with _ | seen
        · rfl
        · simp only [Option.map_some, Option.bind_some, change_run, followed, outline_not_empty hout,
            Bool.false_eq_true, if_false]
  · rfl

theorem readEntry_eq (entries : Entries) :
    readEntry entries (contents entries) =
      match Entries.get? entries (.str "type") with
      | none => throw (FormatError.untypedEntry (.table entries)).fault
      | some type => do
        let h ← makeBlock entries type
        under (contents entries) "inputs" (·.slots .value h)
        under (contents entries) "statements" (·.slots .statement h)
        readNext entries h
        return h := by
  unfold readEntry readNext
  rcases Entries.get? entries (.str "type") with _ | type
  · rfl
  · simp only
    split
    · rfl
    · rfl

theorem claims_entry (seen : List Value) (raw : Block) (values statements : Inputs) (next : Chain) :
    claims seen (Chain.cons raw (values.append statements) next).ids =
      (claims seen [raw.id]).bind fun seen => (claims seen values.ids).bind fun seen =>
        (claims seen statements.ids).bind fun seen => claims seen next.ids := by
  have happend : (values.append statements).ids = values.ids ++ statements.ids := by
    simp only [Inputs.ids, Inputs.blocks_append, List.map_append]
  rw [Chain.ids_cons, happend, ← List.singleton_append, claims_append, List.append_assoc]
  simp only [claims_append]

theorem follows_table (entries : Entries) (h : ∀ e ∈ entries, Follows e.2 ∧ FollowsInputs e.2) :
    Follows (.table entries) := by
  intro b
  have hblock := fun e he => (h e he).1
  have hinputs := fun e he => (h e he).2
  rw [readBlock, outline, readEntry_eq, outlineEntry]
  rcases Entries.get? entries (.str "type") with _ | type
  · rfl
  · simp only [Option.bind_eq_bind, Option.bind_some]
    rw [toOption_bind, makeBlock_run]
    rcases rawBlock entries type with _ | raw
    · rfl
    · simp only [Option.bind_some, toOption_bind, toOption_pure, under_inputs_run entries hinputs,
        readNext_run entries hblock]
      generalize sketched (sketches entries) "inputs" .nil (·.slots .value) = values?
      generalize sketched (sketches entries) "statements" .nil (·.slots .statement) = statements?
      generalize outlineNext entries (sketches entries) = next?
      rcases hown : claims b.seen [raw.id] with _ | seen₀
      · rcases values? with _ | values <;> rcases statements? with _ | statements <;>
          rcases next? with _ | next <;> first | rfl | skip
        simp only [Option.bind_some, pure, claims_entry, hown]
        rfl
      · rcases values? with _ | values
        · rfl
        · rcases hvalues : claims seen₀ values.ids with _ | seen₁
          · rcases statements? with _ | statements <;> rcases next? with _ | next <;>
              simp [claims_entry, hown, hvalues]
          · rcases statements? with _ | statements
            · simp
            · rcases hstatements : claims seen₁ statements.ids with _ | seen₂
              · rcases next? with _ | next <;> simp [claims_entry, hown, hvalues, hstatements]
              · rcases next? with _ | next
                · simp
                · rcases hnext : claims seen₂ next.ids with _ | seen₃
                  · simp [claims_entry, hown, hvalues, hstatements, hnext]
                  · simp [claims_entry, hown, hvalues, hstatements, hnext, Workspace.grow,
                      Workspace.growInputs_append, followed]

theorem follows (v : Value) : Follows v ∧ FollowsInputs v := by
  induction v using Value.inductionOn with
  | table entries ih =>
    have hvalues : ∀ e ∈ entries, Follows e.2 ∧ FollowsInputs e.2 := fun e he => (ih e he).2
    refine ⟨follows_table entries hvalues, followsInputs _ ?_⟩
    intro entries' heq e he
    cases heq
    exact (hvalues e he).1
  | _ => exact ⟨fun _ => rfl, fun _ _ _ => rfl⟩

/-! ## Documents -/

/-- The trees of the entries of a document, or nothing if one describes none. -/
def outlines : Value → Option (List Chain)
  | .table entries =>
    match part entries "blocks" (.list []) with
    | .list blocks => blocks.mapM outline
    | _ => none
  | _ => none

/-- Grows trees one after the other. -/
def growAll (w : Workspace) (trees : List Chain) : Workspace := trees.foldl (·.grow ·) w

theorem readAll_run (blocks : List Value) (b : Building) :
    (readAll blocks b).toOption = (blocks.mapM outline).bind fun trees =>
      (claims b.seen (trees.flatMap Chain.ids)).map fun seen =>
        ((), { workspace := growAll b.workspace trees, seen }) := by
  unfold readAll
  induction blocks generalizing b with
  | nil => rfl
  | cons v rest ih =>
    show (((readBlock v >>= fun _ => pure ()) >>= fun _ =>
      rest.forM fun entry => readBlock entry >>= fun _ => pure ()) b).toOption = _
    rw [toOption_bind, toOption_bind, (follows v).1 b, List.mapM_cons]
    rcases outline v with _ | tree
    · rfl
    · simp only [Option.bind_some, Option.bind_eq_bind, toOption_pure, ih]
      rcases hclaim : claims b.seen tree.ids with _ | seen
      · rcases rest.mapM outline with _ | trees
        · rfl
        · simp [claims_append, hclaim]
      · rcases rest.mapM outline with _ | trees
        · rfl
        · simp [claims_append, hclaim, growAll]

/-- Reading a document is to find its trees, to claim their ids and to grow them. -/
theorem load_run (d : Value) :
    (load d).toOption = (outlines d).bind fun trees =>
      (claims [] (trees.flatMap Chain.ids)).map fun _ => growAll {} trees := by
  cases d with
  | table entries =>
    unfold load outlines
    simp only
    rcases part entries "blocks" (.list []) with _ | _ | _ | _ | _ | _ | blocks | _ | _
    case list =>
      show ((readAll blocks {}).bind fun r => .ok r.2.workspace).toOption = _
      rw [toOption_map, readAll_run, Option.map_bind]
      simp only [Function.comp_def, Option.map_map]
    all_goals rfl
  | _ => rfl

end BlockCode.Document
