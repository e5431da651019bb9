-- What is written can be read back. The entry of a tree describes the tree again, in a
-- plain form: places are forgotten, a comment that says nothing is gone, and the inputs
-- for values come before those for statements.
import BlockCode.Document.Save
import BlockCode.Proofs.Document.Outline

namespace BlockCode

/-! ## The plain form -/

/-- The block as its entry tells of it. -/
def Block.plain (b : Block) : Block where
  type := b.type
  id := b.id
  fields := b.fields
  disabled := .bool b.isDisabled
  comment := b.commentText
  output := .bool b.givesValue

mutual
/-- The tree as its entry tells of it. -/
def Chain.plain : Chain → Chain
  | .nil => .nil
  | .cons b inputs next =>
    .cons b.plain ((inputs.plain .value).append (inputs.plain .statement)) next.plain

/-- The inputs of a kind, as they are told of. -/
def Inputs.plain (kind : SlotKind) : Inputs → Inputs
  | .nil => .nil
  | .cons name k target rest =>
    if k == kind then .cons name kind target.plain (rest.plain kind) else rest.plain kind
end

/-- The fields of all blocks are tables. -/
def Chain.Tabled (c : Chain) : Prop := ∀ b ∈ c.blocks, ∃ entries, b.fields = .table entries

theorem Chain.tabled_cons {b : Block} {inputs : Inputs} {next : Chain}
    (h : (Chain.cons b inputs next).Tabled) :
    (∃ entries, b.fields = .table entries) ∧
      (∀ d ∈ inputs.blocks, ∃ entries, d.fields = .table entries) ∧ next.Tabled := by
  refine ⟨h b List.mem_cons_self, ?_, ?_⟩
  · intro d hd
    exact h d (List.mem_cons_of_mem _ (List.mem_append_left _ hd))
  · intro d hd
    exact h d (List.mem_cons_of_mem _ (List.mem_append_right _ hd))

/-! ## Looking up what is written -/

namespace Entries

theorem get?_append (entries more : Entries) (key : Value) :
    get? (entries ++ more) key = (get? entries key).or (get? more key) := by
  unfold get?
  rw [List.find?_append]
  generalize entries.find? (fun entry => entry.1.same key) = found
  cases found with
  | none => rfl
  | some e => rfl

theorem get?_unlessEmpty (empty : Bool) (name : String) (v : Value) (key : String) :
    get? (Document.unlessEmpty empty name v) (.str key) =
      if empty = false ∧ name = key then some v else none := by
  unfold Document.unlessEmpty
  rcases empty with _ | _
  · simp only [Bool.false_eq_true, if_false, true_and]
    rw [get?_cons, Value.same_str, get?_nil]
    simp only [beq_iff_eq]
  · rfl

end Entries

namespace Document

/-! ## The parts of an entry -/

/-- What an entry may tell: a name, whether it is left out, and the value. -/
abbrev Parts := List (String × Bool × Value)

/-- The parts that are not left out. -/
def told (parts : Parts) : Entries := parts.flatMap fun (name, empty, v) => unlessEmpty empty name v

theorem get?_told {parts : Parts} (hnames : (parts.map (·.1)).Nodup) {key : String} {empty : Bool}
    {v : Value} (h : (key, empty, v) ∈ parts) :
    Entries.get? (told parts) (.str key) = if empty then none else some v := by
  have hnot : ∀ rest : Parts, key ∉ rest.map (·.1) → Entries.get? (told rest) (.str key) = none := by
    intro rest hkey
    induction rest with
    | nil => rfl
    | cons p rest ih =>
      rcases p with ⟨name, e, w⟩
      rw [List.map_cons, List.mem_cons, not_or] at hkey
      show Entries.get? (unlessEmpty e name w ++ told rest) _ = none
      rw [Entries.get?_append, Entries.get?_unlessEmpty, if_neg (fun h => hkey.1 h.2.symm),
        ih hkey.2]
      rfl
  induction parts with
  | nil => cases h
  | cons p rest ih =>
    rcases p with ⟨name, e, w⟩
    rw [List.map_cons, List.nodup_cons] at hnames
    show Entries.get? (unlessEmpty e name w ++ told rest) _ = _
    rw [Entries.get?_append, Entries.get?_unlessEmpty]
    rcases List.mem_cons.mp h with heq | hmem
    · cases heq
      rw [hnot rest hnames.1]
      cases empty with
      | false => rw [if_pos ⟨rfl, rfl⟩, if_neg (by simp)]; rfl
      | true => rw [if_neg (by simp), if_pos rfl]; rfl
    · have hother : name ≠ key := by
        rintro rfl
        exact hnames.1 (List.mem_map.mpr ⟨_, hmem, rfl⟩)
      rw [if_neg (fun h => hother h.2), ih hnames.2 hmem]
      rfl

/-- The parts of the entry of a block. -/
def entryParts (b : Block) (entries values statements : Entries) (follower : Value)
    (last : Bool) : Parts :=
  [("type", false, b.type), ("id", b.id.isNull, b.id), ("fields", entries.isEmpty, .table entries),
    ("disabled", !b.isDisabled, .bool true), ("comment", !b.comment.truth, b.comment),
    ("output", !b.givesValue, .bool true), ("inputs", values.isEmpty, .table values),
    ("statements", statements.isEmpty, .table statements), ("next", last, follower)]

theorem nodup_entryParts (b : Block) (entries values statements : Entries) (follower : Value)
    (last : Bool) : ((entryParts b entries values statements follower last).map (·.1)).Nodup := by
  show ["type", "id", "fields", "disabled", "comment", "output", "inputs", "statements",
    "next"].Nodup
  decide

theorem ownParts_eq {b : Block} {entries : Entries} (h : b.fields = .table entries) :
    ownParts b = .ok ([(.str "type", b.type)] ++ unlessEmpty b.id.isNull "id" b.id ++
      unlessEmpty entries.isEmpty "fields" (.table entries) ++
      unlessEmpty (!b.isDisabled) "disabled" (.bool true) ++
      unlessEmpty (!b.comment.truth) "comment" b.comment ++
      unlessEmpty (!b.givesValue) "output" (.bool true)) := by
  unfold ownParts writtenFields
  rw [h]
  cases entries with
  | nil => rfl
  | cons e rest => rfl

theorem entry_cons {b : Block} {entries values statements : Entries} {follower : Value}
    {inputs : Inputs} {next : Chain} (h : b.fields = .table entries)
    (hvalues : inputEntries .value inputs = .ok values)
    (hstatements : inputEntries .statement inputs = .ok statements)
    (hnext : entry next = .ok follower) :
    entry (.cons b inputs next) =
      .ok (.table (told (entryParts b entries values statements follower next.isEmpty))) := by
  rw [entry, ownParts_eq h, hvalues, hstatements, hnext]
  simp only [bind, Except.bind, pure, Except.pure, told, entryParts, List.flatMap_cons,
    List.flatMap_nil, List.append_nil, List.append_assoc]
  rfl

/-! ## Reading what is written -/

/-- The parts can be looked up in the table, except those that are left out. -/
def Found (whole : Entries) (parts : Parts) : Prop :=
  ∀ name empty v, (name, empty, v) ∈ parts →
    Entries.get? whole (.str name) = if empty then none else some v

namespace Found

variable {whole : Entries} {parts : Parts}

theorem part (h : Found whole parts) {name : String} (empty : Bool) (v : Value)
    (hmem : (name, empty, v) ∈ parts) (missing : Value) :
    part whole name missing = if empty then missing else v := by
  unfold Document.part
  rw [h _ _ _ hmem]
  cases empty <;> rfl

theorem sketched (h : Found whole parts) {α : Type} {name : String} (empty : Bool) (v : Value)
    (hmem : (name, empty, v) ∈ parts) (nothing : α) (read : Sketch → Option α) :
    sketched (sketches whole) name nothing read =
      if empty then some nothing else read { block := outline v, slots := outlineInputs v } := by
  rw [sketched_eq, h _ _ _ hmem]
  cases empty <;> rfl

end Found

section Entry

variable {b : Block} {whole entries values statements : Entries} {follower : Value} {last : Bool}

/-- A block is read as it tells of itself: what is left out is filled in as it was. -/
theorem rawBlock_found (hfields : b.fields = .table entries)
    (h : Found whole (entryParts b entries values statements follower last)) :
    rawBlock whole b.type = some b.plain := by
  have hid : part whole "id" .null = b.id := by
    rw [h.part b.id.isNull b.id (by simp [entryParts])]
    split
    · exact ((Value.isNull_iff b.id).mp ‹_›).symm
    · rfl
  have htable : part whole "fields" (.table []) = .table entries := by
    rw [h.part entries.isEmpty (.table entries) (by simp [entryParts])]
    cases entries <;> rfl
  have hdisabled : part whole "disabled" (.bool false) = .bool b.isDisabled := by
    rw [h.part (!b.isDisabled) (.bool true) (by simp [entryParts])]
    cases b.isDisabled <;> rfl
  have hcomment : part whole "comment" .null = b.commentText := by
    rw [h.part (!b.comment.truth) b.comment (by simp [entryParts])]
    unfold Block.commentText
    cases b.comment.truth <;> rfl
  have houtput : part whole "output" (.bool false) = .bool b.givesValue := by
    rw [h.part (!b.givesValue) (.bool true) (by simp [entryParts])]
    cases b.givesValue <;> rfl
  unfold rawBlock Block.plain
  rw [htable, hid, hdisabled, hcomment, houtput, hfields]
  rfl

theorem outlineNext_found {next : Chain}
    (h : Found whole (entryParts b entries values statements follower last))
    (hlast : last = true → next = .nil)
    (hnext : last = false → outline follower = some next ∧ follower.truth = true) :
    outlineNext whole (sketches whole) = some next := by
  have hmem : ("next", last, follower) ∈ entryParts b entries values statements follower last := by
    simp [entryParts]
  unfold outlineNext
  rw [h.part _ _ hmem, h.sketched _ _ hmem]
  cases last with
  | true =>
    rw [hlast rfl]
    rfl
  | false =>
    obtain ⟨hout, htruth⟩ := hnext rfl
    simp only [Bool.false_eq_true, if_false, htruth, if_true]
    exact hout

theorem outline_told {plugged nested : Inputs} {next : Chain} (hfields : b.fields = .table entries)
    (hvalues : outlineSlots values .value = some plugged)
    (hstatements : outlineSlots statements .statement = some nested)
    (hlast : last = true → next = .nil)
    (hnext : last = false → outline follower = some next ∧ follower.truth = true) :
    outline (.table (told (entryParts b entries values statements follower last))) =
      some (.cons b.plain (plugged.append nested) next) := by
  have hfound : Found (told (entryParts b entries values statements follower last))
      (entryParts b entries values statements follower last) :=
    fun _ _ _ => get?_told (nodup_entryParts b entries values statements follower last)
  generalize told (entryParts b entries values statements follower last) = whole at hfound
  have htype : Entries.get? whole (.str "type") = some b.type :=
    hfound _ false _ (by simp [entryParts])
  have hplugged : sketched (sketches whole) "inputs" .nil (·.slots .value) = some plugged := by
    rw [hfound.sketched values.isEmpty (.table values) (by simp [entryParts])]
    cases values <;> exact hvalues
  have hnested : sketched (sketches whole) "statements" .nil (·.slots .statement) = some nested := by
    rw [hfound.sketched statements.isEmpty (.table statements) (by simp [entryParts])]
    cases statements <;> exact hstatements
  rw [outline, outlineEntry, htype]
  show (rawBlock whole b.type >>= _) = _
  rw [rawBlock_found hfields hfound]
  show (sketched (sketches whole) "inputs" .nil (·.slots .value) >>= _) = _
  rw [hplugged]
  show (sketched (sketches whole) "statements" .nil (·.slots .statement) >>= _) = _
  rw [hnested]
  show (outlineNext whole (sketches whole) >>= _) = _
  rw [outlineNext_found hfound hlast hnext]
  rfl

end Entry

/-- The tree can be written, and its entry tells of its plain form. -/
def Tells (c : Chain) : Prop := c.Tabled → ∃ v, entry c = .ok v ∧
  (c.isEmpty = true → v = .null) ∧ (c.isEmpty = false → outline v = some c.plain ∧ v.truth = true)

theorem tells_inputs {inputs : Inputs} (hin : inputs.Every Tells)
    (htabled : ∀ b ∈ inputs.blocks, ∃ entries, b.fields = .table entries) (kind : SlotKind) :
    ∃ slots, inputEntries kind inputs = .ok slots ∧
      outlineSlots slots kind = some (inputs.plain kind) := by
  induction inputs using Inputs.inductionOn with
  | nil => exact ⟨[], rfl, rfl⟩
  | cons name k target rest ih =>
    obtain ⟨slots, hslots, hrest⟩ := ih hin.2 fun b hb => htabled b (List.mem_append_right _ hb)
    rw [inputEntries, Inputs.plain]
    split
    · obtain ⟨v, hv, hnil, hcons⟩ := hin.1 fun b hb => htabled b (List.mem_append_left _ hb)
      refine ⟨(name, v) :: slots, by rw [hv, hslots]; rfl, ?_⟩
      rw [outlineSlots]
      cases target with
      | nil =>
        rw [hnil rfl, hrest]
        rfl
      | cons b inputs next =>
        obtain ⟨hout, htruth⟩ := hcons rfl
        have hnull : v.isNull = false := by
          cases v <;> first | rfl | cases htruth
        rw [hnull, hout, hrest]
        rfl
    · exact ⟨slots, hslots, hrest⟩

/-- Every tree whose fields are tables can be written, and read back in its plain form. -/
theorem tells (c : Chain) : Tells c := by
  induction c using Chain.inductionOn with
  | nil => exact fun _ => ⟨.null, rfl, fun _ => rfl, fun h => (by cases h)⟩
  | cons b inputs next hin hnext =>
    intro htabled
    obtain ⟨⟨entries, hfields⟩, hinputs, hbehind⟩ := Chain.tabled_cons htabled
    obtain ⟨values, hvalues, hplugged⟩ := tells_inputs hin hinputs .value
    obtain ⟨statements, hstatements, hnested⟩ := tells_inputs hin hinputs .statement
    obtain ⟨follower, hfollower, hnil, hcons⟩ := hnext hbehind
    refine ⟨_, entry_cons hfields hvalues hstatements hfollower, fun h => (by cases h), ?_⟩
    intro _
    refine ⟨?_, rfl⟩
    rw [Chain.plain]
    refine outline_told hfields hplugged hnested ?_ hcons
    intro hlast
    cases next with
    | nil => rfl
    | cons b inputs next => cases hlast

end Document
end BlockCode
