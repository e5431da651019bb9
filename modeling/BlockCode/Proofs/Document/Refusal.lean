-- What goes wrong when a document of a plain shape is read: nothing but that an id comes twice.
import BlockCode.Proofs.Document.Shape

namespace BlockCode.Document

/-! ## What stands under a name -/

theorem under_eq (entries : Entries) (name : String) (read : Content → Builder Unit) :
    under (contents entries) name read =
      match Entries.get? entries (.str name) with
      | none => pure ()
      | some v => read { block := readBlock v, slots := readInputs v } := by
  unfold under Entries.get?
  rw [find_contents]
  generalize entries.find? (·.1.same (.str name)) = found
  cases found with
  | none => rfl
  | some e => rfl

theorem under_table {entries inner : Entries} {name : String}
    (h : part entries name (.table []) = .table inner) (kind : SlotKind) (host : Nat) :
    under (contents entries) name (·.slots kind host) = readSlots inner kind host := by
  rw [under_eq]
  rcases get?_of_part h with ⟨hget, rfl⟩ | hget
  · rw [hget]
    rfl
  · rw [hget]
    rfl

/-! ## What goes wrong -/

/-- Nothing goes wrong in the builder but that an id comes twice. -/
def OnlyRepeats {α : Type} (m : Builder α) : Prop :=
  ∀ b fault, m b = .error fault → ∃ id, fault = .format (.duplicateId id)

section OnlyRepeats

variable {α β : Type}

theorem onlyRepeats_of_ok {m : Builder α} (h : ∀ b, ∃ r, m b = .ok r) : OnlyRepeats m := by
  intro b fault hfault
  obtain ⟨r, hr⟩ := h b
  rw [hr] at hfault
  cases hfault

theorem OnlyRepeats.bind {m : Builder α} {f : α → Builder β} (hm : OnlyRepeats m)
    (hf : ∀ a, OnlyRepeats (f a)) : OnlyRepeats (m >>= f) := by
  intro b fault hfault
  have hrun : (m >>= f) b = (m b).bind fun r => f r.1 r.2 := rfl
  rw [hrun] at hfault
  rcases hmb : m b with fault' | r
  · rw [hmb] at hfault
    cases hfault
    exact hm b _ hmb
  · rw [hmb] at hfault
    exact hf r.1 r.2 fault hfault

theorem onlyRepeats_pure (a : α) : OnlyRepeats (pure a : Builder α) :=
  onlyRepeats_of_ok fun b => ⟨(a, b), rfl⟩

theorem onlyRepeats_change (f : Workspace → Workspace) : OnlyRepeats (change f) :=
  onlyRepeats_of_ok fun _ => ⟨_, rfl⟩

theorem onlyRepeats_claimId {id : Value} (hid : id = .null ∨ ∃ s, id = .str s) :
    OnlyRepeats (claimId id) := by
  rcases hid with rfl | ⟨s, rfl⟩
  · exact onlyRepeats_pure ()
  · intro b fault hfault
    have hrun : claimId (.str s) b =
        if b.seen.any ((Value.str s).same ·) then .error (.format (.duplicateId (.str s)))
        else .ok ((), { b with seen := .str s :: b.seen }) := by
      -- The builder looks at what is seen.
      show ((if b.seen.any ((Value.str s).same ·) then _ else _ : Builder Unit) b) = _
      rcases b.seen.any ((Value.str s).same ·) with _ | _
      · rfl
      · rfl
    rw [hrun] at hfault
    split at hfault
    · cases hfault
      exact ⟨_, rfl⟩
    · cases hfault

theorem onlyRepeats_makeBlock {entries : Entries} (type : Value)
    (hid : part entries "id" .null = .null ∨ ∃ s, part entries "id" .null = .str s)
    (hfields : ∃ fields, part entries "fields" (.table []) = .table fields) :
    OnlyRepeats (makeBlock entries type) := by
  obtain ⟨inner, hinner⟩ := hfields
  unfold makeBlock
  refine (onlyRepeats_claimId hid).bind fun _ => ?_
  rw [hinner]
  exact onlyRepeats_of_ok fun _ => ⟨_, rfl⟩

theorem onlyRepeats_readSlots {entries : Entries} (kind : SlotKind) (host : Nat)
    (h : ∀ e ∈ entries, e.2 ≠ .null → OnlyRepeats (readBlock e.2)) :
    OnlyRepeats (readSlots entries kind host) := by
  induction entries with
  | nil =>
    rw [readSlots]
    exact onlyRepeats_pure ()
  | cons e rest ih =>
    rcases e with ⟨name, v⟩
    have hrest := ih fun e he => h e (List.mem_cons_of_mem _ he)
    rw [readSlots]
    by_cases hnull : v.isNull = true
    · rw [if_pos hnull]
      exact (onlyRepeats_change _).bind fun _ => hrest
    · have hv := h (name, v) List.mem_cons_self fun heq => hnull ((Value.isNull_iff v).mpr heq)
      rw [if_neg hnull]
      refine OnlyRepeats.bind hv fun child => ?_
      exact (onlyRepeats_change _).bind fun _ => hrest

theorem onlyRepeats_readNext {entries : Entries} (host : Nat)
    (h : part entries "next" .null ≠ .null → OnlyRepeats (readBlock (part entries "next" .null))) :
    OnlyRepeats (readNext entries host) := by
  unfold readNext
  split
  · rename_i htruth
    rw [under_eq]
    unfold part at h htruth
    rcases hget : Entries.get? entries (.str "next") with _ | v
    · exact onlyRepeats_pure ()
    · rw [hget, Option.getD_some] at h htruth
      have hv : v ≠ .null := by
        rintro rfl
        cases htruth
      exact (h hv).bind fun child => onlyRepeats_change _
  · exact onlyRepeats_pure ()

/-- Reading an entry of a plain shape fails only for an id that comes twice. -/
theorem IsEntry.onlyRepeats {v : Value} (h : IsEntry v) : OnlyRepeats (readBlock v) := by
  induction h with
  | @mk entries inputs statements type htype hid hfields hinputs hstatements _ _ _ _
      ihinputs ihstatements ihnext =>
    rw [readBlock, readEntry_eq, htype]
    refine (onlyRepeats_makeBlock _ hid hfields).bind fun host => ?_
    rw [under_table hinputs, under_table hstatements]
    refine (onlyRepeats_readSlots .value host ihinputs).bind fun _ => ?_
    refine (onlyRepeats_readSlots .statement host ihstatements).bind fun _ => ?_
    exact (onlyRepeats_readNext host ihnext).bind fun _ => onlyRepeats_pure host

theorem onlyRepeats_readAll {entries : List Value} (h : ∀ v ∈ entries, IsEntry v) :
    OnlyRepeats (readAll entries) := by
  unfold readAll
  induction entries with
  | nil => exact onlyRepeats_pure ()
  | cons v rest ih =>
    refine OnlyRepeats.bind ?_ fun _ => ih fun u hu => h u (List.mem_cons_of_mem _ hu)
    exact (h v List.mem_cons_self).onlyRepeats.bind fun _ => onlyRepeats_pure ()

theorem WellShaped.refused {d : Value} (h : WellShaped d) {fault : Fault}
    (hfault : load d = .error fault) : ∃ id, fault = .format (.duplicateId id) := by
  obtain ⟨⟨entries, blocks, rfl, hblocks⟩, hentries⟩ := h
  have hlisted : listed (.table entries) = blocks := by
    unfold listed
    simp only [hblocks]
  have hload : load (.table entries) = (readAll blocks {}).bind fun r => .ok r.2.workspace := by
    unfold load
    simp only [hblocks]
    rfl
  rw [hlisted] at hentries
  rw [hload] at hfault
  rcases hread : readAll blocks {} with fault' | r
  · rw [hread] at hfault
    cases hfault
    exact onlyRepeats_readAll hentries _ _ hread
  · rw [hread] at hfault
    cases hfault

end OnlyRepeats

end BlockCode.Document
