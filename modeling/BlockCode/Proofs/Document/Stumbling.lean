-- How reading a document can end. Reading looks at one part of the document after the other,
-- and the first part that is not as it must be ends it. Some parts the loader looks at itself,
-- and says what is wrong with them, if there are words for it; at others it stumbles, and the
-- fault is not its own.
import BlockCode.Document.File
import BlockCode.Proofs.Document.Refusal
import Mathlib.Algebra.Group.Int.Defs

namespace BlockCode

/-- The loader says itself what is wrong with the document. -/
def Fault.isFormat : Fault → Bool
  | .format _ => true
  | _ => false

theorem Except.error_of_mapM {ε α β : Type} {f : α → Except ε β} {P : ε → Prop}
    (h : ∀ a fault, f a = .error fault → P fault) {values : List α} {fault : ε}
    (hrun : values.mapM f = .error fault) : P fault := by
  induction values with
  | nil => cases hrun
  | cons a rest ih =>
    rw [List.mapM_cons] at hrun
    rcases hfirst : f a with fault' | b
    · rw [hfirst] at hrun
      cases hrun
      exact h a _ hfirst
    · rcases hrest : rest.mapM f with fault' | bs
      · rw [hfirst, hrest] at hrun
        cases hrun
        exact ih hrest
      · rw [hfirst, hrest] at hrun
        cases hrun

theorem Entries.mem_of_get? {entries : Entries} {key v : Value} (h : entries.get? key = some v) :
    ∃ e ∈ entries, e.2 = v := by
  obtain ⟨e, hfind, hv⟩ := Option.map_eq_some_iff.mp h
  exact ⟨e, List.mem_of_find?_eq_some hfind, hv⟩

namespace Document

/-! ## Checks -/

/-- What reading asks of a part of a document. -/
inductive Check where
  /-- The value is an entry with a type. -/
  | typed (v : Value)
  /-- No entry before has this id. -/
  | unused (id : Value)
  /-- The value can be read as fields. -/
  | readable (fields : Value)
  /-- The value is a table of inputs. -/
  | tabled (inputs : Value)

def isTable : Value → Bool
  | .table _ => true
  | _ => false

/-- The value is an entry with a type. -/
def isTyped : Value → Bool
  | .table entries => (Entries.get? entries (.str "type")).isSome
  | _ => false

namespace Check

/-- Makes one check. The result are the ids that are seen then. -/
def meet (seen : List Value) : Check → Except Fault (List Value)
  | typed v => if isTyped v then .ok seen else .error (FormatError.untypedEntry v).fault
  | unused id =>
    if id.isNull then .ok seen
    else if !id.isKey then .error .wrongKind
    else if seen.any (id.same ·) then .error (FormatError.duplicateId id).fault
    else .ok (id :: seen)
  | readable v => (fields v).map fun _ => seen
  | tabled v => if isTable v then .ok seen else .error .noParts

/-- The loader does not look before it steps: an id that no table can be asked for, fields
that cannot be read, or inputs that are no table. Or else it has no words for what it sees: an
entry without a type, or an id that comes twice, with a whole number of too many digits. -/
def stumbles (seen : List Value) : Check → Bool
  | typed v => !isTyped v && !v.fits
  | unused id => !id.isNull && (!id.isKey || seen.any (id.same ·) && !id.fits)
  | readable v => !(fields v).isOk
  | tabled v => !isTable v

end Check

mutual
/-- All checks of an entry, in the order in which they are made. -/
def checks : Value → List Check
  | .table entries =>
    .typed (.table entries) :: .unused (part entries "id" .null) ::
      .readable (part entries "fields" (.table [])) ::
      (.tabled (part entries "inputs" (.table [])) :: checksIn (held entries "inputs") ++
        (.tabled (part entries "statements" (.table [])) :: checksIn (held entries "statements") ++
          if (part entries "next" .null).truth then checks (part entries "next" .null) else []))
  | v => [.typed v]
termination_by v => sizeOf v
decreasing_by
  · exact sizeOf_held entries "inputs"
  · exact sizeOf_held entries "statements"
  · exact sizeOf_part entries "next"

/-- All checks of what is plugged into inputs. -/
def checksIn : Entries → List Check
  | [] => []
  | (_, v) :: rest => (if v.isNull then [] else checks v) ++ checksIn rest
termination_by entries => sizeOf entries
decreasing_by
  · simp only [List.cons.sizeOf_spec, Prod.mk.sizeOf_spec]
    omega
  · simp only [List.cons.sizeOf_spec, Prod.mk.sizeOf_spec]
    omega
end

/-- Makes checks one after the other. -/
def walk : List Value → List Check → Except Fault (List Value)
  | seen, [] => .ok seen
  | seen, check :: rest => (check.meet seen).bind (walk · rest)

theorem walk_append (seen : List Value) (left right : List Check) :
    walk seen (left ++ right) = (walk seen left).bind (walk · right) := by
  induction left generalizing seen with
  | nil => rfl
  | cons check rest ih =>
    rw [List.cons_append, walk, walk]
    rcases check.meet seen with fault | met
    · rfl
    · exact ih met

theorem walk_error_iff {seen : List Value} {all : List Check} {fault : Fault} :
    walk seen all = .error fault ↔ ∃ before check after met,
      all = before ++ check :: after ∧ walk seen before = .ok met ∧ check.meet met = .error fault := by
  constructor
  · intro h
    induction all generalizing seen with
    | nil => cases h
    | cons check rest ih =>
      rw [walk] at h
      rcases hmeet : check.meet seen with fault' | met
      · rw [hmeet] at h
        cases h
        exact ⟨[], check, rest, seen, rfl, rfl, hmeet⟩
      · rw [hmeet] at h
        obtain ⟨before, failed, after, met', rfl, hwalk, hfailed⟩ := ih h
        refine ⟨check :: before, failed, after, met', rfl, ?_, hfailed⟩
        rw [walk, hmeet]
        exact hwalk
  · rintro ⟨before, check, after, met, rfl, hwalk, hmeet⟩
    rw [walk_append, hwalk]
    show walk met (check :: after) = _
    rw [walk, hmeet]
    rfl

/-! ## The faults of checks -/

theorem members_error {v : Value} {fault : Fault} (h : members v = .error fault) :
    fault = .wrongKind := by
  cases v <;> cases h
  all_goals rfl

theorem pair_error {v : Value} {fault : Fault} (h : pair v = .error fault) :
    fault = .wrongKind ∨ fault = .wrongForm := by
  unfold pair at h
  rcases hmembers : members v with fault' | items
  · rw [hmembers] at h
    cases h
    exact Or.inl (members_error hmembers)
  · rw [hmembers] at h
    simp only [bind, Except.bind] at h
    split at h
    · split at h
      · cases h
      · cases h
        exact Or.inl rfl
    · cases h
      exact Or.inr rfl

theorem fields_error {v : Value} {fault : Fault} (h : fields v = .error fault) :
    fault.isFormat = false := by
  have hreason : fault = .wrongKind ∨ fault = .wrongForm := by
    unfold fields at h
    split at h
    · cases h
    · rcases hmembers : members v with fault' | items
      · rw [hmembers] at h
        cases h
        exact Or.inl (members_error hmembers)
      · rw [hmembers] at h
        rcases hpairs : items.mapM pair with fault' | pairs
        · change (items.mapM pair >>= fun pairs => pure (Entries.ofPairs pairs)) = _ at h
          rw [hpairs] at h
          cases h
          exact Except.error_of_mapM (fun _ _ => pair_error) hpairs
        · change (items.mapM pair >>= fun pairs => pure (Entries.ofPairs pairs)) = _ at h
          rw [hpairs] at h
          cases h
  rcases hreason with rfl | rfl <;> rfl

theorem fault_isFormat (e : FormatError) : e.fault.isFormat = e.told.all (·.fits) := by
  unfold FormatError.fault
  rcases e.told.all (·.fits) with _ | _ <;> rfl

theorem stumbles_iff {check : Check} (seen : List Value) :
    (∃ fault, check.meet seen = .error fault ∧ fault.isFormat = false) ↔
      check.stumbles seen = true := by
  have hfails : ∀ e : FormatError,
      (∃ fault, (.error e.fault : Except Fault (List Value)) = .error fault ∧
        fault.isFormat = false) ↔ e.told.all (·.fits) = false := by
    intro e
    rw [← fault_isFormat]
    exact ⟨fun ⟨_, heq, hformat⟩ => Except.error.inj heq ▸ hformat, fun h => ⟨_, rfl, h⟩⟩
  cases check with
  | typed v =>
    simp only [Check.meet, Check.stumbles]
    rcases isTyped v with _ | _
    · simp only [Bool.false_eq_true, if_false, hfails]
      simp [FormatError.told]
    · exact ⟨nofun, nofun⟩
  | unused id =>
    simp only [Check.meet, Check.stumbles]
    rcases id.isNull with _ | _
    · rcases id.isKey with _ | _
      · exact ⟨fun _ => rfl, fun _ => ⟨.wrongKind, rfl, rfl⟩⟩
      · simp only [Bool.false_eq_true, if_false, Bool.not_true]
        rcases seen.any (id.same ·) with _ | _
        · exact ⟨nofun, nofun⟩
        · simp only [if_true, hfails]
          simp [FormatError.told]
    · exact ⟨nofun, nofun⟩
  | readable v =>
    simp only [Check.meet, Check.stumbles]
    rcases hfields : fields v with fault | entries
    · exact ⟨fun _ => rfl, fun _ => ⟨fault, rfl, fields_error hfields⟩⟩
    · exact ⟨nofun, nofun⟩
  | tabled v =>
    simp only [Check.meet, Check.stumbles]
    rcases isTable v with _ | _
    · exact ⟨fun _ => rfl, fun _ => ⟨.noParts, rfl, rfl⟩⟩
    · exact ⟨nofun, nofun⟩

/-! ## Reading goes through the checks -/

/-- The builder fails where the checks fail, and else sees the ids that they see. -/
def Walks {α : Type} (m : Builder α) (all : List Check) : Prop :=
  ∀ b : Building, (m b).map (·.2.seen) = walk b.seen all

section Walks

variable {α β : Type}

theorem Walks.bind {m : Builder α} {f : α → Builder β} {first rest : List Check}
    (hm : Walks m first) (hf : ∀ a, Walks (f a) rest) : Walks (m >>= f) (first ++ rest) := by
  intro b
  have hrun : (m >>= f) b = (m b).bind fun r => f r.1 r.2 := rfl
  rw [hrun, walk_append, ← hm b]
  rcases m b with fault | r
  · rfl
  · exact hf r.1 r.2

theorem walks_pure (a : α) : Walks (pure a : Builder α) [] := fun _ => rfl

theorem walks_change (f : Workspace → Workspace) : Walks (change f) [] := fun _ => rfl

theorem walks_claimId (id : Value) : Walks (claimId id) [.unused id] := by
  intro b
  unfold claimId
  rw [walk, Check.meet]
  rcases id.isNull with _ | _
  · rcases id.isKey with _ | _
    · rfl
    · -- The builder looks at what is seen, and the check does.
      show ((if b.seen.any (id.same ·) then _ else _ : Builder Unit) b).map _ = _
      rcases b.seen.any (id.same ·) with _ | _ <;> rfl
  · rfl

theorem walks_makeBlock (entries : Entries) (type : Value) :
    Walks (makeBlock entries type)
      [.unused (part entries "id" .null), .readable (part entries "fields" (.table []))] := by
  unfold makeBlock
  refine (walks_claimId (part entries "id" .null)).bind fun _ => ?_
  intro b
  rw [walk, Check.meet]
  rcases fields (part entries "fields" (.table [])) with fault | fields <;> rfl

theorem walks_readSlots {entries : Entries}
    (h : ∀ e ∈ entries, Walks (readBlock e.2) (checks e.2)) (kind : SlotKind) (host : Nat) :
    Walks (readSlots entries kind host) (checksIn entries) := by
  induction entries with
  | nil =>
    rw [readSlots, checksIn]
    exact walks_pure ()
  | cons e rest ih =>
    rcases e with ⟨name, v⟩
    have hrest := ih fun e he => h e (List.mem_cons_of_mem _ he)
    rw [readSlots, checksIn]
    split
    · exact (walks_change _).bind fun _ => hrest
    · have hv : Walks (readBlock v) (checks v) := h (name, v) List.mem_cons_self
      refine hv.bind fun child => ?_
      exact (walks_change _).bind fun _ => hrest

/-- Reading what is plugged into an input goes through its checks, if the value holds inputs. -/
def WalksInputs (v : Value) : Prop :=
  ∀ inner, v = .table inner → ∀ e ∈ inner, Walks (readBlock e.2) (checks e.2)

theorem walks_under {entries : Entries} (h : ∀ e ∈ entries, WalksInputs e.2) (name : String)
    (kind : SlotKind) (host : Nat) :
    Walks (under (contents entries) name (·.slots kind host))
      (.tabled (part entries name (.table [])) :: checksIn (held entries name)) := by
  rw [under_eq]
  unfold held part
  rcases hget : Entries.get? entries (.str name) with _ | v
  · intro b
    simp only [Option.getD_none]
    rw [walk, checksIn]
    rfl
  · obtain ⟨e, hmem, rfl⟩ := Entries.mem_of_get? hget
    simp only [Option.getD_some]
    cases hv : e.2 with
    | table inner =>
      intro b
      rw [readInputs, walk]
      exact walks_readSlots (h e hmem inner hv) kind host b
    | _ => exact fun _ => rfl

theorem walks_readNext {entries : Entries} (h : ∀ e ∈ entries, Walks (readBlock e.2) (checks e.2))
    (host : Nat) : Walks (readNext entries host)
      (if (part entries "next" .null).truth then checks (part entries "next" .null) else []) := by
  unfold readNext
  split
  · rename_i htruth
    rw [under_eq]
    unfold part at htruth ⊢
    rcases hget : Entries.get? entries (.str "next") with _ | v
    · rw [hget] at htruth
      cases htruth
    · obtain ⟨e, hmem, rfl⟩ := Entries.mem_of_get? hget
      have hnext := (h e hmem).bind fun child => walks_change (·.follow host child)
      rwa [List.append_nil] at hnext
  · exact walks_pure ()

theorem walks_table {entries : Entries}
    (h : ∀ e ∈ entries, Walks (readBlock e.2) (checks e.2) ∧ WalksInputs e.2) :
    Walks (readBlock (.table entries)) (checks (.table entries)) := by
  have hinputs := fun e he => (h e he).2
  have hblocks := fun e he => (h e he).1
  rw [readBlock, readEntry_eq, checks]
  rcases htype : Entries.get? entries (.str "type") with _ | type
  · intro b
    rw [walk, Check.meet, isTyped, htype]
    rfl
  · intro b
    rw [walk, Check.meet, isTyped, htype]
    refine Walks.bind (walks_makeBlock entries type) (fun host => ?_) b
    refine (walks_under hinputs "inputs" .value host).bind fun _ => ?_
    refine (walks_under hinputs "statements" .statement host).bind fun _ => ?_
    have hnext := (walks_readNext hblocks host).bind fun _ => walks_pure host
    rwa [List.append_nil] at hnext

/-- Reading an entry goes through its checks. -/
theorem walks (v : Value) : Walks (readBlock v) (checks v) ∧ WalksInputs v := by
  induction v using Value.inductionOn with
  | table entries ih =>
    have hvalues : ∀ e ∈ entries, Walks (readBlock e.2) (checks e.2) ∧ WalksInputs e.2 :=
      fun e he => (ih e he).2
    refine ⟨walks_table hvalues, ?_⟩
    rintro inner ⟨⟩ e he
    exact (hvalues e he).1
  | _ =>
    refine ⟨fun b => ?_, nofun⟩
    rw [checks]
    · rfl
    · nofun

theorem walks_readAll (blocks : List Value) : Walks (readAll blocks) (blocks.flatMap checks) := by
  unfold readAll
  induction blocks with
  | nil => exact walks_pure ()
  | cons v rest ih =>
    have hv := (walks v).1.bind fun _ => walks_pure ()
    rw [List.append_nil] at hv
    exact hv.bind fun _ => ih

end Walks

/-! ## Documents -/

/-- All checks of a document, in the order in which they are made. -/
def allChecks (d : Value) : List Check := (listed d).flatMap checks

/-- The first check of the document that fails is one at which the loader stumbles. -/
def Stumbles (d : Value) : Prop :=
  ∃ before check after met, allChecks d = before ++ check :: after ∧
    walk [] before = .ok met ∧ check.stumbles met = true

/-- A document with a list of entries is loaded if all checks are met, and fails as they do. -/
theorem load_error_iff {entries : Entries} {blocks : List Value} {fault : Fault}
    (h : part entries "blocks" (.list []) = .list blocks) :
    load (.table entries) = .error fault ↔ walk [] (blocks.flatMap checks) = .error fault := by
  have hload : load (.table entries) = (readAll blocks {}).bind fun r => .ok r.2.workspace := by
    unfold load
    simp only [h]
    rfl
  have hwalks : (readAll blocks {}).map (·.2.seen) = walk [] (blocks.flatMap checks) :=
    walks_readAll blocks {}
  rw [hload, ← hwalks]
  rcases readAll blocks {} with fault' | r
  · exact ⟨fun h => by cases h; rfl, fun h => by cases h; rfl⟩
  · exact ⟨nofun, nofun⟩

theorem load_stumbles_iff (d : Value) :
    (∃ fault, load d = .error fault ∧ fault.isFormat = false) ↔ Stumbles d := by
  have hnone : listed d = [] → load d = .error (.format .noBlockList) →
      ((∃ fault, load d = .error fault ∧ fault.isFormat = false) ↔ Stumbles d) := by
    intro hlisted hload
    unfold Stumbles allChecks
    rw [hlisted, hload]
    constructor
    · rintro ⟨fault, ⟨⟩, hformat⟩
      cases hformat
    · rintro ⟨before, check, after, met, hchecks, -, -⟩
      simp at hchecks
  cases d with
  | table entries =>
    cases hblocks : part entries "blocks" (.list []) with
    | list blocks =>
      have hchecks : allChecks (.table entries) = blocks.flatMap checks := by
        unfold allChecks listed
        simp only [hblocks]
      unfold Stumbles
      simp only [load_error_iff hblocks, walk_error_iff, hchecks]
      constructor
      · rintro ⟨fault, ⟨before, check, after, met, hall, hwalk, hmeet⟩, hformat⟩
        exact ⟨before, check, after, met, hall, hwalk,
          (stumbles_iff met).mp ⟨fault, hmeet, hformat⟩⟩
      · rintro ⟨before, check, after, met, hall, hwalk, hstumbles⟩
        obtain ⟨fault, hmeet, hformat⟩ := (stumbles_iff met).mpr hstumbles
        exact ⟨fault, ⟨before, check, after, met, hall, hwalk, hmeet⟩, hformat⟩
    | _ =>
      apply hnone
      · unfold listed
        simp only [hblocks]
      · unfold load
        simp only [hblocks]
  | _ => exact hnone rfl rfl

/-! ## Files -/

/-- The text of a file as it is read, with every sort of line end as a newline. -/
def unified (text : String) : String := String.ofList (unifyLines text.toList)

theorem loadText_stumbles_iff (name text : String) :
    (∃ fault, loadText name text = .error fault ∧ fault.isFormat = false) ↔
      Json.read (unified text) = .error .tooManyDigits ∨
        ∃ d, Json.read (unified text) = .ok d ∧ Stumbles d := by
  have hunified : String.ofList (unifyLines text.toList) = unified text := rfl
  unfold loadText parse
  simp only [hunified]
  rcases Json.read (unified text) with (⟨reason, position⟩ | _) | d
  · constructor
    · rintro ⟨fault, ⟨⟩, hformat⟩
      cases hformat
    · rintro (hread | ⟨d, hread, -⟩) <;> cases hread
  · exact ⟨fun _ => Or.inl rfl, fun _ => ⟨.wrongForm, rfl, rfl⟩⟩
  · refine (load_stumbles_iff d).trans ⟨fun h => Or.inr ⟨d, rfl, h⟩, ?_⟩
    rintro (hread | ⟨d', hread, hstumbles⟩)
    · cases hread
    · cases hread
      exact hstumbles

/-- A file is loaded, or the loader says what is wrong with it, unless its bytes are no text,
the text has a number of too many digits, or the document in it makes the loader stumble: the
first of its checks that fails is an id that is no key, fields that cannot be read, inputs
or statements that are no table, or one that there are no words for. -/
theorem loading_stumbles_iff (d : Value) (name : String) (bytes : ByteArray) :
    ((∃ fault, load d = .error fault ∧ fault.isFormat = false) ↔ Stumbles d) ∧
    ((∃ fault, loadBytes name bytes = .error fault ∧ fault.isFormat = false) ↔
      String.fromUTF8? bytes = none ∨ ∃ text, String.fromUTF8? bytes = some text ∧
        (Json.read (unified text) = .error .tooManyDigits ∨
          ∃ d, Json.read (unified text) = .ok d ∧ Stumbles d)) := by
  refine ⟨load_stumbles_iff d, ?_⟩
  unfold loadBytes decode
  rcases String.fromUTF8? bytes with _ | text
  · exact ⟨fun _ => Or.inl rfl, fun _ => ⟨.notText, rfl, rfl⟩⟩
  · refine (loadText_stumbles_iff name text).trans ⟨fun h => Or.inr ⟨text, rfl, h⟩, ?_⟩
    rintro (hnone | ⟨text', hsome, h⟩)
    · cases hnone
    · cases hsome
      exact h

/-- A document with one entry, of type `a` and with one more part. -/
def oneEntry (name : String) (v : Value) : Value :=
  .table [(.str "blocks", .list [.table [(.str "type", .str "a"), (.str name, v)]])]

/-- An entry without a type that there are no words for. -/
def vastEntry : Value := .list [.int (10 ^ 5000)]

theorem load_vastEntry : load (.table [(.str "blocks", .list [vastEntry])]) = .error .wrongForm := by
  have hunfit : vastEntry.fits = false := by decide +kernel
  have hfault : (FormatError.untypedEntry vastEntry).fault = .wrongForm :=
    if_neg (by simp [FormatError.told, hunfit])
  rw [← hfault]
  rfl

/-- One document for each way to stumble, and bytes that are no text. -/
theorem null_fields_stumble :
    load (oneEntry "fields" .null) = .error .wrongKind ∧
    load (oneEntry "fields" (.list [.str "abc"])) = .error .wrongForm ∧
    load (oneEntry "id" (.list [])) = .error .wrongKind ∧
    load (oneEntry "inputs" (.list [])) = .error .noParts ∧
    load (oneEntry "statements" .null) = .error .noParts ∧
    load (.table [(.str "blocks", .list [vastEntry])]) = .error .wrongForm ∧
    loadBytes "w.json" ⟨#[255]⟩ = .error .notText := by
  have hbytes : String.fromUTF8? ⟨#[255]⟩ = none := by decide +kernel
  refine ⟨rfl, rfl, rfl, rfl, rfl, load_vastEntry, ?_⟩
  unfold loadBytes decode
  rw [hbytes]
  rfl

end Document
end BlockCode
