-- Documents of a plain shape. Every entry has a type, and a text or nothing for its id; its
-- fields, inputs and statements are tables, and no name is given to two inputs.
-- Here it is told what such a document says: its entries one after the other, and its normal
-- form, which is what a workspace with these blocks is written as.
import BlockCode.Proofs.Document.RoundTrip

namespace BlockCode

/-- The text that a value is, if it is one. -/
def Value.str? : Value → Option String
  | .str s => some s
  | _ => none

@[simp] theorem Value.str?_str (s : String) : (Value.str s).str? = some s := rfl

@[simp] theorem Value.str?_null : Value.null.str? = none := rfl

theorem Value.str?_eq_some {v : Value} {s : String} : v.str? = some s ↔ v = .str s := by
  cases v <;> simp [str?]

namespace Document

/-! ## The entries of a document -/

/-- The table that stands under a name, empty if there is none. -/
def held (entries : Entries) (name : String) : Entries :=
  match part entries name (.table []) with
  | .table inner => inner
  | _ => []

theorem held_eq {entries inner : Entries} {name : String}
    (h : part entries name (.table []) = .table inner) : held entries name = inner := by
  unfold held
  rw [h]

theorem get?_of_part {entries inner : Entries} {name : String}
    (h : part entries name (.table []) = .table inner) :
    (Entries.get? entries (.str name) = none ∧ inner = []) ∨
      Entries.get? entries (.str name) = some (.table inner) := by
  unfold part at h
  rcases hget : Entries.get? entries (.str name) with _ | v
  · rw [hget, Option.getD_none, Value.table.injEq] at h
    exact Or.inl ⟨rfl, h.symm⟩
  · rw [hget, Option.getD_some] at h
    exact Or.inr (by rw [h])

theorem sizeOf_get? {entries : Entries} {key v : Value} (h : Entries.get? entries key = some v) :
    sizeOf v < sizeOf entries := by
  induction entries with
  | nil => cases h
  | cons e rest ih =>
    rcases e with ⟨k, u⟩
    rw [Entries.get?_cons] at h
    simp only [List.cons.sizeOf_spec, Prod.mk.sizeOf_spec]
    split at h
    · cases h
      omega
    · have := ih h
      omega

theorem sizeOf_entries (entries : Entries) : 0 < sizeOf entries := by
  cases entries with
  | nil => simp
  | cons e rest =>
    simp only [List.cons.sizeOf_spec]
    omega

theorem sizeOf_part (entries : Entries) (name : String) :
    sizeOf (part entries name .null) < sizeOf (Value.table entries) := by
  have hpositive := sizeOf_entries entries
  rw [Value.table.sizeOf_spec]
  unfold part
  rcases hget : Entries.get? entries (.str name) with _ | v
  · simp only [Option.getD_none, Value.null.sizeOf_spec]
    omega
  · have := sizeOf_get? hget
    simp only [Option.getD_some]
    omega

theorem sizeOf_held (entries : Entries) (name : String) :
    sizeOf (held entries name) < sizeOf (Value.table entries) := by
  have hpositive := sizeOf_entries entries
  rw [Value.table.sizeOf_spec]
  unfold held part
  rcases hget : Entries.get? entries (.str name) with _ | v
  · simp only [Option.getD_none, List.nil.sizeOf_spec]
    omega
  · have := sizeOf_get? hget
    simp only [Option.getD_some]
    split
    · rw [Value.table.sizeOf_spec] at this
      omega
    · simp only [List.nil.sizeOf_spec]
      omega

mutual
/-- The entries of a value, in the order in which they are read: first the entry itself, then
those in its inputs, those in its statements, and those that follow it. -/
def preorder : Value → List Entries
  | .table entries =>
    entries :: (preorderIn (held entries "inputs") ++ preorderIn (held entries "statements") ++
      preorder (part entries "next" .null))
  | _ => []
termination_by v => sizeOf v
decreasing_by
  · exact sizeOf_held entries "inputs"
  · exact sizeOf_held entries "statements"
  · exact sizeOf_part entries "next"

def preorderIn : Entries → List Entries
  | [] => []
  | (_, v) :: rest => preorder v ++ preorderIn rest
termination_by entries => sizeOf entries
decreasing_by
  · simp only [List.cons.sizeOf_spec, Prod.mk.sizeOf_spec]
    omega
  · simp only [List.cons.sizeOf_spec, Prod.mk.sizeOf_spec]
    omega
end

@[simp] theorem preorder_null : preorder .null = [] := by
  unfold preorder
  rfl

theorem preorderIn_eq (entries : Entries) :
    preorderIn entries = entries.flatMap fun e => preorder e.2 := by
  induction entries with
  | nil =>
    unfold preorderIn
    rfl
  | cons e rest ih => rw [preorderIn, ih, List.flatMap_cons]

/-- The block that an entry tells of. -/
def given (entries : Entries) : Block where
  type := part entries "type" .null
  id := part entries "id" .null
  fields := .table (held entries "fields")
  disabled := .bool (part entries "disabled" (.bool false)).truth
  comment := part entries "comment" .null
  output := .bool (part entries "output" (.bool false)).truth

/-! ## The normal form -/

mutual
/-- The normal form of a value behind `k` entries. What is not known, or says nothing, is
left out, and an id is made up where none is given. -/
def normal (k : Nat) : Value → Value
  | .table entries =>
    let id := part entries "id" .null
    let fields := held entries "fields"
    let comment := part entries "comment" .null
    let inputs := held entries "inputs"
    let statements := held entries "statements"
    let next := part entries "next" .null
    let nested := k + 1 + (preorderIn inputs).length
    .table (told [("type", false, part entries "type" .null),
      ("id", false, if id.isNull then generatedId k else id),
      ("fields", fields.isEmpty, .table fields),
      ("disabled", !(part entries "disabled" (.bool false)).truth, .bool true),
      ("comment", !comment.truth, comment),
      ("output", !(part entries "output" (.bool false)).truth, .bool true),
      ("inputs", inputs.isEmpty, .table (normalIn (k + 1) inputs)),
      ("statements", statements.isEmpty, .table (normalIn nested statements)),
      ("next", next.isNull, normal (nested + (preorderIn statements).length) next)])
  | _ => .null
termination_by v => sizeOf v
decreasing_by
  · exact sizeOf_held entries "inputs"
  · exact sizeOf_held entries "statements"
  · exact sizeOf_part entries "next"

/-- Inputs in normal form, each under its name. -/
def normalIn (k : Nat) : Entries → Entries
  | [] => []
  | (name, v) :: rest => (name, normal k v) :: normalIn (k + (preorder v).length) rest
termination_by entries => sizeOf entries
decreasing_by
  · simp only [List.cons.sizeOf_spec, Prod.mk.sizeOf_spec]
    omega
  · simp only [List.cons.sizeOf_spec, Prod.mk.sizeOf_spec]
    omega
end

/-! ## Whole documents -/

/-- The list of a document's entries. -/
def listed : Value → List Value
  | .table entries =>
    match part entries "blocks" (.list []) with
    | .list blocks => blocks
    | _ => []
  | _ => []

/-- All entries of a document, one after the other. -/
def allEntries (d : Value) : List Entries := (listed d).flatMap preorder

/-- The ids that are texts, of all entries. -/
def explicitIds (d : Value) : List String :=
  (allEntries d).filterMap fun entries => (part entries "id" .null).str?

/-- The numbers of the entries in a list, when `k` entries are before it. -/
def numbersFrom (k : Nat) : List Value → List Nat
  | [] => []
  | v :: rest => k :: numbersFrom (k + (preorder v).length) rest

/-- The normal form of a document. -/
def normalised (d : Value) : Value :=
  ofEntries ((numbersFrom 0 (listed d)).zipWith normal (listed d))

/-! ## Plain shape -/

/-- An entry of a plain shape, with all entries in it. Its type and its comment may be
anything. -/
inductive IsEntry : Value → Prop
  | mk {entries inputs statements : Entries} {type : Value}
    (typed : Entries.get? entries (.str "type") = some type)
    (id_text : part entries "id" .null = .null ∨ ∃ s, part entries "id" .null = .str s)
    (fields_table : ∃ fields, part entries "fields" (.table []) = .table fields)
    (inputs_table : part entries "inputs" (.table []) = .table inputs)
    (statements_table : part entries "statements" (.table []) = .table statements)
    (names_apart : ((inputs ++ statements).map (·.1)).Pairwise fun a b => a.same b = false)
    (in_inputs : ∀ e ∈ inputs, e.2 ≠ .null → IsEntry e.2)
    (in_statements : ∀ e ∈ statements, e.2 ≠ .null → IsEntry e.2)
    (behind : part entries "next" .null ≠ .null → IsEntry (part entries "next" .null)) :
    IsEntry (.table entries)

/-- A table with a list of entries of a plain shape. -/
def WellShaped (d : Value) : Prop :=
  (∃ entries blocks, d = .table entries ∧ part entries "blocks" (.list []) = .list blocks) ∧
    ∀ v ∈ listed d, IsEntry v

end Document
end BlockCode
