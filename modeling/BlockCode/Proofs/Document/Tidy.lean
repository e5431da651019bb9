-- What a grown tree looks like, and that it grows again as it is. In a tidy tree every
-- block has an id, and no block has two inputs of one name. What a document describes
-- grows into tidy trees, and the plain form of a tidy tree grows into a tree with the
-- same entry.
import BlockCode.Proofs.Document.Writing
import BlockCode.Proofs.Workspace.Settled

namespace BlockCode

/-- The names and kinds of inputs. -/
def Inputs.heads : Inputs → List (Value × SlotKind)
  | .nil => []
  | .cons name kind _ rest => (name, kind) :: rest.heads

/-- No input has the name of an earlier one. -/
def NamesApart (heads : List (Value × SlotKind)) : Prop :=
  heads.Pairwise fun a b => a.1.same b.1 = false

/-- The inputs as they are told of, those for values first. -/
def Inputs.sorted (inputs : Inputs) : Inputs := (inputs.plain .value).append (inputs.plain .statement)

mutual
/-- Every block has an id, a table of fields, and inputs with names of their own. -/
def Chain.Tidy : Chain → Prop
  | .nil => True
  | .cons b inputs next => b.id.isNull = false ∧ (∃ entries, b.fields = .table entries) ∧
    NamesApart inputs.sorted.heads ∧ inputs.Tidy ∧ next.Tidy

def Inputs.Tidy : Inputs → Prop
  | .nil => True
  | .cons _ _ target rest => target.Tidy ∧ rest.Tidy
end

/-! ## Names and kinds of inputs that settle -/

namespace Inputs

theorem heads_append (inputs more : Inputs) :
    (inputs.append more).heads = inputs.heads ++ more.heads := by
  induction inputs using Inputs.inductionOn with
  | nil => rfl
  | cons name kind target rest ih => rw [append, heads, heads, ih, List.cons_append]

theorem heads_plug (inputs : Inputs) (name : Value) (tree : Chain) :
    (inputs.plug name tree).heads = inputs.heads := by
  induction inputs using Inputs.inductionOn with
  | nil => rfl
  | cons n kind target rest ih =>
    rw [plug]
    split
    · rfl
    · rw [heads, heads, ih]

theorem has_eq_any (inputs : Inputs) (name : Value) :
    inputs.has name = inputs.heads.any (·.1.same name) := by
  induction inputs using Inputs.inductionOn with
  | nil => rfl
  | cons n kind target rest ih => rw [has, heads, List.any_cons, ih]

/-- The heads with one more, unless its name is there. -/
def headsWith (heads : List (Value × SlotKind)) (name : Value) (kind : SlotKind) :
    List (Value × SlotKind) :=
  if heads.any (·.1.same name) then heads else heads ++ [(name, kind)]

theorem heads_declare (inputs : Inputs) (name : Value) (kind : SlotKind) :
    (inputs.declare name kind).heads = headsWith inputs.heads name kind := by
  unfold declare headsWith
  rw [has_eq_any]
  split
  · rfl
  · rw [heads_append]
    rfl

theorem heads_settleFrom (done : Inputs) (start : Nat) (inputs : Inputs) :
    (done.settleFrom start inputs).heads =
      inputs.heads.foldl (fun heads e => headsWith heads e.1 e.2) done.heads := by
  induction inputs using Inputs.inductionOn generalizing done start with
  | nil => rfl
  | cons name kind target rest ih =>
    rw [settleFrom, heads, List.foldl_cons]
    split
    · rw [ih, heads_declare]
    · rw [ih, heads_plug, heads_declare]

end Inputs

theorem namesApart_foldl {heads more : List (Value × SlotKind)} (h : NamesApart heads) :
    NamesApart (more.foldl (fun heads e => Inputs.headsWith heads e.1 e.2) heads) := by
  induction more generalizing heads with
  | nil => exact h
  | cons e rest ih =>
    rw [List.foldl_cons]
    apply ih
    unfold Inputs.headsWith
    split
    · exact h
    · rename_i hany
      rw [Bool.not_eq_true, List.any_eq_false] at hany
      refine List.pairwise_append.mpr ⟨h, List.pairwise_singleton _ _, ?_⟩
      intro a ha b hb
      rw [List.mem_singleton.mp hb]
      simpa using hany a ha

theorem foldl_headsWith (heads more : List (Value × SlotKind)) :
    ∃ extra, more.foldl (fun heads e => Inputs.headsWith heads e.1 e.2) heads = heads ++ extra ∧
      ∀ e ∈ extra, e ∈ more := by
  induction more generalizing heads with
  | nil => exact ⟨[], (List.append_nil _).symm, fun _ h => h⟩
  | cons e rest ih =>
    have hstep : Inputs.headsWith heads e.1 e.2 = heads ∨
        Inputs.headsWith heads e.1 e.2 = heads ++ [e] := by
      unfold Inputs.headsWith
      split
      · exact Or.inl rfl
      · exact Or.inr rfl
    rw [List.foldl_cons]
    rcases hstep with hsame | hmore
    · rw [hsame]
      obtain ⟨extra, heq, hmem⟩ := ih heads
      exact ⟨extra, heq, fun a ha => List.mem_cons_of_mem _ (hmem a ha)⟩
    · rw [hmore]
      obtain ⟨extra, heq, hmem⟩ := ih (heads ++ [e])
      refine ⟨e :: extra, by rw [heq, List.append_assoc, List.singleton_append], ?_⟩
      intro a ha
      rcases List.mem_cons.mp ha with rfl | ha
      · exact List.mem_cons_self
      · exact List.mem_cons_of_mem _ (hmem a ha)

theorem heads_plain (inputs : Inputs) (kind : SlotKind) :
    (inputs.plain kind).heads = inputs.heads.filter (·.2 == kind) := by
  induction inputs using Inputs.inductionOn with
  | nil => rfl
  | cons name k target rest ih =>
    rw [Inputs.plain, Inputs.heads, List.filter_cons]
    split
    · rename_i hk
      rw [Inputs.heads, ih, ← beq_iff_eq.mp hk]
    · exact ih

/-! ## What a document describes -/

/-- All inputs are of this kind. -/
def Inputs.AllOf (kind : SlotKind) (inputs : Inputs) : Prop := ∀ e ∈ inputs.heads, e.2 = kind

/-- Inputs for values that settle, and then inputs for statements, have names of their own
and stay in this order. -/
theorem namesApart_settleFrom {values statements : Inputs} (hvalues : values.AllOf .value)
    (hstatements : statements.AllOf .statement) (start : Nat) :
    NamesApart (Inputs.settleFrom .nil start (values.append statements)).sorted.heads := by
  have hheads := Inputs.heads_settleFrom .nil start (values.append statements)
  rw [Inputs.heads_append, List.foldl_append] at hheads
  obtain ⟨first, hfirst, hvalue⟩ := foldl_headsWith Inputs.nil.heads values.heads
  obtain ⟨second, hsecond, hstatement⟩ := foldl_headsWith first statements.heads
  have hapart : NamesApart (Inputs.settleFrom .nil start (values.append statements)).heads := by
    rw [hheads]
    exact namesApart_foldl (namesApart_foldl List.Pairwise.nil)
  rw [hfirst] at hheads
  rw [show Inputs.nil.heads ++ first = first from rfl, hsecond] at hheads
  have hv : ∀ e ∈ first, e.2 = .value := fun e he => hvalues e (hvalue e he)
  have hs : ∀ e ∈ second, e.2 = .statement := fun e he => hstatements e (hstatement e he)
  have hsorted : (Inputs.settleFrom .nil start (values.append statements)).sorted.heads =
      first ++ second := by
    unfold Inputs.sorted
    rw [Inputs.heads_append, heads_plain, heads_plain, hheads, List.filter_append,
      List.filter_append]
    rw [List.filter_eq_self.mpr (fun e he => by rw [hv e he]; rfl),
      List.filter_eq_nil_iff.mpr (fun e he => by rw [hs e he]; exact nofun),
      List.filter_eq_nil_iff.mpr (fun e he => by rw [hv e he]; exact nofun),
      List.filter_eq_self.mpr (fun e he => by rw [hs e he]; rfl), List.append_nil, List.nil_append]
  rw [hsorted, ← hheads]
  exact hapart

mutual
/-- Every block has a table of fields, and inputs for values before those for statements. -/
def Chain.Formed : Chain → Prop
  | .nil => True
  | .cons b inputs next => (∃ entries, b.fields = .table entries) ∧
    (∃ values statements : Inputs, inputs = values.append statements ∧ values.AllOf .value ∧
      statements.AllOf .statement) ∧ inputs.Formed ∧ next.Formed

def Inputs.Formed : Inputs → Prop
  | .nil => True
  | .cons _ _ target rest => target.Formed ∧ rest.Formed
end

theorem Inputs.formed_append {inputs more : Inputs} (h : inputs.Formed) (hmore : more.Formed) :
    (inputs.append more).Formed := by
  induction inputs using Inputs.inductionOn with
  | nil => exact hmore
  | cons name kind target rest ih => exact ⟨h.1, ih h.2⟩

theorem Inputs.allOf_cons {name : Value} {kind : SlotKind} {target : Chain} {rest : Inputs}
    (h : rest.AllOf kind) : (Inputs.cons name kind target rest).AllOf kind := by
  intro e he
  rcases List.mem_cons.mp he with rfl | he
  · rfl
  · exact h e he

namespace Document

/-- The outline of a value is formed, and so are inputs, of one kind. -/
def FormedOutline (v : Value) : Prop :=
  (∀ c, outline v = some c → c.Formed) ∧
    ∀ kind inputs, outlineInputs v kind = some inputs → inputs.Formed ∧ inputs.AllOf kind

theorem formed_slots {entries : Entries} (h : ∀ e ∈ entries, FormedOutline e.2) {kind : SlotKind}
    {inputs : Inputs} (hout : outlineSlots entries kind = some inputs) :
    inputs.Formed ∧ inputs.AllOf kind := by
  induction entries generalizing inputs with
  | nil =>
    cases hout
    exact ⟨trivial, fun e he => absurd he List.not_mem_nil⟩
  | cons e rest ih =>
    rcases e with ⟨name, v⟩
    have hrest : ∀ others, outlineSlots rest kind = some others →
        others.Formed ∧ others.AllOf kind :=
      fun others => ih fun e he => h e (List.mem_cons_of_mem _ he)
    rw [outlineSlots] at hout
    split at hout
    · obtain ⟨others, hothers, rfl⟩ := Option.map_eq_some_iff.mp hout
      obtain ⟨hformed, hall⟩ := hrest others hothers
      exact ⟨⟨trivial, hformed⟩, Inputs.allOf_cons hall⟩
    · obtain ⟨target, htarget, hout⟩ := Option.bind_eq_some_iff.mp hout
      obtain ⟨others, hothers, rfl⟩ := Option.map_eq_some_iff.mp hout
      obtain ⟨hformed, hall⟩ := hrest others hothers
      exact ⟨⟨(h _ List.mem_cons_self).1 target htarget, hformed⟩, Inputs.allOf_cons hall⟩

theorem formed_sketched {entries : Entries} (h : ∀ e ∈ entries, FormedOutline e.2) {name : String}
    {kind : SlotKind} {inputs : Inputs}
    (hout : sketched (sketches entries) name .nil (·.slots kind) = some inputs) :
    inputs.Formed ∧ inputs.AllOf kind := by
  unfold sketched at hout
  rw [find_sketches] at hout
  rcases hfind : entries.find? (·.1.same (.str name)) with _ | e
  · rw [hfind] at hout
    cases hout
    exact ⟨trivial, fun e he => absurd he List.not_mem_nil⟩
  · rw [hfind] at hout
    exact (h e (List.mem_of_find?_eq_some hfind)).2 kind inputs hout

theorem formed_next {entries : Entries} (h : ∀ e ∈ entries, FormedOutline e.2) {next : Chain}
    (hout : outlineNext entries (sketches entries) = some next) : next.Formed := by
  unfold outlineNext at hout
  split at hout
  · unfold sketched at hout
    rw [find_sketches] at hout
    rcases hfind : entries.find? (·.1.same (.str "next")) with _ | e
    · rw [hfind] at hout
      cases hout
      exact trivial
    · rw [hfind] at hout
      exact (h e (List.mem_of_find?_eq_some hfind)).1 next hout
  · cases hout
    exact trivial

theorem formed_table {entries : Entries} (h : ∀ e ∈ entries, FormedOutline e.2) {c : Chain}
    (hout : outline (.table entries) = some c) : c.Formed := by
  unfold outline outlineEntry at hout
  simp only [Option.bind_eq_bind, Option.bind_eq_some_iff, pure, Option.some.injEq] at hout
  obtain ⟨type, -, b, hraw, values, hvalues, statements, hstatements, next, hnext, rfl⟩ := hout
  obtain ⟨hv, hvkind⟩ := formed_sketched h hvalues
  obtain ⟨hs, hskind⟩ := formed_sketched h hstatements
  refine ⟨?_, ⟨values, statements, rfl, hvkind, hskind⟩, Inputs.formed_append hv hs,
    formed_next h hnext⟩
  unfold rawBlock at hraw
  simp only [Option.bind_eq_bind, Option.bind_eq_some_iff, pure, Option.some.injEq] at hraw
  obtain ⟨fields, -, rfl⟩ := hraw
  exact ⟨fields, rfl⟩

theorem formedOutline (v : Value) : FormedOutline v := by
  induction v using Value.inductionOn with
  | table entries ih =>
    have hvalues : ∀ e ∈ entries, FormedOutline e.2 := fun e he => (ih e he).2
    refine ⟨fun c => formed_table hvalues, ?_⟩
    intro kind inputs hout
    rw [outlineInputs] at hout
    exact formed_slots hvalues hout
  | _ => exact ⟨fun c h => (by cases h), fun kind inputs h => (by cases h)⟩

end Document

/-! ## Formed trees grow into tidy ones -/

theorem Inputs.tidy_append {inputs more : Inputs} (h : inputs.Tidy) (hmore : more.Tidy) :
    (inputs.append more).Tidy := by
  induction inputs using Inputs.inductionOn with
  | nil => exact hmore
  | cons name kind target rest ih => exact ⟨h.1, ih h.2⟩

theorem Inputs.tidy_declare {inputs : Inputs} (h : inputs.Tidy) (name : Value) (kind : SlotKind) :
    (inputs.declare name kind).Tidy := by
  unfold declare
  split
  · exact h
  · exact tidy_append h ⟨trivial, trivial⟩

theorem Inputs.tidy_plug {inputs : Inputs} (h : inputs.Tidy) (name : Value) {tree : Chain}
    (htree : tree.Tidy) : (inputs.plug name tree).Tidy := by
  induction inputs using Inputs.inductionOn with
  | nil => exact trivial
  | cons n kind target rest ih =>
    rw [plug]
    split
    · exact ⟨htree, h.2⟩
    · exact ⟨h.1, ih h.2⟩

theorem Inputs.tidy_settleFrom {inputs : Inputs}
    (hin : inputs.Every fun c => c.Formed → ∀ start, (c.settle start).Tidy)
    (hformed : inputs.Formed) {done : Inputs} (hdone : done.Tidy) (start : Nat) :
    (done.settleFrom start inputs).Tidy := by
  induction inputs using Inputs.inductionOn generalizing done start with
  | nil => exact hdone
  | cons name kind target rest ih =>
    have hdeclared := tidy_declare hdone name kind
    rw [settleFrom]
    split
    · exact ih hin.2 hformed.2 hdeclared start
    · exact ih hin.2 hformed.2 (tidy_plug hdeclared name (hin.1 hformed.1 start)) _

theorem Chain.tidy_settle (c : Chain) : c.Formed → ∀ start, (c.settle start).Tidy := by
  induction c using Chain.inductionOn with
  | nil => exact fun _ _ => trivial
  | cons b inputs next hin hnext =>
    rintro ⟨hfields, ⟨values, statements, rfl, hvalues, hstatements⟩, hinputs, hbehind⟩ start
    refine ⟨?_, hfields, namesApart_settleFrom hvalues hstatements (start + 1),
      Inputs.tidy_settleFrom hin hinputs (show Inputs.nil.Tidy from trivial) _, hnext hbehind _⟩
    show (if b.id.isNull then Value.str ("b" ++ toString (start + 1)) else b.id).isNull = false
    rcases hnull : b.id.isNull with _ | _
    · exact hnull
    · rfl

theorem Inputs.tabled_of_tidy {inputs : Inputs} (hin : inputs.Every fun c => c.Tidy → c.Tabled)
    (h : inputs.Tidy) : ∀ b ∈ inputs.blocks, ∃ entries, b.fields = .table entries := by
  induction inputs using Inputs.inductionOn with
  | nil => exact fun b hb => absurd hb List.not_mem_nil
  | cons name kind target rest ih =>
    intro b hb
    rcases List.mem_append.mp hb with hb | hb
    · exact hin.1 h.1 b hb
    · exact ih hin.2 h.2 b hb

theorem Chain.tabled_of_tidy (c : Chain) : c.Tidy → c.Tabled := by
  induction c using Chain.inductionOn with
  | nil => exact fun _ b hb => absurd hb List.not_mem_nil
  | cons b inputs next hin hnext =>
    rintro ⟨-, hfields, -, hinputs, hbehind⟩ d hd
    rcases List.mem_cons.mp hd with rfl | hd
    · exact hfields
    · rcases List.mem_append.mp hd with hd | hd
      · exact Inputs.tabled_of_tidy hin hinputs d hd
      · exact hnext hbehind d hd

/-! ## A tidy tree grows again as it is -/

/-- The inputs, each grown where it stands. -/
def Inputs.settleEach (start : Nat) : Inputs → Inputs
  | .nil => .nil
  | .cons name kind target rest =>
    .cons name kind (target.settle start) (rest.settleEach (start + target.blocks.length))

theorem Chain.isEmpty_settle (c : Chain) (start : Nat) : (c.settle start).isEmpty = c.isEmpty := by
  cases c <;> rfl

theorem Chain.isEmpty_plain (c : Chain) : c.plain.isEmpty = c.isEmpty := by
  cases c <;> rfl

namespace Inputs

theorem append_assoc (first second third : Inputs) :
    (first.append second).append third = first.append (second.append third) := by
  induction first using Inputs.inductionOn with
  | nil => rfl
  | cons name kind target rest ih => rw [append, append, append, ih]

/-- Behind inputs with other names, a tree is put into the new one. -/
theorem plug_behind {done : Inputs} {name : Value} (h : done.has name = false) (kind : SlotKind)
    (tree : Chain) :
    (done.append (.cons name kind .nil .nil)).plug name tree =
      done.append (.cons name kind tree .nil) := by
  induction done using Inputs.inductionOn with
  | nil =>
    rw [append, append, plug, Value.same_self]
    rfl
  | cons n k target rest ih =>
    rw [has, Bool.or_eq_false_iff] at h
    rw [append, append, plug, h.1, ih h.2]
    rfl

theorem settleFrom_apart {done inputs : Inputs} (h : NamesApart (done.heads ++ inputs.heads))
    (start : Nat) : done.settleFrom start inputs = done.append (inputs.settleEach start) := by
  induction inputs using Inputs.inductionOn generalizing done start with
  | nil =>
    rw [settleFrom, settleEach]
    clear h
    induction done using Inputs.inductionOn with
    | nil => rfl
    | cons name kind target rest ih => rw [append, ← ih]
  | cons name kind target rest ih =>
    have hnew : done.has name = false := by
      rw [has_eq_any, List.any_eq_false]
      intro e he
      have := (List.pairwise_append.mp h).2.2 e he (name, kind) List.mem_cons_self
      simpa using this
    have hdeclare : done.declare name kind = done.append (.cons name kind .nil .nil) := by
      unfold declare
      rw [hnew]
      rfl
    have hrest : ∀ tree, NamesApart ((done.append (.cons name kind tree .nil)).heads ++ rest.heads) := by
      intro tree
      rw [heads_append, List.append_assoc]
      exact h
    have hjoin : ∀ tree more, (done.append (.cons name kind tree .nil)).append more =
        done.append (.cons name kind tree more) := by
      intro tree more
      rw [append_assoc]
      rfl
    rw [settleFrom, settleEach, hdeclare]
    rcases hempty : target.isEmpty with _ | _
    · simp only [Bool.false_eq_true, if_false]
      rw [plug_behind hnew, ih (hrest _), hjoin]
    · have htarget : target = .nil := by
        cases target with
        | nil => rfl
        | cons b inputs next => cases hempty
      subst htarget
      simp only [if_true]
      rw [ih (hrest _), hjoin]
      rfl

theorem settleEach_append (inputs more : Inputs) (start : Nat) :
    (inputs.append more).settleEach start =
      (inputs.settleEach start).append (more.settleEach (start + inputs.blocks.length)) := by
  induction inputs using Inputs.inductionOn generalizing start with
  | nil => rfl
  | cons name kind target rest ih =>
    rw [append, settleEach, settleEach, append, ih, blocks, List.length_append, Nat.add_assoc]

end Inputs

namespace Document

theorem inputEntries_append (kind : SlotKind) (inputs more : Inputs) :
    inputEntries kind (inputs.append more) = (do
      let first ← inputEntries kind inputs
      let second ← inputEntries kind more
      return first ++ second) := by
  induction inputs using Inputs.inductionOn with
  | nil =>
    rw [Inputs.append, inputEntries]
    exact (bind_pure _).symm
  | cons name k target rest ih =>
    rw [Inputs.append, inputEntries, inputEntries]
    split
    · rw [ih]
      simp only [bind_assoc, pure_bind, List.cons_append]
    · exact ih

/-- The tree, told of and grown again, is told of as before. -/
def Steady (c : Chain) : Prop := c.Tidy → ∀ start, entry (c.plain.settle start) = entry c

theorem steady_inputs {inputs : Inputs} (hin : inputs.Every Steady) (h : inputs.Tidy)
    (asked kind : SlotKind) (start : Nat) :
    inputEntries asked ((inputs.plain kind).settleEach start) =
      if kind = asked then inputEntries asked inputs else .ok [] := by
  induction inputs using Inputs.inductionOn generalizing start with
  | nil =>
    split
    · rfl
    · rfl
  | cons name k target rest ih =>
    have hrest := ih hin.2 h.2
    rw [Inputs.plain]
    rcases hk : k == kind with _ | _
    · simp only [Bool.false_eq_true, if_false]
      rw [hrest]
      split
      · rename_i hasked
        subst hasked
        rw [inputEntries, hk]
        rfl
      · rfl
    · have hkind : k = kind := beq_iff_eq.mp hk
      subst hkind
      simp only [if_true]
      rw [Inputs.settleEach, inputEntries, hin.1 h.1, hrest]
      by_cases hasked : k = asked
      · subst hasked
        rw [inputEntries]
        simp only [if_true]
      · rw [beq_eq_false_iff_ne.mpr hasked]
        simp only [Bool.false_eq_true, if_neg hasked, if_false]

theorem ownParts_placed {b : Block} (h : b.id.isNull = false) (start : Nat) :
    ownParts (b.plain.placed start) = ownParts b := by
  have hcomment : unlessEmpty (!b.commentText.truth) "comment" b.commentText =
      unlessEmpty (!b.comment.truth) "comment" b.comment := by
    unfold Block.commentText
    rcases hterm : b.comment.truth with _ | _
    · rfl
    · simp only [if_true, hterm]
  have hid : (b.plain.placed start).id = b.id := by
    show (if b.id.isNull then _ else b.id) = b.id
    rw [h]
    rfl
  unfold ownParts
  rw [hid]
  show (do
    return [(Value.str "type", b.type)] ++ unlessEmpty b.id.isNull "id" b.id ++ (← writtenFields b) ++
      unlessEmpty (!b.isDisabled) "disabled" (.bool true) ++
      unlessEmpty (!b.commentText.truth) "comment" b.commentText ++
      unlessEmpty (!b.givesValue) "output" (.bool true) : Except Fault Entries) = _
  rw [hcomment]

theorem steady (c : Chain) : Steady c := by
  induction c using Chain.inductionOn with
  | nil => exact fun _ _ => rfl
  | cons b inputs next hin hnext =>
    rintro ⟨hid, -, hapart, hinputs, hbehind⟩ start
    have hslots : Inputs.settleFrom .nil (start + 1) inputs.sorted =
        inputs.sorted.settleEach (start + 1) := by
      refine Inputs.settleFrom_apart ?_ _
      exact hapart
    rw [Chain.plain, Chain.settle]
    show entry (.cons (b.plain.placed start) (Inputs.settleFrom .nil (start + 1) inputs.sorted) _) = _
    rw [hslots, Inputs.sorted, Inputs.settleEach_append, entry, entry, ownParts_placed hid,
      inputEntries_append, inputEntries_append, hnext hbehind, Chain.isEmpty_settle,
      Chain.isEmpty_plain]
    simp only [steady_inputs hin hinputs, if_true, reduceCtorEq, if_false]
    rcases inputEntries .value inputs with fault | values
    · rfl
    · rcases inputEntries .statement inputs with fault | statements
      · rfl
      · simp only [bind, Except.bind, pure, Except.pure, List.append_nil, List.nil_append]

end Document
end BlockCode
