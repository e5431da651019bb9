-- How blocks are wired. The wiring is told block by block, with what hangs on each: where
-- blocks that give values may sit, and where those may that give none.
import BlockCode.Proofs.Workspace.Parts

namespace BlockCode

/-! ## What holds everywhere in a tree -/

/-- It holds of every block of the tree, with its inputs and the chain behind it. -/
def Chain.All (P : Block → Inputs → Chain → Prop) (c : Chain) : Prop :=
  ∀ b inputs next, .cons b inputs next ∈ c.parts → P b inputs next

/-- It holds everywhere in what is plugged into the inputs. -/
def Inputs.All (P : Block → Inputs → Chain → Prop) (inputs : Inputs) : Prop :=
  ∀ b below next, .cons b below next ∈ inputs.parts → P b below next

/-- It holds everywhere in the trees of the top blocks. -/
def Workspace.All (P : Block → Inputs → Chain → Prop) (w : Workspace) : Prop :=
  ∀ c ∈ w.trees, c.All P

section All

variable {P Q : Block → Inputs → Chain → Prop} {b : Block} {inputs rest : Inputs}
  {c next target : Chain} {name : Value} {kind : SlotKind}

@[simp] theorem Chain.all_nil : Chain.nil.All P := by
  intro b inputs next hmem
  cases hmem

@[simp] theorem Inputs.all_nil : Inputs.nil.All P := by
  intro b below next hmem
  cases hmem

@[simp] theorem Chain.all_cons :
    (Chain.cons b inputs next).All P ↔ P b inputs next ∧ inputs.All P ∧ next.All P := by
  unfold Chain.All Inputs.All
  simp only [Chain.parts, List.mem_cons, List.mem_append]
  constructor
  · intro h
    exact ⟨h b inputs next (Or.inl rfl), fun b' i n hmem => h b' i n (Or.inr (Or.inl hmem)),
      fun b' i n hmem => h b' i n (Or.inr (Or.inr hmem))⟩
  · rintro ⟨hb, hinputs, hnext⟩ b' i n (heq | hmem | hmem)
    · cases heq
      exact hb
    · exact hinputs b' i n hmem
    · exact hnext b' i n hmem

@[simp] theorem Inputs.all_cons :
    (Inputs.cons name kind target rest).All P ↔ target.All P ∧ rest.All P := by
  unfold Chain.All Inputs.All
  simp only [Inputs.parts, List.mem_append]
  constructor
  · exact fun h => ⟨fun b i n hmem => h b i n (Or.inl hmem), fun b i n hmem => h b i n (Or.inr hmem)⟩
  · rintro ⟨htarget, hrest⟩ b i n (hmem | hmem)
    · exact htarget b i n hmem
    · exact hrest b i n hmem

/-- It holds of the head, with its inputs and the chain behind it. -/
def Chain.AtHead (P : Block → Inputs → Chain → Prop) : Chain → Prop
  | .nil => True
  | .cons b inputs next => P b inputs next

theorem Chain.all_iff : c.All P ↔ ∀ part ∈ c.parts, part.AtHead P := by
  constructor
  · intro h part hpart
    cases part with
    | nil => trivial
    | cons b inputs next => exact h b inputs next hpart
  · exact fun h b inputs next hpart => h _ hpart

instance Chain.decidableAtHead [∀ b inputs next, Decidable (P b inputs next)] :
    (c : Chain) → Decidable (c.AtHead P)
  | .nil => .isTrue trivial
  | .cons b inputs next => inferInstanceAs (Decidable (P b inputs next))

/-- What can be decided of a block can be decided everywhere in a tree. -/
instance Chain.decidableAll [∀ b inputs next, Decidable (P b inputs next)] (c : Chain) :
    Decidable (c.All P) :=
  decidable_of_iff _ Chain.all_iff.symm

instance Workspace.decidableAll [∀ b inputs next, Decidable (P b inputs next)] (w : Workspace) :
    Decidable (w.All P) :=
  inferInstanceAs (Decidable (∀ c ∈ w.trees, c.All P))

theorem Chain.All.mono (h : c.All P) (hPQ : ∀ b inputs next, P b inputs next → Q b inputs next) :
    c.All Q := fun b inputs next hmem => hPQ b inputs next (h b inputs next hmem)

theorem Inputs.blocks_eq
    (h : inputs.Every fun c => c.blocks = c.parts.filterMap Chain.head?) :
    inputs.blocks = inputs.parts.filterMap Chain.head? := by
  induction inputs using Inputs.inductionOn with
  | nil => rfl
  | cons name kind target rest ih =>
    rw [Inputs.blocks, Inputs.parts, List.filterMap_append, h.1, ih h.2]

/-- The blocks of a tree are the heads of the trees in it. -/
theorem Chain.blocks_eq (c : Chain) : c.blocks = c.parts.filterMap Chain.head? := by
  induction c using Chain.inductionOn with
  | nil => rfl
  | cons b inputs next hin hnext =>
    rw [Chain.blocks, Chain.parts, List.filterMap_cons, List.filterMap_append,
      Inputs.blocks_eq hin, hnext]
    rfl

/-- What holds everywhere holds of every block. -/
theorem Chain.All.blocks {R : Block → Prop} (h : c.All fun b _ _ => R b) : ∀ b ∈ c.blocks, R b := by
  intro b hb
  rw [Chain.blocks_eq, List.mem_filterMap] at hb
  obtain ⟨_ | ⟨b', inputs, next⟩, hpart, hhead⟩ := hb
  · cases hhead
  · cases hhead
    exact h b inputs next hpart

theorem Inputs.All.of_at? {n : Value} (h : inputs.All P)
    (hat : inputs.at? name = some (n, kind, target)) : target.All P := by
  induction inputs using Inputs.inductionOn with
  | nil => cases hat
  | cons m k t rest ih =>
    obtain ⟨htarget, hrest⟩ := Inputs.all_cons.mp h
    unfold Inputs.at? at hat
    split at hat
    · cases hat
      exact htarget
    · exact ih hrest hat

theorem Inputs.All.of_target (h : inputs.All P) (name : Value) : (inputs.target name).All P := by
  rw [Inputs.target_eq_at?]
  rcases hat : inputs.at? name with _ | ⟨n, kind, target⟩
  · exact Chain.all_nil
  · exact h.of_at? hat

theorem Inputs.All.of_targets (h : inputs.All P) : ∀ c ∈ inputs.targets kind, c.All P := by
  induction inputs using Inputs.inductionOn with
  | nil =>
    intro c hc
    cases hc
  | cons m k t rest ih =>
    obtain ⟨htarget, hrest⟩ := Inputs.all_cons.mp h
    intro c hc
    unfold Inputs.targets at hc
    split at hc
    · rcases List.mem_cons.mp hc with rfl | hc
      · exact htarget
      · exact ih hrest c hc
    · exact ih hrest c hc

/-- What holds of all that is plugged in, and of nothing, holds of what is under a name. -/
theorem Inputs.Every.of_target {R : Chain → Prop} (h : inputs.Every R) (hnil : R .nil)
    (name : Value) : R (inputs.target name) := by
  rw [Inputs.target_eq_at?]
  rcases hat : inputs.at? name with _ | ⟨n, kind, target⟩
  · exact hnil
  · exact h.of_at? hat

theorem Inputs.Every.of_targets {R : Chain → Prop} (h : inputs.Every R) :
    ∀ c ∈ inputs.targets kind, R c := by
  induction inputs using Inputs.inductionOn with
  | nil =>
    intro c hc
    cases hc
  | cons m k t rest ih =>
    intro c hc
    unfold Inputs.targets at hc
    split at hc
    · rcases List.mem_cons.mp hc with rfl | hc
      · exact h.1
      · exact ih h.2 c hc
    · exact ih h.2 c hc

end All

/-! ## Other things plugged in -/

/-- The inputs with something else plugged into each. -/
def Inputs.map (f : SlotKind → Chain → Chain) : Inputs → Inputs
  | .nil => .nil
  | .cons name kind target rest => .cons name kind (f kind target) (rest.map f)

namespace Inputs

variable {f : SlotKind → Chain → Chain}

theorem has_map (inputs : Inputs) (name : Value) : (inputs.map f).has name = inputs.has name := by
  induction inputs using Inputs.inductionOn with
  | nil => rfl
  | cons n kind target rest ih =>
    unfold map has
    rw [ih]

theorem at?_map (inputs : Inputs) (name : Value) : (inputs.map f).at? name =
    (inputs.at? name).map fun (n, kind, target) => (n, kind, f kind target) := by
  induction inputs using Inputs.inductionOn with
  | nil => rfl
  | cons n kind target rest ih =>
    unfold map at?
    split
    · rfl
    · exact ih

theorem target_map {f : Chain → Chain} (hnil : f .nil = .nil) (inputs : Inputs) (name : Value) :
    (inputs.map fun _ => f).target name = f (inputs.target name) := by
  rw [target_eq_at?, target_eq_at?, at?_map]
  rcases inputs.at? name with _ | ⟨n, kind, target⟩
  · exact hnil.symm
  · rfl

theorem targets_map (inputs : Inputs) (kind : SlotKind) :
    (inputs.map f).targets kind = (inputs.targets kind).map (f kind) := by
  induction inputs using Inputs.inductionOn with
  | nil => rfl
  | cons n k target rest ih =>
    unfold map targets
    by_cases hk : (k == kind) = true
    · obtain rfl := beq_iff_eq.mp hk
      simp [ih]
    · simp [hk, ih]

/-- The inputs of a block, when the places that they hold have changed. -/
theorem ofSlots_map {tree tree' : Option Nat → Chain} {g : Slot → Slot} {slots : List Slot}
    (hsame : ∀ s, (g s).name = s.name ∧ (g s).kind = s.kind)
    (h : ∀ s ∈ slots, tree' (g s).target = f s.kind (tree s.target)) :
    ofSlots tree' (slots.map g) = (ofSlots tree slots).map f := by
  induction slots with
  | nil => rfl
  | cons s rest ih =>
    rw [List.map_cons, ofSlots, ofSlots, map, (hsame s).1, (hsame s).2, h s List.mem_cons_self,
      ih fun t ht => h t (List.mem_cons_of_mem _ ht)]

/-- The inputs of a block, when the trees have changed. -/
theorem ofSlots_eq_map {tree tree' : Option Nat → Chain} {slots : List Slot}
    (h : ∀ s ∈ slots, tree' s.target = f s.kind (tree s.target)) :
    ofSlots tree' slots = (ofSlots tree slots).map f := by
  have hmap := @ofSlots_map f tree tree' id slots (fun _ => ⟨rfl, rfl⟩) h
  rwa [List.map_id] at hmap

end Inputs

/-! ## Where blocks sit -/

instance Chain.decidableNil : (c : Chain) → Decidable (c = .nil)
  | .nil => .isTrue rfl
  | .cons .. => .isFalse nofun

/-- What stands at the head gives a value, if anything does. -/
def Chain.GivesValue (c : Chain) : Prop := ∀ b ∈ c.head?, b.givesValue = true

/-- What stands at the head gives no value. -/
def Chain.GivesNone (c : Chain) : Prop := ∀ b ∈ c.head?, b.givesValue = false

instance Chain.decidableGivesValue (c : Chain) : Decidable c.GivesValue :=
  inferInstanceAs (Decidable (∀ b ∈ c.head?, b.givesValue = true))

instance Chain.decidableGivesNone (c : Chain) : Decidable c.GivesNone :=
  inferInstanceAs (Decidable (∀ b ∈ c.head?, b.givesValue = false))

@[simp] theorem Chain.givesNone_nil : Chain.nil.GivesNone := by
  intro b hb
  cases hb

@[simp] theorem Chain.givesValue_cons {b : Block} {inputs : Inputs} {next : Chain} :
    (Chain.cons b inputs next).GivesValue ↔ b.givesValue = true := by
  simp [Chain.GivesValue, Chain.head?]

@[simp] theorem Chain.givesNone_cons {b : Block} {inputs : Inputs} {next : Chain} :
    (Chain.cons b inputs next).GivesNone ↔ b.givesValue = false := by
  simp [Chain.GivesNone, Chain.head?]

theorem Chain.GivesNone.any {c : Chain} (h : c.GivesNone) :
    c.head?.any (·.givesValue) = false := by
  cases c with
  | nil => rfl
  | cons b inputs next => exact Chain.givesNone_cons.mp h

/-- Blocks that give values end their chains and hold no statements. They sit at the top or
in inputs for values, and no other blocks sit in these. -/
structure Wired (b : Block) (inputs : Inputs) (next : Chain) : Prop where
  ends : b.givesValue = true → next = .nil
  holds : b.givesValue = true → ∀ c ∈ inputs.targets .statement, c = .nil
  behind : next.GivesNone
  values : ∀ c ∈ inputs.targets .value, c.GivesValue
  statements : ∀ c ∈ inputs.targets .statement, c.GivesNone

instance decidableWired (b : Block) (inputs : Inputs) (next : Chain) :
    Decidable (Wired b inputs next) :=
  decidable_of_iff
    ((b.givesValue = true → next = .nil) ∧
      (b.givesValue = true → ∀ c ∈ inputs.targets .statement, c = .nil) ∧ next.GivesNone ∧
      (∀ c ∈ inputs.targets .value, c.GivesValue) ∧ ∀ c ∈ inputs.targets .statement, c.GivesNone)
    ⟨fun ⟨hends, hholds, hbehind, hvalues, hstatements⟩ =>
      ⟨hends, hholds, hbehind, hvalues, hstatements⟩,
      fun h => ⟨h.ends, h.holds, h.behind, h.values, h.statements⟩⟩

/-- What is plugged into inputs that is what it was leaves the inputs as they were. -/
theorem Inputs.map_same {f : SlotKind → Chain → Chain} {inputs : Inputs}
    (h : ∀ kind, ∀ c ∈ inputs.targets kind, f kind c = c) : inputs.map f = inputs := by
  induction inputs using Inputs.inductionOn with
  | nil => rfl
  | cons name kind target rest ih =>
    have hrest : ∀ other, ∀ c ∈ rest.targets other, f other c = c := by
      intro other c hc
      refine h other c ?_
      unfold Inputs.targets
      split
      · exact List.mem_cons_of_mem _ hc
      · exact hc
    rw [Inputs.map, h kind target (by simp [Inputs.targets]), ih hrest]

theorem Inputs.mem_targets_of_at? {inputs : Inputs} {name n : Value} {kind : SlotKind}
    {target : Chain} (hat : inputs.at? name = some (n, kind, target)) :
    target ∈ inputs.targets kind := by
  induction inputs using Inputs.inductionOn with
  | nil => cases hat
  | cons m k t rest ih =>
    unfold Inputs.at? at hat
    unfold Inputs.targets
    split at hat
    · cases hat
      simp
    · split
      · exact List.mem_cons_of_mem _ (ih hat)
      · exact ih hat

end BlockCode
