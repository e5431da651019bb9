-- Induction on trees, and what is found in their inputs.
import BlockCode.Workspace.Tree

namespace BlockCode

/-! ## Induction -/

/-- All that is plugged into the inputs has a property. -/
def Inputs.Every (P : Chain → Prop) : Inputs → Prop
  | .nil => True
  | .cons _ _ target rest => P target ∧ rest.Every P

/-- Induction on trees: a block may use the property of all that is plugged into its
inputs and of the chain behind it. -/
@[elab_as_elim]
theorem Chain.inductionOn {P : Chain → Prop} (nil : P .nil)
    (cons : ∀ b inputs next, inputs.Every P → P next → P (.cons b inputs next)) (c : Chain) :
    P c :=
  @Chain.rec P (Inputs.Every P) nil cons trivial
    (fun _ _ _ _ ht hrest => ⟨ht, hrest⟩) c

/-- Induction on inputs as on a list, one input after the other. -/
@[elab_as_elim]
theorem Inputs.inductionOn {P : Inputs → Prop} (nil : P .nil)
    (cons : ∀ name kind target rest, P rest → P (.cons name kind target rest))
    (inputs : Inputs) : P inputs :=
  @Inputs.rec (fun _ => True) P trivial (fun _ _ _ _ _ => trivial) nil
    (fun name kind target rest _ h => cons name kind target rest h) inputs

theorem Inputs.every_of_forall {P : Chain → Prop} (h : ∀ c, P c) (inputs : Inputs) :
    inputs.Every P := by
  induction inputs using Inputs.inductionOn with
  | nil => exact trivial
  | cons name kind target rest ih => exact ⟨h target, ih⟩

/-! ## Looking up inputs -/

/-- The input of a name. -/
def Inputs.at? (name : Value) : Inputs → Option (Value × SlotKind × Chain)
  | .nil => none
  | .cons n kind target rest => if n.same name then some (n, kind, target) else rest.at? name

theorem Inputs.Every.of_at? {P : Chain → Prop} {inputs : Inputs} (h : inputs.Every P)
    {name n : Value} {kind : SlotKind} {target : Chain}
    (hat : inputs.at? name = some (n, kind, target)) : P target := by
  induction inputs using Inputs.inductionOn with
  | nil => cases hat
  | cons m k t rest ih =>
    unfold Inputs.at? at hat
    split at hat
    · cases hat
      exact h.1
    · exact ih h.2 hat

theorem Inputs.target_eq_at? (inputs : Inputs) (name : Value) :
    inputs.target name = ((inputs.at? name).map (·.2.2)).getD .nil := by
  induction inputs using Inputs.inductionOn with
  | nil => rfl
  | cons m k t rest ih =>
    unfold Inputs.target Inputs.at?
    split
    · rfl
    · exact ih

end BlockCode
