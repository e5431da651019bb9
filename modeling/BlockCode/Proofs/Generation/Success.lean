-- Runs that succeed. Work that comes to a result falls into steps that did, and an input under a
-- name is found there.
import BlockCode.Proofs.Generation.Follows

namespace BlockCode

open BlockCode.Language

/-- The name of the input whose code is asked for. -/
def Request.input? : Request → Option Value
  | .value input _ => input.asKey.toOption
  | .statements input => input.asKey.toOption
  | _ => none

/-- What is in the input whose code is asked for. -/
def Inputs.opened (inputs : Inputs) (r : Request) : Chain :=
  (r.input?.map fun name => inputs.target name).getD .nil

/-- The code that a rule gives, if it gives any. -/
def RuleResult.text : RuleResult → String
  | code text => text
  | expression text _ => text
  | other _ => ""

namespace Effect

variable {σ ε α β : Type}

theorem bind_succeeds {x : Effect σ ε α} {f : α → Effect σ ε β} {s s' : σ} {b : β}
    (h : (x >>= f) s = (.ok b, s')) : ∃ a between, x s = (.ok a, between) ∧
      f a between = (.ok b, s') := by
  rw [bind_apply] at h
  rcases hx : x s with ⟨fault | a, between⟩
  · rw [hx] at h
    cases h
  · rw [hx] at h
    exact ⟨a, between, rfl, h⟩

theorem bind_lift_succeeds {result : Except ε α} {f : α → Effect σ ε β} {s s' : σ} {b : β}
    (h : (lift result >>= f) s = (.ok b, s')) : ∃ a, result = .ok a ∧ f a s = (.ok b, s') := by
  obtain ⟨a, between, hresult, hrest⟩ := bind_succeeds h
  cases hresult
  exact ⟨a, rfl, hrest⟩

end Effect

namespace Language

variable {L : Language} {nested : Workspace → Action String} {inputs : Inputs} {plugs : List Plug}

theorem Gathered.inside_eq {α : Type} {gathered : Gathered α} {run : Chain → Session → List α}
    (hfound : ∀ name, gathered.find? (·.1.same name) =
      (inputs.at? name).map fun found => (found.1, run found.2.2))
    (hnil : ∀ s, run .nil s = []) {input name : Value} (hname : input.asKey = .ok name)
    (s : Session) : gathered.inside input s = run (inputs.target name) s := by
  unfold Gathered.inside
  simp only [hname, hfound, Inputs.target_eq_at?]
  rcases inputs.at? name with _ | ⟨n, kind, target⟩
  · exact (hnil s).symm
  · rfl

theorem inside_input {input : Value} {name : Value} (hname : input.asKey = .ok name) (s : Session) :
    (L.trails nested inputs).inside input s = L.trail nested false (inputs.target name) s :=
  Gathered.inside_eq (find_trails inputs) (fun _ => rfl) hname s

theorem find_succeeds {input : Value} {found : Option Plug}
    (h : Plug.find plugs input = .ok found) : ∃ name, input.asKey = .ok name := by
  unfold Plug.find at h
  rcases hname : input.asKey with fault | name
  · rw [hname] at h
    cases h
  · exact ⟨name, rfl⟩

end Language
end BlockCode
