-- A rule at work, run step by step: what it comes to when its requests are answered, and
-- how the code of what is plugged into an input becomes the answer to a request.
import BlockCode.Proofs.Generation.History

namespace BlockCode

theorem Number.Extended.mantissaAt_self (mantissa exponent : Int) :
    mantissaAt mantissa exponent exponent = mantissa := by
  unfold mantissaAt
  rw [Int.sub_self]
  exact Int.mul_one mantissa

namespace Value

theorem before?_int (i j : Int) : before? (.int i) (.int j) = some (decide (i < j)) := by
  show some (Number.Extended.lt (.ofInt i) (.ofInt j)) = _
  unfold Number.Extended.lt Number.Extended.cmp Number.Extended.ofInt
  simp [Int.compare_eq_lt, beq_eq_decide, Number.Extended.mantissaAt_self]

theorem same_int (i j : Int) : (int i).same (.int j) = decide (i = j) := by
  show Number.Extended.same (.ofInt i) (.ofInt j) = _
  unfold Number.Extended.same Number.Extended.cmp Number.Extended.ofInt
  simp [beq_eq_decide, Number.Extended.mantissaAt_self]

end Value

namespace Language

variable {L : Language} {nested : Workspace → Action String}

/-! ## Brackets -/

/-- An expression is in brackets when its order is higher and neither order is free. -/
theorem bracketed_int (hatomic : L.atomicOrder = .int 0) (hnone : L.noneOrder = .int 99)
    (code : String) (outer inner : Int) :
    L.bracketed code (.int outer) (.int inner) =
      if code ≠ "" ∧ outer < inner ∧ (outer ≠ 0 ∧ outer ≠ 99) ∧ inner ≠ 0 ∧ inner ≠ 99
      then "(" ++ code ++ ")" else code := by
  unfold bracketed needsBrackets isFree
  rw [hatomic, hnone, Value.before?_int]
  simp only [Value.same_int]
  congr 1
  simp [and_assoc]

/-! ## Scripts -/

variable {α β : Type} {answer : Request → Action String}

theorem perform_bind (x : Script α) (f : α → Script β) :
    perform answer (x >>= f) = perform answer x >>= fun a => perform answer (f a) := by
  induction x with
  | done result =>
    funext s
    cases result with
    | error fault => rfl
    | ok a => rfl
  | ask r next ih =>
    rw [Script.bind_ask, perform, perform, Effect.bind_assoc]
    congr 1
    funext outcome
    exact ih outcome

theorem perform_request (r : Request) : perform answer (Script.request r) = answer r := by
  funext s
  rw [Script.request, perform, Effect.bind_apply]
  rfl

/-! ## What is in an input -/

end Language
end BlockCode
