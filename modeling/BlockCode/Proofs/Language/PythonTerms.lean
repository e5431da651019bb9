-- Trees of blocks that give values, and the expressions that they stand for. A disabled
-- block is passed over; where there is no operand, 0 or True stands for it. A variable
-- and the helper for primes stand under the identifiers that the pass knows for them.
import BlockCode.Proofs.Language.PythonHygiene
import BlockCode.Proofs.Language.PythonPhrases

namespace BlockCode

/-- Nothing that the first has gathered is lost in the second. -/
structure PassState.Onward (p q : PassState) : Prop where
  names : p.names.Extends q.names
  helpers : ∀ desired helper, p.helpers.find? desired = some helper →
    q.helpers.find? desired = some helper

theorem PassState.Onward.trans {p q r : PassState} (h : p.Onward q) (h' : q.Onward r) :
    p.Onward r :=
  ⟨h.names.trans h'.names, fun desired helper hfind =>
    h'.helpers desired helper (h.helpers desired helper hfind)⟩

namespace Python

/-! ## Trees -/

inductive Term where
  | missing
  | number (i : Int)
  | truth (b : Bool)
  | var (name : Spelling)
  | prime (argument : Term)
  | arithmetic (op : Arithmetic) (left right : Term)
  | compare (op : Comparison) (left right : Term)
  | negate (argument : Term)
deriving DecidableEq, Repr

/-- The name of the operator in blocks. -/
def Arithmetic.name : Arithmetic → String
  | add => "ADD"
  | minus => "MINUS"
  | multiply => "MULTIPLY"
  | divide => "DIVIDE"
  | power => "POWER"

def Arithmetic.order : Arithmetic → Int
  | add => additive
  | minus => additive
  | multiply => multiplicative
  | divide => multiplicative
  | power => exponentiation

def Comparison.name : Comparison → String
  | eq => "EQ"
  | neq => "NEQ"
  | lt => "LT"
  | lte => "LTE"
  | gt => "GT"
  | gte => "GTE"

namespace Term

/-- The order of the code of a tree. A negative number has its sign in its code. -/
def order : Term → Int
  | number i => if i < 0 then unarySign else atomic
  | prime _ => functionCall
  | arithmetic op _ _ => op.order
  | compare _ _ _ => relational
  | negate _ => logicalNot
  | _ => atomic

/-- The expression that a tree stands for, if the pass knows all its identifiers. -/
def tree (p : PassState) (instead : Expression) : Term → Option Expression
  | missing => some instead
  | number i => some (if i < 0 then .negative (.number i.natAbs) else .number i.natAbs)
  | truth b => some (.truth b)
  | var name => (p.names.known? (Names.variableKey name)).map .name
  | prime t => do
    let helper ← p.helpers.find? (.str "math_isPrime")
    return .call (.name helper.identifier) (← t.tree p (.number 0))
  | arithmetic op l r => do return .arithmetic op (← l.tree p (.number 0)) (← r.tree p (.number 0))
  | compare op l r => do return .compare op (← l.tree p (.number 0)) (← r.tree p (.number 0))
  | negate t => do return .negation (← t.tree p (.truth true))

end Term

/-! ## Orders -/

/-- The orders of operators and of what they combine. -/
def orders : List Int :=
  [atomic, functionCall, exponentiation, unarySign, multiplicative, additive, relational,
    logicalNot]

theorem isOrder_of_mem {o : Int} (h : o ∈ orders ∨ o = anything) :
    Language.isOrder (.int o) = .ok true := by
  unfold orders at h
  simp only [List.mem_cons, List.not_mem_nil, or_false] at h
  rcases h with (rfl | rfl | rfl | rfl | rfl | rfl | rfl | rfl) | rfl <;> rfl

end Python
end BlockCode
