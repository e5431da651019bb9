-- What a rule does, step by step. A rule cannot see the work that goes on around
-- it: it asks for one thing after the other, and each answer is a text or a fault.
-- A rule may go on after a fault.
import BlockCode.Workspace.Access
import BlockCode.Workspace.Tree

namespace BlockCode

/-- What a rule may ask for while it is at work on its block. -/
inductive Request where
  /-- The expression in an input, fit to stand where operators of `order` are near. -/
  | value (input order : Value)
  /-- The indented statements in an input. -/
  | statements (input : Value)
  /-- The comments of all that is plugged into an input. -/
  | comments (input : Value)
  /-- The identifier of a name. -/
  | identifier (name category : Value) (caseSensitive : Bool)
  /-- An identifier that nothing else has. -/
  | ownIdentifier (name category : Value)
  /-- The identifier of a helper function, which is defined if it is not yet. -/
  | helper (desired lines : Value)
  /-- Words that are to be reserved from the next pass on. -/
  | reserve (words : Value)
  /-- The program of another workspace, in a pass of its own. -/
  | pass (workspace : Workspace)

/-- A course of requests that ends with a result or a fault. -/
inductive Script (α : Type) where
  | done (result : Except Fault α)
  | ask (request : Request) (next : Except Fault String → Script α)

namespace Script

/-- One request. A fault in the answer ends the script. -/
def request (r : Request) : Script String := ask r done

def fail {α : Type} (fault : Fault) : Script α := done (.error fault)

/-- The value of a field of a block. -/
def field (b : Block) (name : String) : Script Value := done (b.field name)

def bind {α β : Type} : Script α → (α → Script β) → Script β
  | done (.ok a), f => f a
  | done (.error fault), _ => done (.error fault)
  | ask r next, f => ask r fun answer => (next answer).bind f

instance : Monad Script where
  pure a := done (.ok a)
  bind := bind

theorem bind_ask {α β : Type} (r : Request) (next : Except Fault String → Script α)
    (f : α → Script β) : (ask r next >>= f) = ask r fun answer => next answer >>= f := rfl

theorem bind_assoc {α β γ : Type} (s : Script α) (f : α → Script β) (g : β → Script γ) :
    (s >>= f >>= g) = (s >>= fun a => f a >>= g) := by
  induction s with
  | done result => cases result <;> rfl
  | ask r next ih => exact congrArg (ask r) (funext ih)

end Script
end BlockCode
