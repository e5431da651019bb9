-- Work that reads and changes a state, and ends with a result or with a fault. The
-- changes that were made before a fault stay.
namespace BlockCode

def Effect (σ ε α : Type) := σ → Except ε α × σ

namespace Effect

variable {σ τ ε α β γ : Type}

def pure (a : α) : Effect σ ε α := fun s => (.ok a, s)

def bind (x : Effect σ ε α) (f : α → Effect σ ε β) : Effect σ ε β := fun s =>
  match x s with
  | (.ok a, s) => f a s
  | (.error fault, s) => (.error fault, s)

instance : Monad (Effect σ ε) where
  pure := pure
  bind := bind

def fail (fault : ε) : Effect σ ε α := fun s => (.error fault, s)

instance [Inhabited ε] : Inhabited (Effect σ ε α) := ⟨fail default⟩

def lift (result : Except ε α) : Effect σ ε α := fun s => (result, s)

def read (f : σ → α) : Effect σ ε α := fun s => (.ok (f s), s)

def change (f : σ → σ) : Effect σ ε Unit := fun s => (.ok (), f s)

/-- Work that cannot fail, since its fault is its result. -/
def attempt (x : Effect σ ε α) : Effect σ ε (Except ε α) := fun s =>
  let (result, s) := x s
  (.ok result, s)

/-- Work on a part of the state. -/
def part (get : σ → τ) (put : τ → σ → σ) (x : Effect τ ε α) : Effect σ ε α := fun s =>
  let (result, t) := x (get s)
  (result, put t s)

/-! ## Laws -/

theorem pure_apply (a : α) (s : σ) : (Pure.pure a : Effect σ ε α) s = (.ok a, s) := rfl

theorem bind_ok {x : Effect σ ε α} {f : α → Effect σ ε β} {s s' : σ} {a : α}
    (h : x s = (.ok a, s')) : (x >>= f) s = f a s' := by
  show bind x f s = _
  simp [bind, h]

theorem bind_error {x : Effect σ ε α} {f : α → Effect σ ε β} {s s' : σ} {fault : ε}
    (h : x s = (.error fault, s')) : (x >>= f) s = (.error fault, s') := by
  show bind x f s = _
  simp [bind, h]

theorem bind_assoc (x : Effect σ ε α) (f : α → Effect σ ε β) (g : β → Effect σ ε γ) :
    (x >>= f >>= g) = (x >>= fun a => f a >>= g) := by
  funext s
  show bind (bind x f) g s = bind x (fun a => bind (f a) g) s
  simp only [bind]
  rcases x s with ⟨_ | _, _⟩ <;> rfl

end Effect
end BlockCode
