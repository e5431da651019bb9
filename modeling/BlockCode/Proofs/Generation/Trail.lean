-- What the rules ask for in a run, request by request, and what comes of it. The
-- trail is read off the run itself: each request is met with the session in which
-- the run meets it. What a run keeps follows from what each request keeps.
import BlockCode.Generation.Pass

namespace BlockCode

/-! ## The trail -/

/-- A request that the rule for a block made, and what came of it. -/
structure Served where
  block : Block
  inputs : Inputs
  request : Request
  before : Session
  outcome : Except Fault String
  after : Session

/-- The request is for an identifier. -/
def Request.isForName : Request → Bool
  | .identifier _ _ _ => true
  | .ownIdentifier _ _ => true
  | .helper _ _ => true
  | _ => false

/-- The rule for the block asked for an identifier and was given this one. -/
structure Served.Gets (e : Served) (identifier : String) : Prop where
  request : e.request.isForName = true
  outcome : e.outcome = .ok identifier

theorem Served.forall_snoc {p : Served → Prop} {E : List Served} {e : Served}
    (hE : ∀ d ∈ E, p d) (he : p e) : ∀ d ∈ E ++ [e], p d :=
  List.forall_mem_append.mpr ⟨hE, List.forall_mem_singleton.mpr he⟩

/-- The requests of a script. Those that other rules make on the way to an answer,
as `within` gives them, come before the request that is answered. -/
def Script.served {α : Type} (answer : Request → Action String)
    (within : Request → Session → List Served) (b : Block) (inputs : Inputs) :
    Script α → Session → List Served
  | .done _, _ => []
  | .ask r next, s =>
    let (outcome, after) := answer r s
    within r s ++ { block := b, inputs, request := r, before := s, outcome, after } ::
      (next outcome).served answer within b inputs after

namespace Language

/-- What is gathered in a run of the code of each input. -/
abbrev Gathered (α : Type) := List (Value × (Session → List α))

namespace Gathered

variable {α : Type}

def inside (gathered : Gathered α) (input : Value) (s : Session) : List α :=
  match input.asKey with
  | .ok name => ((gathered.find? (·.1.same name)).map (·.2 s)).getD []
  | .error _ => []

/-- What is gathered before a request is answered. -/
def within (gathered : Gathered α) (r : Request) (s : Session) : List α :=
  match r with
  | .value input outer =>
    match isOrder outer with
    | .ok true => gathered.inside input s
    | _ => []
  | .statements input => gathered.inside input s
  | _ => []

end Gathered

end Language

/-- One more block is handed to its rule. -/
def PassState.counted (p : PassState) : PassState := { p with handled := p.handled + 1 }

def Session.counted (s : Session) : Session := { s with pass := s.pass.counted }

namespace Language

/-- The result of a rule is code, and the comments before it can be written. -/
def goesOn (L : Language) (alone : Bool) (b : Block) (plugs : List Plug) : RuleResult → Bool
  | .other _ => false
  | _ => (b.givesValue && !alone) || (L.commentsBefore b plugs).isOk

mutual
/-- The requests in a run of the code of a chain, in the order of their answers. -/
def trail (L : Language) (nested : Workspace → Action String) (alone : Bool) :
    Chain → Session → List Served
  | .nil, _ => []
  | .cons b inputs next, s =>
    if b.isDisabled then L.trail nested false next s
    else match L.ruleOf b s with
    | (.error _, _) => []
    | (.ok rule, s) =>
      let plugs := L.plugs nested inputs
      let answer := L.answer nested b plugs
      let own := (rule b inputs).served answer (L.trails nested inputs).within b inputs s.counted
      match perform answer (rule b inputs) s.counted with
      | (.error _, _) => own
      | (.ok result, s) =>
        own ++ if L.goesOn alone b plugs result then L.trail nested false next s else []

/-- The trails of what is plugged into the inputs. -/
def trails (L : Language) (nested : Workspace → Action String) : Inputs → Gathered Served
  | .nil => []
  | .cons name _ target rest => (name, L.trail nested false target) :: L.trails nested rest
end

/-- The requests in the code of top blocks, one after the other. -/
def trailOfTops (L : Language) (nested : Workspace → Action String) :
    List Chain → Session → List Served
  | [], _ => []
  | top :: rest, s => L.trail nested true top s ++
    match L.section? nested top s with
    | (.error _, _) => []
    | (.ok _, s) => L.trailOfTops nested rest s

/-- The session in which the first top block of a pass is met. -/
def opened (L : Language) (w : Workspace) (s : Session) : Session :=
  { s with
    pass := s.begun L
    running := true
    notes := .passBegun L.title w.trees.length :: s.notes }

/-- The requests in a pass over a workspace. -/
def passTrail (L : Language) (w : Workspace) (s : Session) : List Served :=
  if s.running then [] else L.trailOfTops (fun _ => L.refuse) w.trees (L.opened w s)

end Language

/-! ## What a script asks for -/

/-- Every request that a script can come to is of this kind. -/
def Script.Asks {α : Type} (P : Request → Prop) : Script α → Prop
  | .done _ => True
  | .ask r next => P r ∧ ∀ answer, (next answer).Asks P

namespace Script

variable {α β : Type} {P : Request → Prop}

theorem Asks.imp {Q : Request → Prop} {x : Script α} (h : ∀ r, P r → Q r) (hx : x.Asks P) :
    x.Asks Q := by
  induction x with
  | done result => exact trivial
  | ask r next ih => exact ⟨h r hx.1, fun answer => ih answer (hx.2 answer)⟩

theorem asks_anything (x : Script α) : x.Asks fun _ => True := by
  induction x with
  | done result => exact trivial
  | ask r next ih => exact ⟨trivial, ih⟩

theorem asks_done (result : Except Fault α) : (done result).Asks P := trivial

theorem asks_request {r : Request} (h : P r) : (request r).Asks P := ⟨h, fun _ => trivial⟩

theorem asks_bind {x : Script α} {f : α → Script β} (hx : x.Asks P) (hf : ∀ a, (f a).Asks P) :
    (x >>= f).Asks P := by
  induction x with
  | done result =>
    cases result with
    | error fault => exact trivial
    | ok a => exact hf a
  | ask r next ih => exact ⟨hx.1, fun answer => ih answer (hx.2 answer)⟩

end Script

end BlockCode
