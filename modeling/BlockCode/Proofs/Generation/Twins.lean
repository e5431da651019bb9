-- What a pass owes to the work before it. When names do not last, a pass looks at
-- nothing but the words that are reserved. So a language whose rules reserve no words
-- forgets the passes before, and one whose rules begin no passes forgets all of its history,
-- whatever became of it.
import BlockCode.Proofs.Generation.Outcome

namespace BlockCode

open BlockCode.Language

/-! ## Sessions with one pass -/

/-- No pass runs, and these words are reserved. -/
structure Rests (words : List String) (s : Session) : Prop where
  idle : s.running = false
  reserved : s.reserved = words

/-- In both sessions the pass has come to the same and the same words are reserved. They
differ in what was told. -/
structure Twin (running : Bool) (words : List String) (s t : Session) : Prop where
  pass : t.pass = s.pass
  running_left : s.running = running
  running_right : t.running = running
  reserved_left : s.reserved = words
  reserved_right : t.reserved = words

/-- The rules of the language ask for nothing else. -/
def Language.OnlyAsks (L : Language) (allowed : Request → Prop) : Prop :=
  ∀ b rule, L.ruleFor b.type = .ok (some rule) → ∀ inputs, (rule b inputs).Asks allowed

/-- The request is nothing to later passes. -/
def Request.staysInside : Request → Bool
  | .reserve _ => false
  | .pass _ => false
  | _ => true

/-- No rule of the language does anything that later passes could see but for names. -/
def Language.Inward (L : Language) : Prop := L.OnlyAsks (·.staysInside = true)

def Request.reserves : Request → Bool
  | .reserve _ => true
  | _ => false

/-- No rule of the language reserves words. Rules may begin passes; inside a pass these are
refused. -/
def Language.Unreserving (L : Language) : Prop := L.OnlyAsks (·.reserves = false)

theorem Request.reserves_not {r : Request} (h : r.staysInside = true) : r.reserves = false := by
  cases r with
  | reserve words => cases h
  | _ => rfl

theorem Language.Inward.unreserving {L : Language} (h : L.Inward) : L.Unreserving :=
  fun b rule hrule inputs => (h b rule hrule inputs).imp fun _ => Request.reserves_not

namespace Twin

variable {α : Type} {L : Language} {nested : Workspace → Action String} {running : Bool}
  {words : List String} {s t : Session}

theorem of_rests (h : Rests words s) : Twin false words s s :=
  ⟨rfl, h.idle, h.idle, h.reserved, h.reserved⟩

theorem rests (h : Twin false words s t) : Rests words s := ⟨h.running_left, h.reserved_left⟩

theorem rests_right (h : Twin false words s t) : Rests words t :=
  ⟨h.running_right, h.reserved_right⟩

theorem trans {u : Session} (h : Twin running words s t) (h' : Twin running words t u) :
    Twin running words s u :=
  ⟨h'.pass.trans h.pass, h.running_left, h'.running_right, h.reserved_left, h'.reserved_right⟩

/-- The work looks at nothing but the pass, and changes nothing else but what is told. -/
structure WithinPass (x : Action α) : Prop where
  looks : ∀ s t, t.pass = s.pass → (x t).1 = (x s).1 ∧ (x t).2.pass = (x s).2.pass
  changes : ∀ s, (x s).2.running = s.running ∧ (x s).2.reserved = s.reserved

theorem follows {x : Action α} (h : WithinPass x) :
    Follows (fun _ => True) (Twin running words) x where
  before := fun _ _ => trivial
  alike := by
    intro s t hst _
    obtain ⟨hresult, hpass⟩ := h.looks s t hst.pass
    obtain ⟨hrunning, hreserved⟩ := h.changes s
    obtain ⟨hrunning', hreserved'⟩ := h.changes t
    exact ⟨hresult, hpass, hrunning.trans hst.running_left, hrunning'.trans hst.running_right,
      hreserved.trans hst.reserved_left, hreserved'.trans hst.reserved_right⟩

theorem withinPass_grant (request : PassState → Except Fault Names.Granted) :
    WithinPass fun s => Session.grant (request s.pass) s where
  looks := by
    intro s t hst
    simp only [hst]
    rcases request s.pass with fault | g
    · exact ⟨rfl, hst⟩
    · refine ⟨rfl, ?_⟩
      show { t.pass with names := g.names } = { s.pass with names := g.names }
      rw [hst]
  changes := by
    intro s
    rcases hrequest : request s.pass with fault | g
    · exact ⟨rfl, rfl⟩
    · exact ⟨rfl, rfl⟩

theorem withinPass_helper (desired lines : Value) :
    WithinPass (Session.helper L desired lines) where
  looks := by
    intro s t hst
    rw [Session.helper_apply, Session.helper_apply, hst]
    refine ⟨rfl, ?_⟩
    simp only [Session.renamed, hst]
  changes := fun _ => ⟨rfl, rfl⟩

theorem withinPass_counted : WithinPass (Effect.change Session.counted : Action Unit) where
  looks := by
    intro s t hst
    exact ⟨rfl, congrArg PassState.counted hst⟩
  changes := fun _ => ⟨rfl, rfl⟩

theorem answer (b : Block) (plugs : List Plug) (r : Request) (hinside : r.staysInside = true)
    (hr : r.opensInput = false) :
    Follows (fun _ => True) (Twin running words) (L.answer nested b plugs r) := by
  cases r with
  | value input order => cases hr
  | statements input => cases hr
  | comments input => exact Follows.lift _
  | identifier name category caseSensitive =>
    exact follows (withinPass_grant fun p => p.names.getFor name category caseSensitive)
  | ownIdentifier name category =>
    exact follows (withinPass_grant fun p => p.names.ownFor name category)
  | helper desired lines => exact follows (withinPass_helper desired lines)
  | reserve more => cases hinside
  | pass w => cases hinside

theorem mirrors (hrules : L.Inward) :
    Mirrors L nested (fun _ r => r.staysInside = true) (fun _ => True) (Twin running words) where
  rules := hrules
  counted := follows withinPass_counted
  named := fun b plugs r => answer b plugs r

/-- In a pass, rules may begin others too. -/
theorem mirrors_refusing (hrules : L.Unreserving) : Mirrors L (fun _ => L.refuse)
    (fun _ r => r.reserves = false) (fun _ => True) (Twin running words) where
  rules := hrules
  counted := follows withinPass_counted
  named := by
    intro b plugs r hr hopens
    cases r with
    | reserve more => cases hr
    | pass w => exact Follows.fail _
    | _ => exact answer b plugs _ rfl hopens

theorem begun (h : Twin false words s t) : t.begun L = s.begun L := by
  unfold Session.begun
  rw [h.pass, h.reserved_left, h.reserved_right]

theorem pass_of_begun (hrules : L.Unreserving) (hs : Rests words s) (ht : Rests words t)
    (hbegun : t.begun L = s.begun L) (w : Workspace) :
    (L.pass w t).1 = (L.pass w s).1 ∧ Twin false words (L.pass w s).2 (L.pass w t).2 := by
  have hopened : Twin true words (L.opened w s) (L.opened w t) :=
    ⟨hbegun, rfl, rfl, hs.reserved, ht.reserved⟩
  obtain ⟨hresult, hend⟩ := (mirrors_refusing hrules).pass
    (fun _ _ htwin => congrArg PassState.helpers htwin.pass) hs.idle ht.idle w hopened trivial
  obtain ⟨hpass, hreserved⟩ := pass_session (L := L) w s hs.idle
  obtain ⟨hpass', hreserved'⟩ := pass_session (L := L) w t ht.idle
  refine ⟨hresult, ?_, running_pass L w s hs.idle, running_pass L w t ht.idle,
    hreserved.trans hend.reserved_left, hreserved'.trans hend.reserved_right⟩
  rw [hpass, hpass']
  exact hend.pass

end Twin

/-- When names do not last, a pass looks at nothing but the reserved words. -/
theorem Rests.pass_eq {L : Language} (hrules : L.Unreserving)
    (hforgets : L.config.stableNames.truth = false) {words : List String} {s t : Session}
    (hs : Rests words s) (ht : Rests words t) (w : Workspace) :
    (L.pass w t).1 = (L.pass w s).1 := by
  have hbegun : t.begun L = s.begun L := by
    unfold Session.begun
    rw [if_neg (by simp [hforgets]), if_neg (by simp [hforgets]), ht.reserved, hs.reserved]
  exact (Twin.pass_of_begun hrules hs ht hbegun w).1

/-- A pass makes the program of another workspace, when the sections of this one can be made where
the other pass has begun and come to the same lines. It gathers the same on its way: all that
the beginning tells apart is a note of how many top blocks there are. -/
theorem Language.Unreserving.same_program {L : Language} (hrules : L.Unreserving)
    {w w' : Workspace} {s : Session} (hidle : s.running = false)
    (hsections : ∀ texts after,
      L.written (fun _ => L.refuse) w.trees (L.opened w s) = (.ok texts, after) →
        ∃ texts', L.written (fun _ => L.refuse) w'.trees (L.opened w s) = (.ok texts', after) ∧
          joinSections texts' = joinSections texts)
    {program : String} (hmade : (L.pass w s).1 = .ok program) :
    (L.pass w' s).1 = .ok program ∧ (L.pass w' s).2.pass = (L.pass w s).2.pass := by
  obtain ⟨texts, after, hwritten, rfl⟩ := (pass_ok_iff hidle).mp hmade
  obtain ⟨texts', hwritten', hsame⟩ := hsections texts after hwritten
  have htwin : Twin true s.reserved (L.opened w s) (L.opened w' s) := ⟨rfl, rfl, rfl, rfl, rfl⟩
  have hfollows : Follows (fun _ => True) (Twin true s.reserved)
      (L.written (fun _ => L.refuse) w'.trees) :=
    (Follows.mapM (Twin.mirrors_refusing hrules).section? _).bind fun _ => Follows.pure _
  obtain ⟨hresult, hend⟩ := hfollows.alike _ _ htwin trivial
  rw [hwritten'] at hresult hend
  rcases hrun : L.written (fun _ => L.refuse) w'.trees (L.opened w' s) with ⟨result, last⟩
  rw [hrun] at hresult hend
  obtain rfl : result = .ok texts' := hresult
  refine ⟨(pass_ok_iff hidle).mpr ⟨texts', last, hrun, ?_⟩, ?_⟩
  · unfold Session.withDefinitions
    rw [hend.pass, hsame]
  · rw [pass_gathered hidle, pass_gathered hidle, hrun, hwritten]
    exact hend.pass

/-! ## The work before a pass -/

/-- What may be done with a session. It may come to a result or to any fault. -/
inductive Task where
  | pass (w : Workspace)
  /-- The code of a block of a workspace. -/
  | code (w : Workspace) (h : Nat)
  /-- The expression in an input of a block. -/
  | value (w : Workspace) (h : Nat) (input order : Value)
  /-- The statements in an input of a block. -/
  | statements (w : Workspace) (h : Nat) (input : Value)
  /-- Work that was broken off from outside. The pass may be in any shape, but it does
  not run any more. -/
  | brokenOff (left : PassState) (told : List Note)

/-- The session behind a task. -/
def Task.after (L : Language) (s : Session) : Task → Session
  | .pass w => (L.pass w s).2
  | .code w h => (L.codeAt w h s).2
  | .value w h input order => (L.valueAt w h input order s).2
  | .statements w h input => (L.statementsAt w h input s).2
  | .brokenOff left told => { s with pass := left, notes := told }

namespace Task

variable {L : Language} {s : Session}

theorem follows_plugsAt (hrules : L.Inward) {running : Bool} {words : List String}
    (w : Workspace) (h : Nat) :
    ∀ plug ∈ L.plugsAt w h, Follows (fun _ => True) (Twin running words) plug.code := by
  unfold plugsAt
  rcases w.tree h with _ | ⟨b, inputs, next⟩
  · intro plug hplug
    cases hplug
  · apply Mirrors.code_of_plug
    apply Inputs.every_of_forall
    intro c alone
    exact (Twin.mirrors hrules).codeOf c alone

theorem rests_after (hrules : L.Inward) {words : List String} (h : Rests words s)
    (task : Task) : Rests words (task.after L s) := by
  have hcode : ∀ {α : Type} {x : Action α}, Follows (fun _ => True) (Twin false words) x →
      Rests words (x s).2 :=
    fun hx => (hx.alike s s (Twin.of_rests h) trivial).2.rests
  cases task with
  | pass w => exact (Twin.pass_of_begun hrules.unreserving h h rfl w).2.rests
  | code w b => exact hcode ((Twin.mirrors hrules).codeOf _ _)
  | value w b input order =>
    exact hcode (Follows.plugged (follows_plugsAt hrules w b) _ input order)
  | statements w b input =>
    exact hcode (Follows.nestedStatements (follows_plugsAt hrules w b) input)
  | brokenOff left told => exact ⟨h.idle, h.reserved⟩

theorem rests_afterwards (hrules : L.Inward) {words : List String} (tasks : List Task)
    (h : Rests words s) : Rests words (tasks.foldl (Task.after L) s) := by
  induction tasks generalizing s with
  | nil => exact h
  | cons task rest ih => exact ih (rests_after hrules h task)

end Task

end BlockCode
