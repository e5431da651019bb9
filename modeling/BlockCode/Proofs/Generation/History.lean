-- The life of a session: passes one after the other, and words that are reserved
-- between them. What every pass keeps holds in every session that ever lives.
import BlockCode.Proofs.Generation.Requests

namespace BlockCode

namespace Effect

variable {σ ε : Type}

instance : LawfulMonad (Effect σ ε) := by
  refine LawfulMonad.mk' _ ?_ (fun _ _ => rfl) bind_assoc
  intro α x
  funext s
  show bind x (fun a => pure (id a)) s = x s
  unfold bind
  rcases x s with ⟨_ | _, _⟩ <;> rfl

end Effect

open BlockCode.Language

/-- The sessions that passes and reserved words lead to. A pass may fail. If names do not
last from one pass to the next, anything may be done between passes that ends, and that
gives up no reserved word. -/
inductive Lived (L : Language) : Session → Prop
  | new : Lived L (Session.new L)
  | pass {s : Session} (w : Workspace) : Lived L s → Lived L (L.pass w s).2
  | reserve {s : Session} (words : Value) : Lived L s → Lived L (Session.reserve words s).2
  | aside {s after : Session} : Lived L s → L.config.stableNames.truth = false →
    after.running = false → s.reserved ⊆ after.reserved → Lived L after

namespace Language

variable {L : Language} {nested : Workspace → Action String}

theorem section_after (top : Chain) (s : Session) :
    (L.section? nested top s).2 = (L.codeOf nested true top s).2 := by
  unfold section?
  rw [Effect.bind_apply]
  rcases L.codeOf nested true top s with ⟨_ | code, s'⟩
  · rfl
  · simp only
    split
    · rfl
    · split
      · rw [Effect.bind_apply, Effect.lift_apply]
        rcases L.standing code.text with _ | _ <;> rfl
      · rfl

/-- The sections of a program, and the session behind its last top block. -/
def sections (L : Language) (w : Workspace) (s : Session) :
    Except Fault (List (Option String)) × Session :=
  w.trees.mapM (L.section? fun _ => L.refuse) (L.opened w s)

/-- The program that sections make, with the helpers that they asked for. -/
def programOf : Except Fault (List (Option String)) × Session → Except Fault String
  | (.ok sections, s) => .ok (Text.clean (s.withDefinitions (joinSections (sections.filterMap id))))
  | (.error fault, _) => .error fault

/-- A pass comes to the program that its sections make. It leaves behind what its top
blocks left behind, and no pass runs then. -/
theorem pass_run (w : Workspace) (s : Session) (hs : s.running = false) :
    ∃ notes, L.pass w s = (programOf (L.sections w s),
      { (L.sections w s).2 with running := false, notes }) := by
  unfold pass guarded
  simp only [hs, Bool.false_eq_true, if_false]
  unfold passBody
  rw [Effect.bind_apply]
  simp only [Effect.change]
  have htell : Session.tell [.passBegun L.title w.trees.length]
      { s with running := true, pass := Session.begun L { s with running := true } } =
      (.ok (), L.opened w s) := rfl
  rw [Effect.bind_ok htell, Effect.bind_apply]
  unfold sections
  rcases w.trees.mapM (L.section? fun _ => L.refuse) (L.opened w s) with ⟨_ | _, s'⟩
  · exact ⟨_, rfl⟩
  · exact ⟨_, rfl⟩

theorem pass_result (w : Workspace) (s : Session) (hs : s.running = false) :
    (L.pass w s).1 = programOf (L.sections w s) := by
  obtain ⟨notes, hrun⟩ := pass_run (L := L) w s hs
  rw [hrun]

end Language

namespace Keeps

variable {L : Language} {nested : Workspace → Action String}
  {allowed : Block → Request → Prop} {J : List Served → Session → Prop}

theorem tops (hk : Keeps L nested allowed J) (tops : List Chain) (E : List Served) (s : Session)
    (hJ : J E s) :
    J (E ++ L.trailOfTops nested tops s) (tops.mapM (L.section? nested) s).2 := by
  induction tops generalizing E s with
  | nil =>
    show J (E ++ []) s
    rwa [List.append_nil]
  | cons top rest ih =>
    have htop := hk.along top true E s hJ
    rw [← section_after] at htop
    rw [List.mapM_cons, Effect.bind_apply]
    unfold trailOfTops
    rcases hsec : L.section? nested top s with ⟨_ | text, s₁⟩
    · rw [hsec] at htop
      simpa using htop
    · rw [hsec] at htop
      have hrest := ih _ s₁ htop
      simp only
      rw [Effect.bind_apply, ← List.append_assoc]
      rcases hm : rest.mapM (L.section? nested) s₁ with ⟨_ | _, _⟩ <;> rw [hm] at hrest <;>
        exact hrest

/-- A law that holds when a pass begins holds of its trail when it ends. -/
theorem pass (hk : Keeps L (fun _ => L.refuse) allowed J) (w : Workspace) (s : Session)
    (hs : s.running = false) (hJ : J [] (L.opened w s)) :
    J (L.passTrail w s) (L.pass w s).2 := by
  obtain ⟨notes, hrun⟩ := pass_run (L := L) w s hs
  rw [hrun]
  apply hk.told
  unfold passTrail
  rw [if_neg (by simp [hs])]
  exact hk.tops w.trees [] (L.opened w s) hJ

theorem allowed_pass
    (hrules : ∀ b rule, L.ruleFor b.type = .ok (some rule) →
      ∀ inputs, (rule b inputs).Asks (allowed b)) (w : Workspace) (s : Session)
    (hs : s.running = false) : ∀ e ∈ L.passTrail w s, allowed e.block e.request := by
  have hk : Keeps L (fun _ => L.refuse) allowed fun E _ => ∀ e ∈ E, allowed e.block e.request :=
    { rules := hrules
      counted := fun _ _ h => h
      told := fun _ _ _ _ h => h
      named := fun _ _ _ _ _ _ _ hr _ _ h => Served.forall_snoc h hr
      opened := fun _ _ _ _ _ _ _ _ hr _ _ _ h => Served.forall_snoc h hr }
  exact hk.pass w s hs fun e he => absurd he List.not_mem_nil

end Keeps

namespace Lived

variable {L : Language} {s : Session}

theorem not_running (h : Lived L s) : s.running = false := by
  induction h with
  | new => rfl
  | pass w _ ih => exact running_pass L w _ ih
  | reserve words _ ih => cases words <;> exact ih
  | aside _ _ hidle _ _ => exact hidle

theorem keeps_reserved (L : Language) (words : List String) :
    Keeps L (fun _ => L.refuse) (fun _ _ => True) fun _ s => words ⊆ s.reserved where
  rules := fun _ _ _ _ => Script.asks_anything _
  counted := fun _ _ h => h
  told := fun _ _ _ _ h => h
  named := by
    intro E b inputs r s outcome after _ hr ha h
    have hkept := answer_reserved (L := L) b (L.plugs (fun _ => L.refuse) inputs) r s hr
    rw [ha] at hkept
    exact List.Subset.trans h hkept
  opened := fun _ _ _ _ _ _ _ _ _ _ _ _ h => h

theorem reserved_subset (h : Lived L s) : L.reserved ⊆ s.reserved := by
  induction h with
  | new => exact List.Subset.refl _
  | pass w hs ih => exact (keeps_reserved L L.reserved).pass w _ hs.not_running ih
  | reserve words _ ih => exact List.Subset.trans ih (Session.subset_reserve words _)
  | aside _ _ _ hkept ih => exact List.Subset.trans ih hkept

end Lived
end BlockCode
