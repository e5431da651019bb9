-- What each request for a name comes to: its answer, and the session behind it. Only
-- the names and the helpers of the pass change, and what is told.
import BlockCode.Proofs.Generation.Keeps
import BlockCode.Proofs.Names.Ledger

namespace BlockCode

/-- The session with other names and helpers in its pass, and more that was told. -/
def Session.renamed (s : Session) (names : Names) (helpers : Helpers) (told : List Note) :
    Session :=
  { s with pass := { s.pass with names, helpers }, notes := told.reverse ++ s.notes }

namespace Session

theorem grant_error (fault : Fault) (s : Session) : grant (.error fault) s = (.error fault, s) :=
  rfl

theorem grant_ok (g : Names.Granted) (s : Session) :
    grant (.ok g) s = (.ok g.identifier, s.renamed g.names s.pass.helpers g.notes) := rfl

theorem identifier_apply (name category : Value) (caseSensitive : Bool) (s : Session) :
    identifier name category caseSensitive s =
      grant (s.pass.names.getFor name category caseSensitive) s := rfl

theorem ownIdentifier_apply (name category : Value) (s : Session) :
    ownIdentifier name category s = grant (s.pass.names.ownFor name category) s := rfl

theorem helper_apply (L : Language) (desired lines : Value) (s : Session) :
    helper L desired lines s =
      let a := s.pass.helpers.ask s.pass.names desired lines L.config.stableNames.truth
      (a.outcome, s.renamed a.names a.helpers a.notes) := rfl

theorem subset_reserve (words : Value) (s : Session) :
    s.reserved ⊆ (reserve words s).2.reserved := by
  cases words with
  | str words => exact List.subset_append_left _ _
  | torn words => exact List.subset_append_left _ _
  | _ => exact List.Subset.refl _

end Session

namespace Language

variable {L : Language}

theorem grant_cases {result : Except Fault Names.Granted} {s after : Session}
    {outcome : Except Fault String} (h : Session.grant result s = (outcome, after)) :
    (∃ fault, result = .error fault ∧ outcome = .error fault ∧ after = s) ∨
      ∃ g, result = .ok g ∧ outcome = .ok g.identifier ∧
        after = s.renamed g.names s.pass.helpers g.notes := by
  rcases result with fault | g
  · rw [Session.grant_error] at h
    cases h
    exact Or.inl ⟨fault, rfl, rfl, rfl⟩
  · rw [Session.grant_ok] at h
    cases h
    exact Or.inr ⟨g, rfl, rfl, rfl⟩

/-- The names that a request for a helper leaves behind are those that it found, or
those with the identifier of the helper. -/
theorem helper_cases {desired lines : Value} {s after : Session} {outcome : Except Fault String}
    (h : Session.helper L desired lines s = (outcome, after)) :
    (after.pass.helpers = s.pass.helpers ∧ after.pass.names = s.pass.names ∧
      ((∃ fault, outcome = .error fault) ∨
        ∃ helper, s.pass.helpers.find? desired = some helper ∧ outcome = .ok helper.identifier)) ∨
    (s.pass.helpers.find? desired = none ∧
      ∃ g, Helpers.granted s.pass.names desired L.config.stableNames.truth = .ok g ∧
        after.pass.names = g.names ∧
        ((after.pass.helpers = s.pass.helpers ∧ ∃ fault, outcome = .error fault) ∨
          ∃ body, after.pass.helpers =
              s.pass.helpers ++ [{ desired, identifier := g.identifier, code := body }] ∧
            outcome = .ok g.identifier ∧
            ∃ texts, Helpers.linesOf lines = .ok texts ∧
              body = Helpers.body g.identifier texts)) := by
  rw [Session.helper_apply] at h
  cases h
  rcases Helpers.ask_cases rfl with ⟨hh, hn, hf⟩ | ⟨hh, hn, helper, hfind, ho⟩ | hnew
  · exact Or.inl ⟨hh, hn, Or.inl hf⟩
  · exact Or.inl ⟨hh, hn, Or.inr ⟨helper, hfind, ho⟩⟩
  · exact Or.inr hnew

theorem grant_reserved (result : Except Fault Names.Granted) (s : Session) :
    (Session.grant result s).2.reserved = s.reserved := by
  cases result <;> rfl

theorem answer_reserved (b : Block) (plugs : List Plug) (r : Request) (s : Session)
    (hr : r.opensInput = false) :
    s.reserved ⊆ (L.answer (fun _ => L.refuse) b plugs r s).2.reserved := by
  cases r with
  | value input order => cases hr
  | statements input => cases hr
  | comments input => exact List.Subset.refl _
  | identifier name category caseSensitive =>
    simp only [answer, Session.identifier_apply, grant_reserved]
    exact List.Subset.refl _
  | ownIdentifier name category =>
    simp only [answer, Session.ownIdentifier_apply, grant_reserved]
    exact List.Subset.refl _
  | helper desired lines => exact List.Subset.refl _
  | reserve words =>
    have h := Session.subset_reserve words s
    simp only [answer, Effect.bind_apply]
    rcases hs : Session.reserve words s with ⟨_ | _, s'⟩ <;> rw [hs] at h <;> exact h
  | pass w => exact List.Subset.refl _

end Language
end BlockCode
