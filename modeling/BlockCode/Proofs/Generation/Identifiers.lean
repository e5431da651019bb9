-- What holds of the identifiers in every session: names are sound, and each identifier
-- is well shaped and none of the words of the language. It is so in every pass, after
-- every pass before it, and for the helpers as for everything else.
import BlockCode.Proofs.Generation.History

namespace BlockCode

open BlockCode.Language

/-- What a pass has gathered can stand in a program in which the words are reserved. -/
structure PassState.Orderly (words : List String) (p : PassState) : Prop where
  clean : p.names.Clean words
  bars : p.names.Bars words
  helpers : ∀ helper ∈ p.helpers, helper.identifier ∈ p.names.taken

namespace PassState.Orderly

variable {words : List String} {p : PassState}

theorem with_names (h : p.Orderly words) {later : Names} (hclean : later.Clean words)
    (hext : p.names.Extends later) : { p with names := later }.Orderly words where
  clean := hclean
  bars := h.bars.of_extends hext
  helpers := fun helper hmem => hext.taken (h.helpers helper hmem)

theorem with_helper (h : p.Orderly words) {later : Names} (hclean : later.Clean words)
    (hext : p.names.Extends later) (helper : Helper) (hnew : helper.identifier ∈ later.taken) :
    { p with names := later, helpers := p.helpers ++ [helper] }.Orderly words where
  clean := hclean
  bars := h.bars.of_extends hext
  helpers := by
    intro other hmem
    rcases List.mem_append.mp hmem with hmem | hmem
    · exact hext.taken (h.helpers other hmem)
    · rw [List.mem_singleton.mp hmem]
      exact hnew

end PassState.Orderly

namespace Language

variable {L : Language} {words : List String}

/-- Every request that a rule makes within a pass leaves the pass orderly. -/
theorem answer_orderly (b : Block) (plugs : List Plug) (r : Request) (s : Session)
    (hr : r.opensInput = false) (h : s.pass.Orderly words) :
    (L.answer (fun _ => L.refuse) b plugs r s).2.pass.Orderly words := by
  rcases ha : L.answer (fun _ => L.refuse) b plugs r s with ⟨outcome, after⟩
  cases r with
  | value input order => cases hr
  | statements input => cases hr
  | comments input =>
    cases ha
    exact h
  | identifier name category caseSensitive =>
    rcases grant_cases ha with ⟨fault, -, -, rfl⟩ | ⟨g, hg, -, rfl⟩
    · exact h
    · exact h.with_names (h.clean.getFor h.bars hg) (Names.extends_getFor hg)
  | ownIdentifier name category =>
    rcases grant_cases ha with ⟨fault, -, -, rfl⟩ | ⟨g, hg, -, rfl⟩
    · exact h
    · exact h.with_names (h.clean.ownFor h.bars hg) (Names.extends_ownFor hg)
  | helper desired lines =>
    rcases helper_cases ha with ⟨hh, hn, -⟩ | ⟨-, g, hg, hn, ⟨hh, -⟩ | ⟨body, hh, -⟩⟩
    · exact ⟨by rw [hn]; exact h.clean, by rw [hn]; exact h.bars, by rw [hh, hn]; exact h.helpers⟩
    · have hlater := h.with_names (Helpers.clean_granted h.clean h.bars hg)
        (Helpers.extends_granted hg)
      exact ⟨by rw [hn]; exact hlater.clean, by rw [hn]; exact hlater.bars,
        by rw [hh, hn]; exact hlater.helpers⟩
    · have hlater := h.with_helper (Helpers.clean_granted h.clean h.bars hg)
        (Helpers.extends_granted hg) { desired, identifier := g.identifier, code := body }
        (Helpers.taken_granted h.clean.toSound hg)
      exact ⟨by rw [hn]; exact hlater.clean, by rw [hn]; exact hlater.bars,
        by rw [hh, hn]; exact hlater.helpers⟩
  | reserve words' =>
    cases words' <;> (cases ha; exact h)
  | pass w =>
    cases ha
    exact h

theorem keeps_orderly (L : Language) (words : List String) :
    Keeps L (fun _ => L.refuse) (fun _ _ => True) fun _ s => s.pass.Orderly words where
  rules := fun _ _ _ _ => Script.asks_anything _
  counted := fun _ _ h => ⟨h.clean, h.bars, h.helpers⟩
  told := fun _ _ _ _ h => h
  named := by
    intro E b inputs r s outcome after _ hr ha h
    have hafter := answer_orderly (L := L) b (L.plugs (fun _ => L.refuse) inputs) r s hr h
    rw [ha] at hafter
    exact hafter
  opened := fun _ _ _ _ _ _ _ _ _ _ _ _ h => h

/-- The request was met in good order, and what is told of it came of it. -/
structure Answered (L : Language) (words : List String) (e : Served) : Prop where
  orderly : e.before.pass.Orderly words
  answer : L.answer (fun _ => L.refuse) e.block (L.plugs (fun _ => L.refuse) e.inputs) e.request
    e.before = (e.outcome, e.after)

theorem keeps_answered (L : Language) (words : List String) :
    Keeps L (fun _ => L.refuse) (fun _ _ => True) fun E s =>
      s.pass.Orderly words ∧ ∀ e ∈ E, L.Answered words e := by
  have hk := keeps_orderly L words
  refine ⟨hk.rules, ?_, ?_, ?_, ?_⟩
  · exact fun E s h => ⟨hk.counted E s h.1, h.2⟩
  · exact fun E s running notes h => ⟨hk.told E s running notes h.1, h.2⟩
  · intro E b inputs r s outcome after hallowed hr ha h
    exact ⟨hk.named E b inputs r s outcome after hallowed hr ha h.1, Served.forall_snoc h.2 ⟨h.1, ha⟩⟩
  · intro E inner b inputs r s outcome after hallowed hr ha h hinner
    exact ⟨hinner.1, Served.forall_snoc hinner.2 ⟨h.1, ha⟩⟩

theorem opened_orderly (w : Workspace) {s : Session} (hw : words ⊆ s.reserved)
    (h : L.config.stableNames.truth = true → s.pass.names.Clean words) :
    (L.opened w s).pass.Orderly words where
  clean := by
    show (Session.begun L s).names.Clean words
    unfold Session.begun
    split
    · rename_i hstable
      exact (h hstable).reserve s.reserved
    · exact (Names.clean_empty words).reserve s.reserved
  bars := Names.bars_reserve _ hw
  helpers := by intro helper hmem; cases hmem

end Language

namespace Lived

variable {L : Language} {s : Session}

theorem clean (h : Lived L s) :
    L.config.stableNames.truth = true → s.pass.names.Clean L.reserved := by
  induction h with
  | new => exact fun _ => Names.clean_empty L.reserved
  | pass w hs ih =>
    have hopened := Language.opened_orderly w hs.reserved_subset ih
    exact fun _ => ((keeps_orderly L L.reserved).pass w _ hs.not_running hopened).clean
  | reserve words _ ih => cases words <;> exact ih
  | aside _ hpassing _ _ _ =>
    intro hstable
    rw [hpassing] at hstable
    cases hstable

/-- Every pass begins in good order. -/
theorem opened_orderly (h : Lived L s) (w : Workspace) :
    (L.opened w s).pass.Orderly L.reserved :=
  Language.opened_orderly w h.reserved_subset h.clean

/-- Every request in a pass was met in good order, with the answer that is told of it. -/
theorem answered (h : Lived L s) (w : Workspace) :
    ∀ e ∈ L.passTrail w s, L.Answered L.reserved e := by
  have hbegun : (L.opened w s).pass.Orderly L.reserved ∧ ∀ e ∈ [], L.Answered L.reserved e :=
    ⟨h.opened_orderly w, fun e he => absurd he List.not_mem_nil⟩
  exact ((keeps_answered L L.reserved).pass w s h.not_running hbegun).2

end Lived
end BlockCode
