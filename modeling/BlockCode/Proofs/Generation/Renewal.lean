-- Identifiers of one's own, from pass to pass. Each is new, and it stands in the program
-- that it was given out for. A program holds no more identifiers than can be cut out of it,
-- so passes that ask for such an identifier each time cannot make the same program for ever.
import BlockCode.Proofs.Generation.Course
import BlockCode.Proofs.Generation.Replay
import BlockCode.Proofs.Text.Words

namespace BlockCode

open BlockCode.Language
open BlockCode.Text (Within Solid)

/-! ## Identifiers are words -/

namespace Text

/-- A text does not hold one word after the other for ever. -/
theorem exists_not_within {words : Nat → String} (hwords : Function.Injective words)
    (text : String) : ∃ n, ¬ Within (words n) text := by
  have hlists : Function.Injective fun n => (words n).toList :=
    fun m n h => hwords (String.toList_inj.mp h)
  obtain ⟨n, -, hnot⟩ := exists_not_mem hlists text.toList.sublists
  exact ⟨n, fun hwithin => hnot hwithin.mem_sublists⟩

end Text

/-! ## What is new in every pass -/

namespace Language

variable {L : Language} {s : Session}

theorem answer_extends (b : Block) (plugs : List Plug) {r : Request} {s after : Session}
    {outcome : Except Fault String} (hr : r.opensInput = false)
    (ha : L.answer (fun _ => L.refuse) b plugs r s = (outcome, after)) :
    s.pass.names.Extends after.pass.names := by
  cases r with
  | value input order => cases hr
  | statements input => cases hr
  | comments input =>
    cases ha
    exact Names.extends_refl _
  | identifier name category caseSensitive =>
    rcases grant_cases ha with ⟨fault, -, -, rfl⟩ | ⟨g, hg, -, rfl⟩
    · exact Names.extends_refl _
    · exact Names.extends_getFor hg
  | ownIdentifier name category =>
    rcases grant_cases ha with ⟨fault, -, -, rfl⟩ | ⟨g, hg, -, rfl⟩
    · exact Names.extends_refl _
    · exact Names.extends_ownFor hg
  | helper desired lines =>
    cases ha
    exact Helpers.extends_ask _ _ _ _ _
  | reserve words =>
    cases words <;> (cases ha; exact Names.extends_refl _)
  | pass w =>
    cases ha
    exact Names.extends_refl _

/-- The identifier was given out in this pass and not before. -/
structure Renewed (first later : Names) (identifier : String) : Prop where
  before : identifier ∉ first.taken
  after : identifier ∈ later.taken
  shaped : Shaped identifier

/-- The names have grown, and whoever asked for an identifier of one's own got a new one. -/
structure Renews (first : Names) (E : List Served) (s : Session) : Prop where
  onward : first.Extends s.pass.names
  owned : ∀ e ∈ E, ∀ name category, e.request = .ownIdentifier (.str name) category →
    ∃ identifier, e.Gets identifier ∧ Renewed first s.pass.names identifier

namespace Renews

variable {first : Names} {E : List Served} {after : Session}

theorem later (h : Renews first E s) (hext : s.pass.names.Extends after.pass.names) :
    Renews first E after where
  onward := h.onward.trans hext
  owned := by
    intro e he name category hrequest
    obtain ⟨identifier, hgets, hbefore, hafter, hshaped⟩ := h.owned e he name category hrequest
    exact ⟨identifier, hgets, hbefore, hext.taken hafter, hshaped⟩

theorem snoc (h : Renews first E s) {e : Served}
    (he : ∀ name category, e.request = .ownIdentifier (.str name) category →
      ∃ identifier, e.Gets identifier ∧ Renewed first s.pass.names identifier) :
    Renews first (E ++ [e]) s where
  onward := h.onward
  owned := Served.forall_snoc h.owned he

theorem keeps (L : Language) (first : Names) :
    Keeps L (fun _ => L.refuse) (fun _ _ => True) (Renews first) where
  rules := fun _ _ _ _ => Script.asks_anything _
  counted := fun _ _ h => ⟨h.onward, h.owned⟩
  told := fun _ _ _ _ h => ⟨h.onward, h.owned⟩
  named := by
    intro E b inputs r s outcome after _ hr ha h
    refine (h.later (answer_extends b _ hr ha)).snoc ?_
    rintro name category rfl
    rcases grant_cases ha with ⟨fault, hfails, -, -⟩ | ⟨g, hg, hok, rfl⟩
    · have hname : (Value.str name).spelling? = some ↑name := rfl
      obtain ⟨g, hg⟩ := Names.ownFor_text s.pass.names hname category
      rw [hfails] at hg
      cases hg
    · obtain ⟨base, hbase, hid, -⟩ := Names.ownFor_ok hg
      refine ⟨g.identifier, ⟨rfl, hok⟩, ?_, Names.taken_ownFor hg, ?_⟩
      · intro hold
        exact Names.not_taken_of_fresh hid (h.onward.taken hold)
      · rw [hid]
        exact shaped_fresh _ (Names.shaped_plainFor hbase)
  opened := by
    intro E inner b inputs r s outcome after _ hr _ _ h
    refine h.snoc ?_
    rintro name category rfl
    cases hr

end Renews

/-- A pass gives out new identifiers to all who ask for one of their own. -/
theorem renews_pass (w : Workspace) (hs : s.running = false) :
    Renews (s.begun L).names (L.passTrail w s) (L.pass w s).2 := by
  refine (Renews.keeps L (s.begun L).names).pass w s hs ⟨Names.extends_refl _, ?_⟩
  intro e he
  cases he

theorem passesOver_idle (w : Workspace) (hs : s.running = false) (n : Nat) :
    (L.passesOver w s n).running = false := by
  induction n with
  | zero => exact hs
  | succ n ih => exact running_pass L w _ ih

theorem taken_pass (hstable : L.config.stableNames.truth = true) (w : Workspace)
    (hs : s.running = false) : s.pass.names.taken ⊆ (L.pass w s).2.pass.names.taken := by
  have honward := (renews_pass (L := L) w hs).onward.taken
  rw [begun_names hstable] at honward
  exact honward

theorem taken_passesOver (hstable : L.config.stableNames.truth = true) (w : Workspace)
    (hs : s.running = false) {m n : Nat} (hmn : m ≤ n) :
    (L.passesOver w s m).pass.names.taken ⊆ (L.passesOver w s n).pass.names.taken := by
  induction n, hmn using Nat.le_induction with
  | base => exact List.Subset.refl _
  | succ n _ ih => exact List.Subset.trans ih (taken_pass hstable w (passesOver_idle w hs n))

/-- When all passes come to the same program, the first asks for no identifier of one's own. -/
theorem Plain.not_own (hL : L.Plain) (hstable : L.config.stableNames.truth = true) {w : Workspace}
    (hs : s.running = false) {program : String}
    (hall : ∀ n, (L.pass w (L.passesOver w s n)).1 = .ok program) {e : Served}
    (he : e ∈ L.passTrail w s) {name : String} {category : Value} :
    e.request ≠ .ownIdentifier (.str name) category := by
  intro hrequest
  have htold := fun n => hL.tells_pass (passesOver_idle w hs n) (hall n)
  -- Every pass asks for the same, so each of them gives out a new identifier.
  have hnew : ∀ n, ∃ identifier, Within identifier program ∧
      Renewed ((L.passesOver w s n).begun L).names (L.passesOver w s (n + 1)).pass.names
        identifier := by
    intro n
    have hdemand : e.demand ∈ (L.passTrail w (L.passesOver w s n)).map Served.demand := by
      rw [(htold n).demanded, ← (htold 0).demanded]
      exact List.mem_map_of_mem he
    obtain ⟨d, hd, hsame⟩ := List.mem_map.mp hdemand
    have hdrequest : d.request = .ownIdentifier (.str name) category :=
      (congrArg Prod.snd hsame).trans hrequest
    obtain ⟨identifier, hgets, hrenewed⟩ :=
      (renews_pass (L := L) w (passesOver_idle w hs n)).owned d hd name category hdrequest
    exact ⟨identifier, (htold n).shown d hd identifier hgets hrenewed.shaped.solid, hrenewed⟩
  choose identifier hwithin hrenewed using hnew
  have hlater : ∀ m n, m < n → identifier m ≠ identifier n := by
    intro m n hmn heq
    apply (hrenewed n).before
    rw [begun_names hstable, ← heq]
    exact taken_passesOver hstable w hs hmn (hrenewed m).after
  have hinjective : Function.Injective identifier := by
    intro m n heq
    rcases Nat.lt_trichotomy m n with hlt | rfl | hgt
    · exact absurd heq (hlater m n hlt)
    · rfl
    · exact absurd heq.symm (hlater n m hgt)
  obtain ⟨n, hnot⟩ := Text.exists_not_within hinjective program
  exact hnot (hwithin n)

end Language
end BlockCode
