-- Identifiers of one's own. Whatever the names were asked before, the search ends: it goes
-- over the candidates for the name and takes the first that nobody has and that is no
-- reserved word. Until everything is forgotten, that identifier is given to nobody else,
-- and it is the identifier of no name.
import BlockCode.Proofs.Names.Calls

namespace BlockCode

/-- With rounds enough the search ends at the first candidate that is free, and further
rounds make no difference. -/
theorem firstFree_eq {inUse : String → Bool} {base : String} {n k rounds : Nat}
    (hused : ∀ i < k, inUse (candidate base (n + i)) = true)
    (hfree : inUse (candidate base (n + k)) = false) (hrounds : k ≤ rounds) :
    firstFree inUse base rounds n = candidate base (n + k) := by
  obtain ⟨j, hj, heq, hbefore, hend⟩ := firstFree_spec inUse base rounds n
  rcases Nat.lt_trichotomy j k with hlt | rfl | hgt
  · have hstopped := hend (by omega)
    rw [hused j hlt] at hstopped
    cases hstopped
  · exact heq
  · rw [hbefore k hgt] at hfree
    cases hfree

namespace Names

/-- The identifier is the first of the candidates for a base that is neither taken nor
reserved. No more candidates come before it than there are identifiers in use. -/
def FirstFree (names : Names) (base identifier : String) : Prop :=
  ∃ k ≤ names.taken.length + names.reserved.length, identifier = candidate base k ∧
    identifier ∉ names.taken ∧ identifier ∉ names.reserved ∧
    ∀ i < k, candidate base i ∈ names.taken ∨ candidate base i ∈ names.reserved

theorem mem_inUse {names : Names} {identifier : String} :
    identifier ∈ names.inUse ↔ identifier ∈ names.taken ∨ identifier ∈ names.reserved := by
  simp [inUse]

theorem length_inUse (names : Names) :
    names.inUse.length = names.taken.length + names.reserved.length := by
  simp [inUse]

theorem firstFree_fresh (names : Names) (base : String) :
    names.FirstFree base (fresh names.inUse base) ∧
      ∀ rounds ≥ names.taken.length + names.reserved.length,
        firstFree names.inUse.contains base rounds 0 = fresh names.inUse base := by
  obtain ⟨k, heq, hfree, hused⟩ := fresh_spec names.inUse base
  have hbound : k ≤ names.taken.length + names.reserved.length := by
    -- One of the first candidates is free, and the search stops at none before it.
    obtain ⟨i, hi, hnot⟩ := exists_not_mem (candidate_injective base) names.inUse
    rw [length_inUse] at hi
    by_contra hlong
    apply hnot
    apply hused i
    omega
  constructor
  · rw [mem_inUse, not_or, ← heq] at hfree
    refine ⟨k, hbound, heq, hfree.1, hfree.2, ?_⟩
    intro i hi
    exact mem_inUse.mp (hused i hi)
  · intro rounds hrounds
    have hsearch : firstFree names.inUse.contains base rounds 0 = candidate base (0 + k) := by
      apply firstFree_eq
      · simpa using hused
      · simpa using hfree
      · omega
    rw [hsearch, heq, Nat.zero_add]

/-! ## What is not forgotten -/

namespace Call

variable {names : Names} {call : Call} {calls : List Call} {identifier : String}

theorem taken_after (hcalls : ∀ call ∈ calls, call ≠ reset) :
    names.taken ⊆ (after names calls).taken := by
  induction calls generalizing names with
  | nil => exact List.Subset.refl _
  | cons call rest ih =>
    obtain ⟨hcall, hrest⟩ := List.forall_mem_cons.mp hcalls
    exact List.Subset.trans (extends_run names hcall).1 (ih hrest)

/-- A taken identifier that is the identifier of no name does not become that of one. -/
theorem nowhere_after (hcalls : ∀ call ∈ calls, call ≠ reset) (htaken : identifier ∈ names.taken)
    (hnone : ∀ place, names.known? place ≠ some identifier) (place : Spelling) :
    (after names calls).known? place ≠ some identifier := by
  induction calls generalizing names with
  | nil => exact hnone place
  | cons call rest ih =>
    obtain ⟨hcall, hrest⟩ := List.forall_mem_cons.mp hcalls
    obtain ⟨hsubset, -, hplaces⟩ := extends_run names hcall
    apply ih hrest (hsubset htaken)
    intro other hknown
    exact hnone other (hplaces other identifier htaken hknown)

theorem taken_run (h : names.Sound) (hanswer : (call.run names).1 = .ok (some identifier)) :
    identifier ∈ (call.run names).2.taken := by
  rcases run_cases call names with ⟨g, hrun, ⟨_, _, _, hg⟩ | ⟨_, _, hg⟩⟩ | ⟨-, hnone⟩ | rfl
  · rw [hrun] at hanswer ⊢
    cases hanswer
    exact taken_getFor h hg
  · rw [hrun] at hanswer ⊢
    cases hanswer
    exact taken_ownFor hg
  · exact absurd hanswer (hnone identifier)
  · cases hanswer

/-- Every identifier that was given is taken, as long as nothing is forgotten. -/
theorem taken_of_answer (h : names.Sound) (hcalls : ∀ call ∈ calls, call ≠ reset)
    (hanswer : (call, .ok (some identifier)) ∈ answers names calls) :
    identifier ∈ (after names calls).taken := by
  induction calls generalizing names with
  | nil => cases hanswer
  | cons first rest ih =>
    obtain ⟨hfirst, hrest⟩ := List.forall_mem_cons.mp hcalls
    rcases List.mem_cons.mp hanswer with heq | hlater
    · obtain ⟨rfl, hrun⟩ := Prod.mk.inj heq
      exact taken_after hrest (taken_run h hrun.symm)
    · exact ih (sound_run h first) hrest hlater

end Call

/-! ## The law of an identifier of one's own -/

/-- Every name is given an identifier of its own, after any calls at all. It is the first
candidate that is neither taken nor reserved, however long the search may go on, and it has the
shape of an identifier. It is taken then, and nothing else changes. No call since
everything was forgotten last was given it, and it is the identifier of no name, nor
will be before everything is forgotten again. -/
theorem own_identifier_is_new (before since later : List Call)
    (hsince : ∀ call ∈ since, call ≠ .reset) (hlater : ∀ call ∈ later, call ≠ .reset)
    {names : Names} (hnames : Call.after (Call.after {} before) since = names)
    {name : Value} {signs : Spelling} (hname : name.spelling? = some signs) (category : Value) :
    ∃ identifier,
      (Call.own name category).run names =
        (.ok (some identifier), { names with taken := identifier :: names.taken }) ∧
      names.FirstFree (plainIdentifier (signs.shown '_')) identifier ∧
      (∀ rounds ≥ names.taken.length + names.reserved.length,
        firstFree names.inUse.contains (plainIdentifier (signs.shown '_')) rounds 0 = identifier) ∧
      Shaped identifier ∧
      (∀ call, (call, .ok (some identifier)) ∉ Call.answers (Call.after {} before) since) ∧
      (∀ place, names.known? place ≠ some identifier) ∧
      ∀ place, (Call.after { names with taken := identifier :: names.taken } later).known? place ≠
        some identifier := by
  have hstart := Call.sound_after sound_empty before
  have hsound : names.Sound := by
    rw [← hnames]
    exact Call.sound_after hstart since
  obtain ⟨g, hg⟩ := ownFor_text names hname category
  obtain ⟨base, hbase, hid, hissued⟩ := ownFor_ok hg
  rw [plainFor_text hname] at hbase
  cases hbase
  have hnew := not_taken_of_fresh hid
  have hnowhere : ∀ place, names.known? place ≠ some g.identifier :=
    fun place hknown => hnew (hsound.memo_taken place _ hknown)
  obtain ⟨hfirst, hrounds⟩ := firstFree_fresh names (plainIdentifier (signs.shown '_'))
  rw [← hid] at hfirst hrounds
  refine ⟨g.identifier, ?_, hfirst, hrounds, ?_, ?_, hnowhere, ?_⟩
  · show names.answered (names.ownFor name category) = _
    rw [hg]
    show (Except.ok (some g.identifier), g.names) = _
    rw [hissued]
    rfl
  · rw [hid]
    exact shaped_fresh _ (shaped_plainIdentifier _)
  · intro call hanswer
    apply hnew
    rw [← hnames]
    exact Call.taken_of_answer hstart hsince hanswer
  · apply Call.nowhere_after hlater
    · exact List.mem_cons_self
    · exact hnowhere

/-- A variable, an identifier of its own that looks like the next one for it, and two reserved
words. -/
def crowdedCalls : List Call :=
  [.get (.str "x") (.str "variable") false, .own (.str "x2") (.str "variable"),
    .reserve (.str "x3,x5")]

def crowded : Names where
  reserved := ["x3", "x5"]
  memo := [("x_variable", "x")]
  taken := ["x2", "x"]

/-- What was given out before everything was forgotten makes no difference. -/
theorem crowded_after :
    Call.after (Call.after {} [.own (.str "x4") (.str "variable"), .reset]) crowdedCalls =
      crowded := by
  have hfresh : fresh = fun used base => firstFree used.contains base used.length 0 := by
    funext used base
    exact fresh_eq_firstFree used base
  unfold Call.after Call.run ownFor getFor ownFor take
  rw [hfresh]
  rfl

theorem fresh_crowded : fresh crowded.inUse (plainIdentifier "x") = "x4" := by
  have hplain : plainIdentifier "x" = "x" := by decide +kernel
  rw [hplain]
  exact fresh_eq_candidate (k := 3) (by decide) (by decide)

/-- The fourth candidate is the first that is free, and is not the variable's afterwards. -/
theorem crowded_gives_fourth :
    (∀ call ∈ crowdedCalls, call ≠ .reset) ∧
      Call.get (.str "X") (.str "variable") false ≠ .reset ∧
      ((Call.own (.str "x") (.str "variable")).run crowded).1 = .ok (some "x4") ∧
      crowded.FirstFree (plainIdentifier "x") "x4" ∧ Shaped "x4" ∧
      (Call.after { crowded with taken := "x4" :: crowded.taken }
        [.get (.str "X") (.str "variable") false]).known? "x_variable" ≠ some "x4" := by
  have hcalls : ∀ call ∈ crowdedCalls, call ≠ .reset := by simp [crowdedCalls]
  have hlater : ∀ call ∈ [Call.get (.str "X") (.str "variable") false], call ≠ .reset := by simp
  have hx : (Value.str "x").spelling? = some ↑"x" := rfl
  obtain ⟨identifier, hrun, hfirst, -, hshaped, -, -, hnowhere⟩ :=
    own_identifier_is_new [.own (.str "x4") (.str "variable"), .reset] crowdedCalls
      [.get (.str "X") (.str "variable") false] hcalls hlater crowded_after hx (.str "variable")
  rw [Spelling.shown_ofText] at hfirst
  obtain rfl : identifier = "x4" := by
    obtain ⟨k, -, rfl, htaken, hreserved, hbefore⟩ := hfirst
    rw [← fresh_crowded]
    symm
    apply fresh_eq_candidate
    · simp [mem_inUse, htaken, hreserved]
    · exact fun i hi => mem_inUse.mpr (hbefore i hi)
  exact ⟨hcalls, by simp, by rw [hrun], hfirst, hshaped, hnowhere "x_variable"⟩

end Names
end BlockCode
