-- The places of identifiers in the memo. The place of a name is its lower case, an
-- underscore and its category, written as one text. Nothing marks where the name ends,
-- so two names of two categories can have one place. Names share an identifier exactly
-- when they share a place.
import BlockCode.Proofs.Names.Calls

namespace BlockCode.Names

open Text

/-! ## Where a name ends and its category begins -/

/-- The second name runs on with an underscore and the words with which the category of
the first begins. -/
def RunsOn (a c b d : Spelling) : Prop :=
  ∃ t, lowerSpelling b = lowerSpelling a ++ .char '_' :: t ∧ c = t ++ .char '_' :: d

theorem joined_eq_iff {α : Type} (u : α) (x c y d : List α) :
    x ++ u :: c = y ++ u :: d ↔
      x = y ∧ c = d ∨ (∃ t, y = x ++ u :: t ∧ c = t ++ u :: d) ∨
        ∃ t, x = y ++ u :: t ∧ d = t ++ u :: c := by
  constructor
  · intro h
    rcases List.append_eq_append_iff.mp h with ⟨_ | ⟨v, t⟩, hy, hc⟩ | ⟨_ | ⟨v, t⟩, hx, hd⟩
    · rw [List.append_nil] at hy
      exact Or.inl ⟨hy.symm, (List.cons.inj hc).2⟩
    · obtain ⟨rfl, htail⟩ := List.cons.inj hc
      exact Or.inr (Or.inl ⟨t, hy, htail⟩)
    · rw [List.append_nil] at hx
      exact Or.inl ⟨hx, (List.cons.inj hd).2.symm⟩
    · obtain ⟨rfl, htail⟩ := List.cons.inj hd
      exact Or.inr (Or.inr ⟨t, hx, htail⟩)
  · rintro (⟨rfl, rfl⟩ | ⟨t, rfl, rfl⟩ | ⟨t, rfl, rfl⟩)
    · rfl
    · rw [List.append_assoc, List.cons_append]
    · rw [List.append_assoc, List.cons_append]

/-- Two names have one place when they are the same name of the same category, or when
one of them runs on into the category of the other. -/
theorem place_eq_iff (a c b d : Spelling) :
    place a c false = place b d false ↔
      c = d ∧ lowerSpelling a = lowerSpelling b ∨ RunsOn a c b d ∨ RunsOn b d a c := by
  unfold place RunsOn
  rw [if_neg Bool.false_ne_true, if_neg Bool.false_ne_true, joined_eq_iff, and_comm]

theorem not_runsOn {a c b d : Spelling} (h : .char '_' ∉ c) : ¬ RunsOn a c b d := by
  rintro ⟨t, -, rfl⟩
  exact h (List.mem_append_right t List.mem_cons_self)

theorem sameValue_iff {name other : Value} {a b : Spelling} (ha : name.spelling? = some a)
    (hb : other.spelling? = some b) :
    sameValue name other = .ok true ↔ lowerSpelling a = lowerSpelling b := by
  unfold sameValue
  rw [ha, hb]
  simp only [Except.ok.injEq, beq_iff_eq]

/-! ## Which names share an identifier -/

/-- After any calls at all, and through any further calls that forget nothing, every name
is given an identifier. Two names are given the same one exactly when they are the same
name of the same category or one runs on into the category of the other; so never, when
their categories have no underscore. -/
theorem shared_identifier_iff (past calls : List Call) (hcalls : ∀ call ∈ calls, call ≠ .reset)
    {name category other category' : Value} {a c b d : Spelling}
    (ha : name.spelling? = some a) (hc : category.spelling? = some c)
    (hb : other.spelling? = some b) (hd : category'.spelling? = some d)
    {first second : Except Fault (Option String)}
    (hfirst : (.get name category false, first) ∈ Call.answers (Call.after {} past) calls)
    (hsecond : (.get other category' false, second) ∈ Call.answers (Call.after {} past) calls) :
    ∃ i j, first = .ok (some i) ∧ second = .ok (some j) ∧
      (i = j ↔ c = d ∧ sameValue name other = .ok true ∨ RunsOn a c b d ∨ RunsOn b d a c) ∧
      (.char '_' ∉ c → .char '_' ∉ d → (i = j ↔ c = d ∧ sameValue name other = .ok true)) := by
  have hsound := Call.sound_after (Call.sound_after sound_empty past) calls
  obtain ⟨i, hi, hknown⟩ := Call.known_of_answer hcalls ha (spell_text hc) hfirst
  obtain ⟨j, hj, hknown'⟩ := Call.known_of_answer hcalls hb (spell_text hd) hsecond
  have hshared : i = j ↔
      c = d ∧ sameValue name other = .ok true ∨ RunsOn a c b d ∨ RunsOn b d a c := by
    rw [sameValue_iff ha hb, ← place_eq_iff]
    constructor
    · rintro rfl
      exact hsound.memo_apart _ _ i hknown hknown'
    · intro hplace
      rw [hplace, hknown'] at hknown
      exact (Option.some.inj hknown).symm
  refine ⟨i, j, hi, hj, hshared, ?_⟩
  intro hplain hplain'
  rw [hshared]
  constructor
  · rintro (hsame | hruns | hruns)
    · exact hsame
    · exact absurd hruns (not_runsOn hplain)
    · exact absurd hruns (not_runsOn hplain')
  · exact Or.inl

/-- A variable, an identifier of its own, and a procedure, with names that differ in case. -/
def totalCalls : List Call :=
  [.get (.str "Total") (.str "variable") false, .own (.str "total") (.str "variable"),
    .get (.str "total") (.str "procedure") false]

/-- The variable and the procedure have two identifiers. -/
theorem total_of_two_categories :
    (∀ call ∈ totalCalls, call ≠ .reset) ∧
      ∃ i j, (Call.get (.str "Total") (.str "variable") false, .ok (some i)) ∈
          Call.answers (Call.after {} []) totalCalls ∧
        (Call.get (.str "total") (.str "procedure") false, .ok (some j)) ∈
          Call.answers (Call.after {} []) totalCalls ∧ i ≠ j := by
  have hcalls : ∀ call ∈ totalCalls, call ≠ .reset := by
    simp [totalCalls]
  refine ⟨hcalls, ?_⟩
  obtain ⟨i, j, hi, hj, -, hplain⟩ := shared_identifier_iff [] totalCalls hcalls rfl rfl rfl rfl
    List.mem_cons_self (List.mem_cons_of_mem _ (List.mem_cons_of_mem _ List.mem_cons_self))
  refine ⟨i, j, ?_, ?_, ?_⟩
  · rw [← hi]
    exact List.mem_cons_self
  · rw [← hj]
    exact List.mem_cons_of_mem _ (List.mem_cons_of_mem _ List.mem_cons_self)
  · intro hij
    have hcategory := ((hplain (by decide) (by decide)).mp hij).1
    exact absurd hcategory (by decide)

/-- The place "a_b_c" is that of "a_b" in the category "c" and of "a" in the category
"b_c", so the two have one identifier. -/
theorem one_identifier_for_two_categories :
    (Call.answers {} [.get (.str "a_b") (.str "c") false, .get (.str "a") (.str "b_c") false]).map
        (·.2) = [.ok (some "a_b"), .ok (some "a_b")] ∧
      "c" ≠ "b_c" ∧ sameName "a_b" "a" = false := by
  exact ⟨rfl, by decide, by decide⟩

end BlockCode.Names
