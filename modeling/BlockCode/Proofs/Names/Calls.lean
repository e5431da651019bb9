-- Calls of the names of a program, one after the other. Each finds the names as the call
-- before left them, also when that call failed. The names stay sound through all of them,
-- and a name keeps its identifier until everything is forgotten.
import BlockCode.Proofs.Names.Ledger

namespace BlockCode.Names

/-- What the names can be asked to do. -/
inductive Call where
  /-- The identifier of a name. -/
  | get (name category : Value) (caseSensitive : Bool)
  /-- An identifier that nobody else shares. -/
  | own (name category : Value)
  | reserve (words : Value)
  /-- Every identifier is forgotten. -/
  | reset

/-- What a request for an identifier comes to. One that fails changes nothing. -/
def answered (names : Names) : Except Fault Granted → Except Fault (Option String) × Names
  | .ok g => (.ok (some g.identifier), g.names)
  | .error fault => (.error fault, names)

namespace Call

/-- A call at work. Its answer is the identifier, when it asks for one. -/
def run : Call → Effect Names Fault (Option String)
  | get name category caseSensitive => fun names =>
    names.answered (names.getFor name category caseSensitive)
  | own name category => fun names => names.answered (names.ownFor name category)
  | reserve words => do
    reserveWords words
    return none
  | reset => fun names => (.ok none, names.reset)

/-- The names after all calls. -/
def after (names : Names) (calls : List Call) : Names :=
  calls.foldl (fun names call => (call.run names).2) names

/-- The calls with their answers. -/
def answers : Names → List Call → List (Call × Except Fault (Option String))
  | _, [] => []
  | names, call :: rest => (call, (call.run names).1) :: answers (call.run names).2 rest

end Call

/-! ## Reserving is nothing to the identifiers -/

/-- The same identifiers for the same names, and the same identifiers taken. -/
def SameIdentifiers (names later : Names) : Prop :=
  later.memo = names.memo ∧ later.taken = names.taken

variable {names later : Names}

theorem Sound.of_same (h : names.Sound) (hsame : names.SameIdentifiers later) : later.Sound := by
  rcases names with ⟨reserved, strangeWords, memo, taken⟩
  rcases later with ⟨reserved', strangeWords', memo', taken'⟩
  obtain ⟨hmemo, htaken⟩ := hsame
  cases hmemo
  cases htaken
  exact ⟨h.memo_taken, h.memo_apart⟩

theorem same_reserveWord (word : Value) (names : Names) :
    names.SameIdentifiers (reserveWord word names).2 := by
  unfold reserveWord
  split
  · exact ⟨rfl, rfl⟩
  · split
    · exact ⟨rfl, rfl⟩
    · simp only [Effect.change]
      split
      · exact ⟨rfl, rfl⟩
      · split <;> exact ⟨rfl, rfl⟩

/-- What is done for each of many values changes no identifier, if each change does not. -/
theorem same_forM {α : Type} (f : α → Effect Names Fault Unit)
    (hf : ∀ a names, SameIdentifiers names (f a names).2) (values : List α) (names : Names) :
    names.SameIdentifiers (values.forM f names).2 := by
  induction values generalizing names with
  | nil => exact ⟨rfl, rfl⟩
  | cons a rest ih =>
    have hfirst := hf a names
    rw [show (a :: rest).forM f = (f a >>= fun _ => rest.forM f) from rfl]
    rcases hrun : f a names with ⟨fault | done, names'⟩
    · rw [Effect.bind_error hrun]
      rw [hrun] at hfirst
      exact hfirst
    · rw [Effect.bind_ok hrun]
      rw [hrun] at hfirst
      have hrest := ih names'
      exact ⟨hrest.1.trans hfirst.1, hrest.2.trans hfirst.2⟩

theorem same_reserveWords (words : Value) (names : Names) :
    names.SameIdentifiers (reserveWords words names).2 := by
  cases words with
  | str s => exact ⟨rfl, rfl⟩
  | torn t => exact same_forM reserveWord same_reserveWord _ names
  | list words => exact same_forM reserveWord same_reserveWord words names
  | tuple words => exact same_forM reserveWord same_reserveWord words names
  | table entries => exact same_forM _ (fun entry => same_reserveWord entry.1) entries names
  | _ => exact ⟨rfl, rfl⟩

/-! ## What calls keep -/

namespace Call

theorem run_cases (call : Call) (names : Names) :
    (∃ g, call.run names = (.ok (some g.identifier), g.names) ∧
      ((∃ name category caseSensitive, names.getFor name category caseSensitive = .ok g) ∨
        ∃ name category, names.ownFor name category = .ok g)) ∨
    (names.SameIdentifiers (call.run names).2 ∧
      ∀ identifier, (call.run names).1 ≠ .ok (some identifier)) ∨
    call = reset := by
  cases call with
  | get name category caseSensitive =>
    have hrun : (get name category caseSensitive).run names =
        names.answered (names.getFor name category caseSensitive) := rfl
    rw [hrun]
    rcases hg : names.getFor name category caseSensitive with fault | g
    · exact Or.inr (Or.inl ⟨⟨rfl, rfl⟩, by simp [answered]⟩)
    · exact Or.inl ⟨g, rfl, Or.inl ⟨name, category, caseSensitive, hg⟩⟩
  | own name category =>
    have hrun : (own name category).run names = names.answered (names.ownFor name category) := rfl
    rw [hrun]
    rcases hg : names.ownFor name category with fault | g
    · exact Or.inr (Or.inl ⟨⟨rfl, rfl⟩, by simp [answered]⟩)
    · exact Or.inl ⟨g, rfl, Or.inr ⟨name, category, hg⟩⟩
  | reserve words =>
    have hsame := same_reserveWords words names
    have hrun : (reserve words).run names = (reserveWords words >>= fun _ => pure none) names := rfl
    rw [hrun]
    rcases hwords : reserveWords words names with ⟨fault | done, names'⟩
    · rw [hwords] at hsame
      rw [Effect.bind_error hwords]
      exact Or.inr (Or.inl ⟨hsame, by simp⟩)
    · rw [hwords] at hsame
      rw [Effect.bind_ok hwords]
      exact Or.inr (Or.inl ⟨hsame, by simp [Effect.pure_apply]⟩)
  | reset => exact Or.inr (Or.inr rfl)

theorem sound_run (h : names.Sound) (call : Call) : (call.run names).2.Sound := by
  rcases run_cases call names with ⟨g, hrun, ⟨_, _, _, hg⟩ | ⟨_, _, hg⟩⟩ | ⟨hsame, -⟩ | rfl
  · rw [hrun]
    exact h.getFor hg
  · rw [hrun]
    exact h.ownFor hg
  · exact h.of_same hsame
  · exact sound_empty.of_same ⟨rfl, rfl⟩

theorem sound_after (h : names.Sound) (calls : List Call) : (after names calls).Sound := by
  induction calls generalizing names with
  | nil => exact h
  | cons call rest ih => exact ih (sound_run h call)

/-- What is taken stays taken, what a name has it keeps, and what is taken gets into no other
place, in every call but the one that forgets all. -/
theorem extends_run (names : Names) {call : Call} (hcall : call ≠ reset) :
    names.taken ⊆ (call.run names).2.taken ∧
      (∀ place identifier, names.known? place = some identifier →
        (call.run names).2.known? place = some identifier) ∧
      ∀ place identifier, identifier ∈ names.taken →
        (call.run names).2.known? place = some identifier →
          names.known? place = some identifier := by
  rcases run_cases call names with
    ⟨g, hrun, ⟨_, _, _, hg⟩ | ⟨_, _, hg⟩⟩ | ⟨⟨hmemo, htaken⟩, -⟩ | rfl
  · have hext := extends_getFor hg
    rw [hrun]
    exact ⟨hext.taken, hext.known, hext.places⟩
  · have hext := extends_ownFor hg
    rw [hrun]
    exact ⟨hext.taken, hext.known, hext.places⟩
  · unfold known?
    rw [hmemo, htaken]
    exact ⟨List.Subset.refl _, fun _ _ h => h, fun _ _ _ h => h⟩
  · exact absurd rfl hcall

theorem known_after {calls : List Call} (hcalls : ∀ call ∈ calls, call ≠ reset)
    {place : Spelling} {identifier : String}
    (h : names.known? place = some identifier) :
    (after names calls).known? place = some identifier := by
  induction calls generalizing names with
  | nil => exact h
  | cons call rest ih =>
    obtain ⟨hcall, hrest⟩ := List.forall_mem_cons.mp hcalls
    apply ih hrest
    exact (extends_run names hcall).2.1 place identifier h

/-- A name that is a text is given an identifier, and has it after all further calls. -/
theorem known_of_answer {calls : List Call} (hcalls : ∀ call ∈ calls, call ≠ reset)
    {name category : Value} {signs word : Spelling} (hname : name.spelling? = some signs)
    (hcategory : spell category = .ok word) {caseSensitive : Bool}
    {answer : Except Fault (Option String)}
    (h : (get name category caseSensitive, answer) ∈ answers names calls) :
    ∃ identifier, answer = .ok (some identifier) ∧
      (after names calls).known? (place signs word caseSensitive) = some identifier := by
  induction calls generalizing names with
  | nil => cases h
  | cons call rest ih =>
    have hrest : ∀ other ∈ rest, other ≠ reset :=
      fun other hother => hcalls other (List.mem_cons_of_mem _ hother)
    rcases List.mem_cons.mp h with heq | hlater
    · obtain ⟨rfl, rfl⟩ := Prod.mk.inj heq
      obtain ⟨g, hg⟩ := getFor_text names hname hcategory caseSensitive
      obtain ⟨key, hkey, hknown⟩ := known_getFor hg
      rw [keyFor_text hname hcategory] at hkey
      cases hkey
      have hrun : (get name category caseSensitive).run names = (.ok (some g.identifier), g.names) := by
        show names.answered (names.getFor name category caseSensitive) = _
        rw [hg]
        rfl
      refine ⟨g.identifier, by rw [hrun], ?_⟩
      show (after (run _ names).2 rest).known? _ = _
      rw [hrun]
      exact known_after hrest hknown
    · exact ih hrest hlater

end Call
end BlockCode.Names
