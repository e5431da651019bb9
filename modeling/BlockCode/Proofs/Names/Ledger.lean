-- What is held of the names of a program. Every identifier that a name has is taken,
-- and no two places in the memo hold one identifier. Each request for an identifier
-- either finds the one that is there or takes a new one, and nothing else changes.
import BlockCode.Names.HelperFunction
import BlockCode.Proofs.Names.Fresh
import BlockCode.Proofs.Value.Sameness

namespace BlockCode

namespace Names

/-! ## Reserved words -/

theorem mem_reserve_step (all : List String) (w word : String) :
    word ∈ (if w == "" || all.contains w then all else all ++ [w]) ↔
      word ∈ all ∨ word = w ∧ word ≠ "" := by
  by_cases hempty : w = ""
  · rw [if_pos (by simp [hempty])]
    constructor
    · exact Or.inl
    · rintro (h | ⟨rfl, hne⟩)
      · exact h
      · exact absurd hempty hne
  · by_cases hall : w ∈ all
    · rw [if_pos (by simp [hall])]
      constructor
      · exact Or.inl
      · rintro (h | ⟨rfl, -⟩)
        · exact h
        · exact hall
    · rw [if_neg (by simp [hempty, hall]), List.mem_append, List.mem_singleton]
      constructor
      · rintro (h | rfl)
        · exact Or.inl h
        · exact Or.inr ⟨rfl, hempty⟩
      · rintro (h | ⟨h, -⟩)
        · exact Or.inl h
        · exact Or.inr h

theorem mem_reserve (names : Names) (words : List String) (word : String) :
    word ∈ (names.reserve words).reserved ↔
      word ∈ names.reserved ∨ word ∈ words ∧ word ≠ "" := by
  unfold reserve
  generalize names.reserved = all
  induction words generalizing all with
  | nil => simp
  | cons w rest ih =>
    have hrest := ih (if w == "" || all.contains w then all else all ++ [w])
    rw [mem_reserve_step] at hrest
    rw [List.foldl_cons, List.mem_cons]
    refine hrest.trans ?_
    constructor
    · rintro ((h | ⟨h, hne⟩) | ⟨h, hne⟩)
      · exact Or.inl h
      · exact Or.inr ⟨Or.inl h, hne⟩
      · exact Or.inr ⟨Or.inr h, hne⟩
    · rintro (h | ⟨h | h, hne⟩)
      · exact Or.inl (Or.inl h)
      · exact Or.inl (Or.inr ⟨h, hne⟩)
      · exact Or.inr ⟨h, hne⟩

/-! ## What a request for an identifier does -/

/-- The names with one more identifier that is taken. -/
def issued (names : Names) (identifier : String) : Names :=
  { names with taken := identifier :: names.taken }

theorem known?_keep (names : Names) (k : Spelling) (identifier : String) (key : Spelling) :
    (names.keep k identifier).known? key =
      if key = k then some identifier else names.known? key := by
  unfold known? keep
  rw [List.lookup_cons]
  by_cases h : key = k
  · simp [h]
  · rw [beq_false_of_ne h, if_neg h]

theorem ownFor_ok {names : Names} {name category : Value} {g : Granted}
    (h : names.ownFor name category = .ok g) :
    ∃ base, plainFor name = .ok base ∧ g.identifier = fresh names.inUse base ∧
      g.names = names.issued g.identifier := by
  unfold ownFor at h
  rcases hb : plainFor name with fault | base
  · rw [hb] at h; cases h
  · rw [hb] at h; cases h
    exact ⟨base, rfl, rfl, rfl⟩

/-- A name has the identifier that is kept for it, or gets a new one that is kept. -/
theorem getFor_ok {names : Names} {name category : Value} {caseSensitive : Bool} {g : Granted}
    (h : names.getFor name category caseSensitive = .ok g) :
    ∃ key, keyFor name category caseSensitive = .ok key ∧
      ((names.known? key = some g.identifier ∧ g.names = names) ∨
        (names.known? key = none ∧ ∃ base, plainFor name = .ok base ∧
          g.identifier = fresh names.inUse base ∧
          g.names = (names.issued g.identifier).keep key g.identifier)) := by
  unfold getFor at h
  rcases hk : keyFor name category caseSensitive with fault | key
  · rw [hk] at h; cases h
  · rw [hk] at h
    refine ⟨key, rfl, ?_⟩
    simp only [bind, Except.bind] at h
    rcases hknown : names.known? key with _ | identifier
    · rw [hknown] at h
      rcases ho : names.ownFor name category with fault | own
      · rw [ho] at h; cases h
      · rw [ho] at h; cases h
        obtain ⟨base, hb, hid, hnames⟩ := ownFor_ok ho
        exact Or.inr ⟨rfl, base, hb, hid, by rw [hnames]⟩
    · rw [hknown] at h; cases h
      exact Or.inl ⟨rfl, rfl⟩

/-! ## The law of the names -/

structure Sound (names : Names) : Prop where
  /-- An identifier that a name has is taken. -/
  memo_taken : ∀ key identifier, names.known? key = some identifier → identifier ∈ names.taken
  /-- Two places never hold one identifier. -/
  memo_apart : ∀ key key' identifier, names.known? key = some identifier →
    names.known? key' = some identifier → key = key'

theorem sound_empty : Sound {} where
  memo_taken := by intro key identifier h; cases h
  memo_apart := by intro key key' identifier h; cases h

variable {names : Names}

theorem Sound.reserve (h : names.Sound) (words : List String) : (names.reserve words).Sound :=
  ⟨h.memo_taken, h.memo_apart⟩

theorem not_taken_of_fresh {names : Names} {identifier base : String}
    (hid : identifier = fresh names.inUse base) : identifier ∉ names.taken := by
  intro hmem
  have := fresh_not_mem names.inUse base
  rw [← hid] at this
  exact this (List.mem_append_left _ hmem)

theorem not_reserved_of_fresh {names : Names} {identifier base : String}
    (hid : identifier = fresh names.inUse base) : identifier ∉ names.reserved := by
  intro hmem
  have := fresh_not_mem names.inUse base
  rw [← hid] at this
  exact this (List.mem_append_right _ hmem)

theorem Sound.issued (h : names.Sound) (identifier : String) : (names.issued identifier).Sound where
  memo_taken := fun key id hk => List.mem_cons_of_mem _ (h.memo_taken key id hk)
  memo_apart := h.memo_apart

theorem Sound.keep (h : names.Sound) {key : Spelling} {identifier : String}
    (hnew : identifier ∉ names.taken) : ((names.issued identifier).keep key identifier).Sound where
  memo_taken := by
    intro k id hk
    rw [known?_keep] at hk
    split at hk
    · cases hk
      exact List.mem_cons_self
    · exact List.mem_cons_of_mem _ (h.memo_taken k id hk)
  memo_apart := by
    intro k k' id hk hk'
    rw [known?_keep] at hk hk'
    split at hk <;> split at hk'
    · rename_i h1 h2
      rw [h1, h2]
    · cases hk
      exact absurd (h.memo_taken k' identifier hk') hnew
    · cases hk'
      exact absurd (h.memo_taken k identifier hk) hnew
    · exact h.memo_apart k k' id hk hk'

theorem Sound.getFor (h : names.Sound) {name category : Value} {caseSensitive : Bool}
    {g : Granted} (hg : names.getFor name category caseSensitive = .ok g) : g.names.Sound := by
  obtain ⟨key, -, ⟨-, hnames⟩ | ⟨-, base, -, hid, hnames⟩⟩ := getFor_ok hg
  · rw [hnames]; exact h
  · rw [hnames]; exact h.keep (not_taken_of_fresh hid)

theorem Sound.ownFor (h : names.Sound) {name category : Value} {g : Granted}
    (hg : names.ownFor name category = .ok g) : g.names.Sound := by
  obtain ⟨base, -, hid, hnames⟩ := ownFor_ok hg
  rw [hnames]; exact h.issued _

/-! ## Nothing is taken back -/

/-- The later names give every name the identifier that it had, and put no identifier
that was taken anywhere else. -/
structure Extends (names later : Names) : Prop where
  reserved : later.reserved = names.reserved
  taken : names.taken ⊆ later.taken
  known : ∀ key identifier, names.known? key = some identifier →
    later.known? key = some identifier
  places : ∀ key identifier, identifier ∈ names.taken → later.known? key = some identifier →
    names.known? key = some identifier

theorem extends_refl (names : Names) : names.Extends names :=
  ⟨rfl, List.Subset.refl _, fun _ _ h => h, fun _ _ _ h => h⟩

theorem Extends.trans {later last : Names} (h : names.Extends later) (h' : later.Extends last) :
    names.Extends last where
  reserved := h'.reserved.trans h.reserved
  taken := List.Subset.trans h.taken h'.taken
  known := fun key identifier hk => h'.known key identifier (h.known key identifier hk)
  places := fun key identifier ht hk =>
    h.places key identifier ht (h'.places key identifier (h.taken ht) hk)

theorem extends_issued (names : Names) (identifier : String) :
    names.Extends (names.issued identifier) :=
  ⟨rfl, List.subset_cons_self _ _, fun _ _ h => h, fun _ _ _ h => h⟩

theorem extends_ownFor {name category : Value} {g : Granted}
    (hg : names.ownFor name category = .ok g) : names.Extends g.names := by
  obtain ⟨base, -, -, hnames⟩ := ownFor_ok hg
  rw [hnames]
  exact extends_issued names _

theorem extends_getFor {name category : Value} {caseSensitive : Bool} {g : Granted}
    (hg : names.getFor name category caseSensitive = .ok g) : names.Extends g.names := by
  obtain ⟨key, -, ⟨-, hnames⟩ | ⟨hnone, base, -, hid, hnames⟩⟩ := getFor_ok hg
  · rw [hnames]
    exact extends_refl names
  · rw [hnames]
    refine ⟨rfl, List.subset_cons_self _ _, ?_, ?_⟩
    · intro k id hk
      have hother : k ≠ key := by
        rintro rfl
        rw [hnone] at hk
        cases hk
      rw [known?_keep, if_neg hother]
      exact hk
    · intro k id hid' hk
      rw [known?_keep] at hk
      split at hk
      · cases hk
        exact absurd hid' (not_taken_of_fresh hid)
      · exact hk

theorem known_getFor {name category : Value} {caseSensitive : Bool} {g : Granted}
    (hg : names.getFor name category caseSensitive = .ok g) :
    ∃ key, keyFor name category caseSensitive = .ok key ∧
      g.names.known? key = some g.identifier := by
  obtain ⟨key, hkey, ⟨hknown, hnames⟩ | ⟨-, base, -, -, hnames⟩⟩ := getFor_ok hg
  · rw [hnames]
    exact ⟨key, hkey, hknown⟩
  · rw [hnames]
    exact ⟨key, hkey, by rw [known?_keep, if_pos rfl]⟩

/-! ## Identifiers that can stand in a program -/

theorem plainFor_str (name : String) : plainFor (.str name) = .ok (plainIdentifier name) := by
  unfold plainFor
  split
  · rename_i hfalse
    have hempty : name = "" := by simpa [Value.truth] using hfalse
    rw [hempty]
    rfl
  · rfl

theorem shaped_plainFor {name : Value} {base : String} (h : plainFor name = .ok base) :
    Shaped base := by
  unfold plainFor at h
  split at h
  · cases h
    exact shaped_unnamed
  · cases name with
    | str s =>
      cases h
      exact shaped_plainIdentifier s
    | torn t =>
      cases h
      exact shaped_plainIdentifier _
    | _ => cases h

/-- Every identifier that was given out can stand in a program in which the words are
reserved. -/
structure Clean (words : List String) (names : Names) : Prop extends names.Sound where
  shaped : ∀ identifier ∈ names.taken, Shaped identifier
  unreserved : ∀ identifier ∈ names.taken, identifier ∉ words

/-- None of the words can be given out. -/
def Bars (names : Names) (words : List String) : Prop :=
  ∀ word ∈ words, word ≠ "" → word ∈ names.reserved

theorem clean_empty (words : List String) : Clean words {} where
  toSound := sound_empty
  shaped := by intro identifier h; cases h
  unreserved := by intro identifier h; cases h

theorem Clean.reserve {words : List String} (h : names.Clean words) (more : List String) :
    (names.reserve more).Clean words :=
  ⟨h.toSound.reserve more, h.shaped, h.unreserved⟩

theorem bars_reserve (names : Names) {words more : List String} (h : words ⊆ more) :
    (names.reserve more).Bars words := by
  intro word hword hne
  exact (mem_reserve names more word).mpr (Or.inr ⟨h hword, hne⟩)

theorem Bars.of_extends {words : List String} {later : Names} (h : names.Bars words)
    (hext : names.Extends later) : later.Bars words := by
  intro word hword hne
  rw [hext.reserved]
  exact h word hword hne

theorem fit_of_fresh {words : List String} (hb : names.Bars words) {name : Value}
    {identifier base : String} (hbase : plainFor name = .ok base)
    (hid : identifier = fresh names.inUse base) : Shaped identifier ∧ identifier ∉ words := by
  have hshaped : Shaped identifier := by
    rw [hid]
    exact shaped_fresh _ (shaped_plainFor hbase)
  refine ⟨hshaped, ?_⟩
  intro hmem
  have hne : identifier ≠ "" := by
    intro h
    exact hshaped.ne_empty (by rw [h]; rfl)
  exact not_reserved_of_fresh hid (hb identifier hmem hne)

theorem forall_taken_issued {P : String → Prop} (h : ∀ id ∈ names.taken, P id)
    {identifier : String} (hnew : P identifier) : ∀ id ∈ (names.issued identifier).taken, P id := by
  intro id hid
  rcases List.mem_cons.mp hid with rfl | hid
  · exact hnew
  · exact h id hid

theorem Clean.ownFor {words : List String} (h : names.Clean words) (hb : names.Bars words)
    {name category : Value} {g : Granted} (hg : names.ownFor name category = .ok g) :
    g.names.Clean words := by
  have hsound := h.toSound.ownFor hg
  obtain ⟨base, hbase, hid, hnames⟩ := ownFor_ok hg
  have hfit := fit_of_fresh hb hbase hid
  refine ⟨hsound, ?_, ?_⟩
  · rw [hnames]
    exact forall_taken_issued h.shaped hfit.1
  · rw [hnames]
    exact forall_taken_issued h.unreserved hfit.2

theorem Clean.getFor {words : List String} (h : names.Clean words) (hb : names.Bars words)
    {name category : Value} {caseSensitive : Bool} {g : Granted}
    (hg : names.getFor name category caseSensitive = .ok g) : g.names.Clean words := by
  have hsound := h.toSound.getFor hg
  obtain ⟨key, -, ⟨-, hnames⟩ | ⟨-, base, hbase, hid, hnames⟩⟩ := getFor_ok hg
  · rw [hnames]
    exact h
  · have hfit := fit_of_fresh hb hbase hid
    refine ⟨hsound, ?_, ?_⟩
    · rw [hnames]
      exact forall_taken_issued h.shaped hfit.1
    · rw [hnames]
      exact forall_taken_issued h.unreserved hfit.2

/-- A name that is a text has an identifier to begin with. Its halves are no word characters. -/
theorem plainFor_text {name : Value} {signs : Spelling} (hname : name.spelling? = some signs) :
    plainFor name = .ok (plainIdentifier (signs.shown '_')) := by
  cases name with
  | str s =>
    cases hname
    rw [plainFor_str, Spelling.shown_ofText]
  | torn t =>
    cases hname
    rfl
  | _ => cases hname

theorem ownFor_text (names : Names) {name : Value} {signs : Spelling}
    (hname : name.spelling? = some signs) (category : Value) :
    ∃ g, names.ownFor name category = .ok g := by
  unfold ownFor
  rw [plainFor_text hname]
  exact ⟨_, rfl⟩

theorem spell_text {v : Value} {signs : Spelling} (h : v.spelling? = some signs) :
    spell v = .ok signs := by
  rw [spell, h]

/-- The place of a name that is a text, in a category that can be put into words. -/
theorem keyFor_text {name category : Value} {signs word : Spelling}
    (hname : name.spelling? = some signs) (hcategory : spell category = .ok word)
    (caseSensitive : Bool) :
    keyFor name category caseSensitive = .ok (place signs word caseSensitive) := by
  unfold keyFor
  rw [hname, hcategory]
  rfl

theorem getFor_text (names : Names) {name category : Value} {signs word : Spelling}
    (hname : name.spelling? = some signs) (hcategory : spell category = .ok word)
    (caseSensitive : Bool) : ∃ g, names.getFor name category caseSensitive = .ok g := by
  obtain ⟨g, hg⟩ := ownFor_text names hname category
  unfold getFor
  rw [keyFor_text hname hcategory]
  simp only [bind, Except.bind]
  rcases names.known? (place signs word caseSensitive) with _ | identifier
  · rw [hg]
    exact ⟨_, rfl⟩
  · exact ⟨_, rfl⟩

theorem taken_ownFor {name category : Value} {g : Granted}
    (hg : names.ownFor name category = .ok g) : g.identifier ∈ g.names.taken := by
  obtain ⟨base, -, -, hnames⟩ := ownFor_ok hg
  rw [hnames]
  exact List.mem_cons_self

theorem taken_getFor (h : names.Sound) {name category : Value} {caseSensitive : Bool}
    {g : Granted} (hg : names.getFor name category caseSensitive = .ok g) :
    g.identifier ∈ g.names.taken := by
  obtain ⟨key, -, hknown⟩ := known_getFor hg
  exact (h.getFor hg).memo_taken key _ hknown

end Names

/-! ## What a request for a helper does -/

namespace Helpers

/-- The names that a request for a new helper gets its identifier from. -/
def granted (names : Names) (desired : Value) (stable : Bool) : Except Fault Names.Granted :=
  if stable then names.getFor desired category true else names.ownFor desired category

/-- The place of a helper. -/
def home (desired : Spelling) : Spelling := Names.place desired "generated_function" true

theorem keyFor_home {desired : Value} {signs : Spelling} (hdesired : desired.spelling? = some signs) :
    Names.keyFor desired category true = .ok (home signs) := Names.keyFor_text hdesired rfl true

theorem find?_spec {helpers : Helpers} {desired : Value} {helper : Helper}
    (h : helpers.find? desired = some helper) :
    helper ∈ helpers ∧ helper.desired.same desired = true := by
  have hsame := List.find?_some h
  exact ⟨List.mem_of_find?_eq_some h, hsame⟩

theorem find?_defined {helpers : Helpers} {helper : Helper}
    (h : helpers.find? helper.desired = none) :
    Helpers.find? (helpers ++ [helper]) helper.desired = some helper := by
  unfold find? at h ⊢
  rw [List.find?_append, h, Option.none_or, List.find?_singleton, Value.same_self]
  rfl

section Granted

variable {names : Names} {desired : Value} {stable : Bool} {g : Names.Granted}

theorem extends_granted (hg : granted names desired stable = .ok g) : names.Extends g.names := by
  cases stable
  · exact Names.extends_ownFor hg
  · exact Names.extends_getFor hg

theorem taken_granted (h : names.Sound) (hg : granted names desired stable = .ok g) :
    g.identifier ∈ g.names.taken := by
  cases stable
  · exact Names.taken_ownFor hg
  · exact Names.taken_getFor h hg

theorem clean_granted {words : List String} (h : names.Clean words) (hb : names.Bars words)
    (hg : granted names desired stable = .ok g) : g.names.Clean words := by
  cases stable
  · exact h.ownFor hb hg
  · exact h.getFor hb hg

end Granted

/-- A helper that is there answers; a new one gets an identifier and is put behind the
others. A request that fails defines nothing. -/
theorem ask_cases {helpers : Helpers} {names : Names} {desired lines : Value} {stable : Bool}
    {a : Answer} (ha : helpers.ask names desired lines stable = a) :
    (a.helpers = helpers ∧ a.names = names ∧ ∃ fault, a.outcome = .error fault) ∨
    (a.helpers = helpers ∧ a.names = names ∧
      ∃ helper, helpers.find? desired = some helper ∧ a.outcome = .ok helper.identifier) ∨
    (helpers.find? desired = none ∧ ∃ g, granted names desired stable = .ok g ∧
      a.names = g.names ∧
      ((a.helpers = helpers ∧ ∃ fault, a.outcome = .error fault) ∨
        ∃ body, a.helpers = helpers ++ [{ desired, identifier := g.identifier, code := body }] ∧
          a.outcome = .ok g.identifier ∧
          ∃ texts, linesOf lines = .ok texts ∧ body = Helpers.body g.identifier texts)) := by
  unfold ask at ha
  rcases hkey : desired.isKey with _ | _
  · rw [hkey] at ha
    subst ha
    exact Or.inl ⟨rfl, rfl, _, rfl⟩
  · rw [hkey] at ha
    simp only [Bool.not_true, Bool.false_eq_true, if_false] at ha
    rcases hf : helpers.find? desired with _ | helper
    · rw [hf] at ha
      rcases hg : granted names desired stable with fault | g
      · unfold granted at hg
        simp only [hg] at ha
        subst ha
        exact Or.inl ⟨rfl, rfl, _, rfl⟩
      · refine Or.inr (Or.inr ⟨rfl, g, rfl, ?_⟩)
        unfold granted at hg
        rcases hl : linesOf lines with fault | texts
        · simp only [hg, hl] at ha
          subst ha
          exact ⟨rfl, Or.inl ⟨rfl, _, rfl⟩⟩
        · simp only [hg, hl] at ha
          subst ha
          exact ⟨rfl, Or.inr ⟨_, rfl, rfl, texts, rfl, rfl⟩⟩
    · simp only [hf] at ha
      subst ha
      exact Or.inr (Or.inl ⟨rfl, rfl, helper, rfl, rfl⟩)

/-- A request for a helper is answered when its name is a text and its lines can be read. -/
theorem ask_answers (helpers : Helpers) (names : Names) {desired : Value} {signs : Spelling}
    (hdesired : desired.spelling? = some signs) {lines : Value} {body : List String} (stable : Bool)
    (hlines : linesOf lines = .ok body) :
    ∃ identifier, (helpers.ask names desired lines stable).outcome = .ok identifier := by
  have hg : ∃ g, granted names desired stable = .ok g := by
    cases stable
    · exact Names.ownFor_text names hdesired category
    · exact Names.getFor_text names hdesired rfl true
  have hkey : desired.isKey = true := Value.isKey_of_spelling hdesired
  obtain ⟨g, hg⟩ := hg
  unfold granted at hg
  unfold ask
  simp only [hkey, Bool.not_true, Bool.false_eq_true, if_false]
  rcases helpers.find? desired with _ | helper
  · simp only [hg, hlines]
    exact ⟨_, rfl⟩
  · exact ⟨_, rfl⟩

end Helpers
end BlockCode
