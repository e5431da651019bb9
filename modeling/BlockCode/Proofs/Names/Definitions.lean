-- The helpers of a program as they come about. They are asked for one after the other, and the
-- names are asked for other things in between. The first request for a helper defines it, and
-- no later one changes anything. No two helpers get one identifier, whatever the names did.
import BlockCode.Proofs.Names.Own
import BlockCode.Proofs.Text.Replaced

namespace BlockCode

open Text

namespace Names.Call

variable {names : Names}

theorem bars_nothing (names : Names) : names.Bars [] := by
  intro word hword
  cases hword

theorem clean_run (h : names.Clean []) (call : Call) : (call.run names).2.Clean [] := by
  rcases run_cases call names with ⟨g, hrun, ⟨_, _, _, hg⟩ | ⟨_, _, hg⟩⟩ | ⟨hsame, -⟩ | rfl
  · rw [hrun]
    exact h.getFor (bars_nothing names) hg
  · rw [hrun]
    exact h.ownFor (bars_nothing names) hg
  · refine ⟨h.toSound.of_same hsame, ?_, ?_⟩
    · rw [hsame.2]
      exact h.shaped
    · simp
  · refine ⟨sound_empty.of_same ⟨rfl, rfl⟩, ?_, ?_⟩
    · simp [run, Names.reset]
    · simp

theorem clean_after (h : names.Clean []) (calls : List Call) : (after names calls).Clean [] := by
  induction calls generalizing names with
  | nil => exact h
  | cons call rest ih => exact ih (clean_run h call)

end Names.Call

namespace Helpers

/-- What is asked while helpers are gathered. -/
inductive Call where
  /-- A helper, by the name that it would like and its lines. -/
  | ask (desired : String) (lines : List String) (stable : Bool)
  /-- Something of the names. -/
  | names (call : Names.Call)

/-- The helpers, and the names that they get their identifiers from. -/
structure Shelf where
  helpers : Helpers := []
  names : Names := {}

namespace Call

/-- A call at work. Its answer is the identifier, when it asks for one. -/
def run : Call → Effect Shelf Fault (Option String)
  | ask desired lines stable => fun s =>
    let a := s.helpers.ask s.names (.str desired) (.list (lines.map .str)) stable
    (a.outcome.map some, { helpers := a.helpers, names := a.names })
  | names call => fun s => ((call.run s.names).1, { s with names := (call.run s.names).2 })

/-- The helpers and the names after all calls. -/
def after (s : Shelf) (calls : List Call) : Shelf :=
  calls.foldl (fun s call => (call.run s).2) s

/-- The calls with their answers. -/
def answers : Shelf → List Call → List (Call × Except Fault (Option String))
  | _, [] => []
  | s, call :: rest => (call, (call.run s).1) :: answers (call.run s).2 rest

/-- The names of helpers with the lines of their first requests, in the order of these. -/
def firsts : List Call → List (String × List String)
  | [] => []
  | ask desired lines _ :: rest => (desired, lines) :: (firsts rest).filter (·.1 ≠ desired)
  | names _ :: rest => firsts rest

theorem firsts_snoc_names (calls : List Call) (call : Names.Call) :
    firsts (calls ++ [names call]) = firsts calls := by
  induction calls with
  | nil => rfl
  | cons first rest ih =>
    cases first with
    | ask desired lines stable => simp [firsts, ih]
    | names other => simp [firsts, ih]

theorem mem_firsts (calls : List Call) (desired : String) :
    desired ∈ (firsts calls).map (·.1) ↔
      ∃ lines stable, ask desired lines stable ∈ calls := by
  induction calls with
  | nil => simp [firsts]
  | cons first rest ih =>
    cases first with
    | names other =>
      rw [firsts, ih]
      simp
    | ask other lines stable =>
      by_cases hsame : desired = other
      · subst hsame
        constructor
        · intro _
          exact ⟨lines, stable, List.mem_cons_self⟩
        · intro _
          simp [firsts]
      · simp only [firsts, List.map_cons, List.mem_cons, hsame, false_or, Call.ask.injEq,
          false_and]
        rw [← ih]
        constructor
        · intro hkept
          obtain ⟨first, hfirst, rfl⟩ := List.mem_map.mp hkept
          exact List.mem_map_of_mem (List.mem_filter.mp hfirst).1
        · intro hmem
          obtain ⟨first, hfirst, rfl⟩ := List.mem_map.mp hmem
          apply List.mem_map_of_mem
          simp [hfirst, hsame]

theorem firsts_snoc_ask (calls : List Call) (desired : String) (lines : List String)
    (stable : Bool) :
    firsts (calls ++ [ask desired lines stable]) =
      if desired ∈ (firsts calls).map (·.1) then firsts calls
      else firsts calls ++ [(desired, lines)] := by
  induction calls with
  | nil => simp [firsts]
  | cons first rest ih =>
    have hmem := mem_firsts (first :: rest) desired
    have hrest := mem_firsts rest desired
    cases first with
    | names other =>
      simp only [List.cons_append, firsts]
      exact ih
    | ask other lines' stable' =>
      rw [List.cons_append, firsts, ih]
      by_cases hsame : desired = other
      · subst hsame
        rw [if_pos (hmem.mpr ⟨lines', stable', List.mem_cons_self⟩)]
        split <;> simp [firsts]
      · by_cases hbefore : desired ∈ (firsts rest).map (·.1)
        · obtain ⟨lines'', stable'', hcall⟩ := hrest.mp hbefore
          rw [if_pos hbefore, if_pos (hmem.mpr ⟨lines'', stable'', List.mem_cons_of_mem _ hcall⟩)]
          rfl
        · rw [if_neg hbefore, if_neg, List.filter_append]
          · simp [firsts, hsame]
          · rw [hmem]
            rintro ⟨lines'', stable'', hcall⟩
            rcases List.mem_cons.mp hcall with heq | hcall
            · exact hsame (by cases heq; rfl)
            · exact hbefore (hrest.mpr ⟨lines'', stable'', hcall⟩)

theorem nodup_firsts (calls : List Call) : ((firsts calls).map (·.1)).Nodup := by
  induction calls using List.reverseRecOn with
  | nil => simp [firsts]
  | append_singleton calls call ih =>
    cases call with
    | names other =>
      rw [firsts_snoc_names]
      exact ih
    | ask desired lines stable =>
      rw [firsts_snoc_ask]
      split
      · exact ih
      · rename_i hnew
        rw [List.map_append, List.nodup_append]
        refine ⟨ih, by simp, ?_⟩
        intro a ha b hb hab
        simp only [List.map_cons, List.map_nil, List.mem_singleton] at hb
        exact hnew (by rw [← hb, ← hab]; exact ha)

theorem after_append (s : Shelf) (before later : List Call) :
    after s (before ++ later) = after (after s before) later := by
  simp [after]

theorem after_snoc (s : Shelf) (calls : List Call) (call : Call) :
    after s (calls ++ [call]) = (call.run (after s calls)).2 := by
  simp [after]

end Call

/-! ## One request -/

section One

variable {s : Shelf} {desired : String} {helper : Helper}

theorem run_ask_found (h : s.helpers.find? (.str desired) = some helper) (lines : List String)
    (stable : Bool) :
    (Call.ask desired lines stable).run s = (.ok (some helper.identifier), s) := by
  simp only [Call.run, ask, Value.isKey_str, Bool.not_true, Bool.false_eq_true, if_false, h]
  rfl

theorem linesOf_texts (lines : List String) : linesOf (.list (lines.map .str)) = .ok lines := by
  show (lines.map Value.str).mapM linesOf.line = .ok lines
  induction lines with
  | nil => rfl
  | cons line rest ih =>
    rw [List.map_cons, List.mapM_cons, ih]
    rfl

theorem run_ask_new (h : s.helpers.find? (.str desired) = none) (lines : List String)
    (stable : Bool) :
    ∃ g, granted s.names (.str desired) stable = .ok g ∧
      (Call.ask desired lines stable).run s = (.ok (some g.identifier),
        { helpers := s.helpers ++
            [{ desired := .str desired, identifier := g.identifier
               code := body g.identifier lines }]
          names := g.names }) := by
  have hlines := linesOf_texts lines
  have hname : (Value.str desired).spelling? = some ↑desired := rfl
  obtain ⟨identifier, hanswer⟩ := ask_answers s.helpers s.names hname stable hlines
  rcases ask_cases (rfl : s.helpers.ask s.names (.str desired) (.list (lines.map .str)) stable = _)
    with ⟨-, -, fault, hfault⟩ | ⟨-, -, helper, hfound, -⟩ | ⟨-, g, hg, hnames, hbody⟩
  · rw [hfault] at hanswer
    cases hanswer
  · rw [h] at hfound
    cases hfound
  · rcases hbody with ⟨-, fault, hfault⟩ | ⟨code, hhelpers, hid, texts, htexts, hcode⟩
    · rw [hfault] at hanswer
      cases hanswer
    · rw [hlines] at htexts
      cases htexts
      refine ⟨g, hg, ?_⟩
      simp only [Call.run, hid, hhelpers, hnames, hcode]
      rfl

/-- A request is answered with the identifier of the helper that is there then. -/
theorem found_ask (s : Shelf) (desired : String) (lines : List String) (stable : Bool) :
    ∃ helper, ((Call.ask desired lines stable).run s).1 = .ok (some helper.identifier) ∧
      ((Call.ask desired lines stable).run s).2.helpers.find? (.str desired) = some helper := by
  rcases hfind : s.helpers.find? (.str desired) with _ | helper
  · obtain ⟨g, -, hrun⟩ := run_ask_new hfind lines stable
    rw [hrun]
    exact ⟨_, rfl, find?_defined hfind⟩
  · rw [run_ask_found hfind]
    exact ⟨helper, rfl, hfind⟩

theorem found_run (h : s.helpers.find? (.str desired) = some helper) (call : Call) :
    (call.run s).2.helpers.find? (.str desired) = some helper := by
  cases call with
  | names call => exact h
  | ask other lines stable =>
    rcases hfind : s.helpers.find? (.str other) with _ | found
    · obtain ⟨g, -, hrun⟩ := run_ask_new hfind lines stable
      rw [hrun]
      unfold find? at h ⊢
      rw [List.find?_append, h]
      rfl
    · rw [run_ask_found hfind]
      exact h

theorem found_after (h : s.helpers.find? (.str desired) = some helper) (calls : List Call) :
    (Call.after s calls).helpers.find? (.str desired) = some helper := by
  induction calls generalizing s with
  | nil => exact h
  | cons call rest ih => exact ih (found_run h call)

/-- All requests for a name are answered with the identifier of one helper. -/
theorem found_of_answer {calls : List Call} {lines : List String} {stable : Bool}
    {answer : Except Fault (Option String)}
    (h : (.ask desired lines stable, answer) ∈ Call.answers s calls) :
    ∃ helper, answer = .ok (some helper.identifier) ∧
      (Call.after s calls).helpers.find? (.str desired) = some helper := by
  induction calls generalizing s with
  | nil => cases h
  | cons call rest ih =>
    rcases List.mem_cons.mp h with heq | hlater
    · obtain ⟨rfl, rfl⟩ := Prod.mk.inj heq
      obtain ⟨helper, hanswer, hfound⟩ := found_ask s desired lines stable
      exact ⟨helper, hanswer, found_after hfound rest⟩
    · exact ih hlater

end One

/-! ## What all requests keep -/

/-- The helper is the one that the first request for its name defines. -/
structure DefinedBy (first : String × List String) (helper : Helper) : Prop where
  desired : helper.desired = .str first.1
  code : helper.code = body helper.identifier first.2

theorem home_injective : Function.Injective home := by
  intro a b h
  unfold home Names.place at h
  exact List.append_cancel_right h

/-- What is held of the helpers and the names after the calls. -/
structure Shelf.Kept (calls : List Call) (s : Shelf) : Prop where
  clean : s.names.Clean []
  taken : ∀ helper ∈ s.helpers, helper.identifier ∈ s.names.taken
  /-- The identifier of a helper is the identifier of no name but that of the helper. -/
  placed : ∀ helper ∈ s.helpers, ∀ place, s.names.known? place = some helper.identifier →
    ∃ desired, helper.desired = .str desired ∧ place = home desired
  apart : s.helpers.Pairwise (·.identifier ≠ ·.identifier)
  first : List.Forall₂ DefinedBy (Call.firsts calls) s.helpers

namespace Shelf.Kept

variable {calls : List Call} {s : Shelf}

theorem exists_helper (h : s.Kept calls) {first : String × List String}
    (hfirst : first ∈ Call.firsts calls) : ∃ helper ∈ s.helpers, DefinedBy first helper := by
  obtain ⟨n, hn, rfl⟩ := List.getElem_of_mem hfirst
  have hlength := h.first.length_eq
  have hn' : n < s.helpers.length := by omega
  exact ⟨s.helpers[n], List.getElem_mem hn', h.first.get hn hn'⟩

theorem exists_first (h : s.Kept calls) {helper : Helper} (hhelper : helper ∈ s.helpers) :
    ∃ first ∈ Call.firsts calls, DefinedBy first helper := by
  obtain ⟨n, hn, rfl⟩ := List.getElem_of_mem hhelper
  have hlength := h.first.length_eq
  have hn' : n < (Call.firsts calls).length := by omega
  exact ⟨(Call.firsts calls)[n], List.getElem_mem hn', h.first.get hn' hn⟩

theorem find?_none_iff (h : s.Kept calls) (desired : String) :
    s.helpers.find? (.str desired) = none ↔ desired ∉ (Call.firsts calls).map (·.1) := by
  unfold find?
  rw [List.find?_eq_none]
  constructor
  · intro hnone hmem
    obtain ⟨first, hfirst, rfl⟩ := List.mem_map.mp hmem
    obtain ⟨helper, hhelper, hdefined⟩ := h.exists_helper hfirst
    apply hnone helper hhelper
    rw [hdefined.desired, Value.same_text_iff]
  · intro hmem helper hhelper hsame
    obtain ⟨first, hfirst, hdefined⟩ := h.exists_first hhelper
    rw [hdefined.desired, Value.same_text_iff] at hsame
    cases hsame
    exact hmem (List.mem_map_of_mem hfirst)

theorem start {names : Names} (h : names.Clean []) : Shelf.Kept [] { helpers := [], names } where
  clean := h
  taken := by simp
  placed := by simp
  apart := List.Pairwise.nil
  first := List.Forall₂.nil

theorem names (h : s.Kept calls) {call : Names.Call} (hcall : call ≠ .reset) :
    Shelf.Kept (calls ++ [.names call]) ((Call.names call).run s).2 := by
  obtain ⟨hsubset, -, hplaces⟩ := Names.Call.extends_run s.names hcall
  refine ⟨Names.Call.clean_run h.clean call, ?_, ?_, h.apart, ?_⟩
  · intro helper hhelper
    exact hsubset (h.taken helper hhelper)
  · intro helper hhelper place hplace
    apply h.placed helper hhelper
    exact hplaces place _ (h.taken helper hhelper) hplace
  · rw [Call.firsts_snoc_names]
    exact h.first

/-- The identifier of a new helper is the identifier of no other, and of no name but that of
the helper. -/
theorem granted_new (h : s.Kept calls) {desired : String} {stable : Bool} {g : Names.Granted}
    (hnew : s.helpers.find? (.str desired) = none)
    (hg : granted s.names (.str desired) stable = .ok g) :
    (∀ helper ∈ s.helpers, helper.identifier ≠ g.identifier) ∧
      ∀ place, g.names.known? place = some g.identifier →
        place = home desired := by
  have hfree : g.identifier ∉ s.names.taken →
      ∀ helper ∈ s.helpers, helper.identifier ≠ g.identifier := by
    intro hfree helper hhelper heq
    rw [← heq] at hfree
    exact hfree (h.taken helper hhelper)
  cases stable with
  | false =>
    obtain ⟨base, -, hid, hnames⟩ := Names.ownFor_ok hg
    have hfresh := Names.not_taken_of_fresh hid
    refine ⟨hfree hfresh, ?_⟩
    intro place hknown
    rw [hnames] at hknown
    exact absurd (h.clean.memo_taken place _ hknown) hfresh
  | true =>
    obtain ⟨key, hkey, hcases⟩ := Names.getFor_ok hg
    have hname : (Value.str desired).spelling? = some ↑desired := rfl
    obtain rfl : home desired = key := by
      rw [keyFor_home hname] at hkey
      exact Except.ok.inj hkey
    rcases hcases with ⟨hknown, hnames⟩ | ⟨-, base, -, hid, hnames⟩
    · rw [hnames]
      constructor
      · intro helper hhelper heq
        rw [← heq] at hknown
        obtain ⟨other, hother, hplace⟩ := h.placed helper hhelper _ hknown
        obtain rfl := Spelling.ofText_inj.mp (home_injective hplace)
        unfold find? at hnew
        rw [List.find?_eq_none] at hnew
        apply hnew helper hhelper
        rw [hother, Value.same_text_iff]
      · intro place hplace
        exact h.clean.memo_apart place _ _ hplace hknown
    · have hfresh := Names.not_taken_of_fresh hid
      refine ⟨hfree hfresh, ?_⟩
      intro place hplace
      rw [hnames, Names.known?_keep] at hplace
      split at hplace
      · assumption
      · exact absurd (h.clean.memo_taken place _ hplace) hfresh

theorem ask (h : s.Kept calls) (desired : String) (lines : List String) (stable : Bool) :
    Shelf.Kept (calls ++ [.ask desired lines stable])
      ((Call.ask desired lines stable).run s).2 := by
  have hmem := h.find?_none_iff desired
  rcases hfind : s.helpers.find? (.str desired) with _ | helper
  · obtain ⟨g, hg, hrun⟩ := run_ask_new hfind lines stable
    obtain ⟨hother, hplace⟩ := h.granted_new hfind hg
    have hext := extends_granted hg
    rw [hrun]
    constructor
    · exact clean_granted h.clean (Names.Call.bars_nothing s.names) hg
    · intro helper hhelper
      rcases List.mem_append.mp hhelper with hold | hnew
      · exact hext.taken (h.taken helper hold)
      · rw [List.mem_singleton.mp hnew]
        exact taken_granted h.clean.toSound hg
    · intro helper hhelper place hknown
      rcases List.mem_append.mp hhelper with hold | hnew
      · apply h.placed helper hold
        exact hext.places place _ (h.taken helper hold) hknown
      · rw [List.mem_singleton.mp hnew] at hknown ⊢
        exact ⟨desired, rfl, hplace place hknown⟩
    · rw [List.pairwise_append]
      refine ⟨h.apart, List.pairwise_singleton _ _, ?_⟩
      intro helper hhelper last hlast
      rw [List.mem_singleton.mp hlast]
      exact hother helper hhelper
    · rw [Call.firsts_snoc_ask, if_neg (hmem.mp hfind)]
      apply List.rel_append h.first
      exact .cons ⟨rfl, rfl⟩ .nil
  · rw [run_ask_found hfind]
    refine ⟨h.clean, h.taken, h.placed, h.apart, ?_⟩
    rw [Call.firsts_snoc_ask, if_pos]
    · exact h.first
    · by_contra hnot
      rw [hmem.mpr hnot] at hfind
      cases hfind

/-- From a start to the end, whatever is asked. -/
theorem after {names : Names} (h : names.Clean []) (calls : List Call)
    (hcalls : ∀ call ∈ calls, call ≠ .names .reset) :
    Shelf.Kept calls (Call.after { helpers := [], names } calls) := by
  induction calls using List.reverseRecOn with
  | nil => exact start h
  | append_singleton calls call ih =>
    obtain ⟨hbefore, hcall⟩ := List.forall_mem_append.mp hcalls
    have hkept := ih hbefore
    rw [Call.after_snoc]
    cases call with
    | ask desired lines stable => exact hkept.ask desired lines stable
    | names call =>
      apply hkept.names
      rintro rfl
      exact hcall _ List.mem_cons_self rfl

theorem find?_of_mem (h : s.Kept calls) {helper : Helper} (hhelper : helper ∈ s.helpers)
    {desired : String} (hdesired : helper.desired = .str desired) :
    s.helpers.find? (.str desired) = some helper := by
  have hnames : s.helpers.map (·.desired) = ((Call.firsts calls).map (·.1)).map .str := by
    rw [← List.forall₂_eq_eq_eq, List.map_map, List.forall₂_map_left_iff,
      List.forall₂_map_right_iff]
    exact (h.first.imp fun _ _ hdefined => hdefined.desired).flip
  have hnodup : (s.helpers.map (·.desired)).Nodup := by
    rw [hnames]
    exact (Call.nodup_firsts calls).map fun _ _ heq => by cases heq; rfl
  rcases hfind : s.helpers.find? (.str desired) with _ | found
  · obtain ⟨first, hfirst, hdefined⟩ := h.exists_first hhelper
    rw [hdefined.desired] at hdesired
    cases hdesired
    exact absurd (List.mem_map_of_mem hfirst) ((h.find?_none_iff _).mp hfind)
  · obtain ⟨hmem, hsame⟩ := find?_spec hfind
    rw [Value.same_text_iff] at hsame
    rw [List.inj_on_of_nodup_map hnodup hmem hhelper (by rw [hsame, hdesired])]

end Shelf.Kept

/-! ## The bodies -/

/-- The code is the lines, with the identifier in every place of the placeholder. -/
def Defines (identifier : String) (lines : List String) (code : String) : Prop :=
  ∃ shown, List.Forall₂ (fun line text =>
      Replaced placeholder.toList identifier.toList line.toList text.toList) lines shown ∧
    code = joinLines shown

/-- No brace is opened in the lines but that of a placeholder. -/
def OnlyPlaceholders (lines : List String) : Prop :=
  ∀ front rest, (joinLines lines).toList = front ++ '\x7b' :: rest →
    placeholder.toList <+: '\x7b' :: rest

theorem onlyPlaceholders_iff (lines : List String) :
    OnlyPlaceholders lines ↔ ∀ tail ∈ (joinLines lines).toList.tails,
      '\x7b' ∈ tail.head? → placeholder.toList <+: tail := by
  constructor
  · intro h tail htail hhead
    obtain ⟨front, heq⟩ := (List.mem_tails _ _).mp htail
    obtain ⟨rest, rfl⟩ := List.head?_eq_some_iff.mp hhead
    exact h front rest heq.symm
  · intro h front rest heq
    apply h
    · rw [List.mem_tails]
      exact ⟨front, heq.symm⟩
    · rfl

instance (lines : List String) : Decidable (OnlyPlaceholders lines) :=
  decidable_of_iff _ (onlyPlaceholders_iff lines).symm

theorem placeholder_ne_nil : placeholder.toList ≠ [] := by decide

theorem placeholder_line : '\n' ∉ placeholder.toList := by decide

theorem defines_body (identifier : String) (lines : List String) :
    Defines identifier lines (body identifier lines) := by
  refine ⟨lines.map (replaceAll placeholder identifier), ?_, ?_⟩
  · rw [List.forall₂_map_right_iff, List.forall₂_same]
    intro line _
    rw [replaced_iff placeholder_ne_nil]
  · exact replaceAll_joinLines placeholder_ne_nil placeholder_line identifier lines

/-- An identifier brings no brace into a body. -/
theorem not_within_body {identifier : String} (h : Shaped identifier) {lines : List String}
    (hlines : OnlyPlaceholders lines) : ¬ Within placeholder (body identifier lines) := by
  have hbrace : '\x7b' ∉ identifier.toList := by
    intro hmem
    have hword := h.word _ hmem
    rw [isWord_ascii (by decide)] at hword
    revert hword
    decide
  have hreplaced := (replaced_iff placeholder_ne_nil identifier _ _).mpr
    (rfl : body identifier lines = _)
  intro hwithin
  apply hreplaced.not_mem hbrace hlines
  exact hwithin.subset (by decide)

/-! ## The law of helpers -/

/-- The identifier that a name has among the helpers. -/
def identifierOf (helpers : Helpers) (desired : String) : String :=
  ((helpers.find? (.str desired)).map (·.identifier)).getD ""

theorem identifierOf_eq {helpers : Helpers} {desired : String} {helper : Helper}
    (h : helpers.find? (.str desired) = some helper) :
    identifierOf helpers desired = helper.identifier := by
  unfold identifierOf
  rw [h]
  rfl

namespace Shelf.Kept

variable {calls : List Call} {s : Shelf}

theorem found (h : s.Kept calls) {desired : String}
    (hmem : desired ∈ (Call.firsts calls).map (·.1)) :
    ∃ helper ∈ s.helpers, s.helpers.find? (.str desired) = some helper ∧
      identifierOf s.helpers desired = helper.identifier := by
  rcases hfind : s.helpers.find? (.str desired) with _ | helper
  · exact absurd hmem ((h.find?_none_iff desired).mp hfind)
  · exact ⟨helper, (find?_spec hfind).1, rfl, identifierOf_eq hfind⟩

/-- Two helpers never have one identifier. -/
theorem identifierOf_apart (h : s.Kept calls) {one other : String}
    (hone : one ∈ (Call.firsts calls).map (·.1)) (hother : other ∈ (Call.firsts calls).map (·.1))
    (heq : identifierOf s.helpers one = identifierOf s.helpers other) : one = other := by
  obtain ⟨helper, hhelper, hfind, hid⟩ := h.found hone
  obtain ⟨helper', hhelper', hfind', hid'⟩ := h.found hother
  have hnodup : (s.helpers.map (·.identifier)).Nodup := List.pairwise_map.mpr h.apart
  have hsame : helper = helper' := by
    apply List.inj_on_of_nodup_map hnodup hhelper hhelper'
    rw [← hid, ← hid', heq]
  have hdesired := (Value.same_text_iff _ _).mp (find?_spec hfind).2
  have hdesired' := (Value.same_text_iff _ _).mp (find?_spec hfind').2
  rw [← hsame] at hdesired'
  exact Value.str_unique hdesired hdesired'

theorem definitions (h : s.Kept calls) :
    List.Forall₂ (fun first code => Defines (identifierOf s.helpers first.1) first.2 code ∧
        (OnlyPlaceholders first.2 → ¬ Within placeholder code))
      (Call.firsts calls) s.helpers.definitions := by
  unfold Helpers.definitions
  rw [List.forall₂_map_right_iff, List.forall₂_iff_get]
  refine ⟨h.first.length_eq, ?_⟩
  intro n hn hn'
  have hdefined := h.first.get hn hn'
  have hmem := List.get_mem s.helpers ⟨n, hn'⟩
  have hid := identifierOf_eq (h.find?_of_mem hmem hdefined.desired)
  rw [hid, hdefined.code]
  refine ⟨defines_body _ _, ?_⟩
  apply not_within_body
  exact h.clean.shaped _ (h.taken _ hmem)

end Shelf.Kept

/-- Helpers are asked for on new shelves, with any mix of stable and other identifiers, and
the names are asked for anything in between but to forget. Every request for one name has
one answer, and none but the first changes anything. Names that are not the same, in case
at least, have identifiers that are not. There is one definition for each name, in the order
of the first requests: the lines of the first request, with the identifier in every place of the
placeholder. -/
theorem helpers_defined_once (past : List Names.Call) (calls : List Call)
    (hcalls : ∀ call ∈ calls, call ≠ .names .reset) {start last : Shelf}
    (hstart : start = { helpers := [], names := Names.Call.after {} past })
    (hlast : Call.after start calls = last) :
    (∀ desired lines stable answer,
      (.ask desired lines stable, answer) ∈ Call.answers start calls →
        answer = .ok (some (identifierOf last.helpers desired))) ∧
    (∀ before desired lines stable rest, calls = before ++ .ask desired lines stable :: rest →
      desired ∈ (Call.firsts before).map (·.1) →
        (Call.ask desired lines stable).run (Call.after start before) =
          (.ok (some (identifierOf last.helpers desired)), Call.after start before)) ∧
    (∀ one ∈ (Call.firsts calls).map (·.1), ∀ other ∈ (Call.firsts calls).map (·.1),
      identifierOf last.helpers one = identifierOf last.helpers other → one = other) ∧
    ((Call.firsts calls).map (·.1)).Nodup ∧
    List.Forall₂ (fun first code => Defines (identifierOf last.helpers first.1) first.2 code ∧
        (OnlyPlaceholders first.2 → ¬ Within placeholder code))
      (Call.firsts calls) last.helpers.definitions := by
  have hclean : (Names.Call.after {} past).Clean [] :=
    Names.Call.clean_after (Names.clean_empty []) past
  have hkept : last.Kept calls := by
    rw [← hlast, hstart]
    exact Shelf.Kept.after hclean calls hcalls
  refine ⟨?_, ?_, ?_, Call.nodup_firsts calls, hkept.definitions⟩
  · intro desired lines stable answer hanswer
    obtain ⟨helper, rfl, hfind⟩ := found_of_answer hanswer
    rw [hlast] at hfind
    rw [identifierOf_eq hfind]
  · rintro before desired lines stable rest rfl hmem
    have hbefore : (Call.after start before).Kept before := by
      rw [hstart]
      apply Shelf.Kept.after hclean
      intro call hcall
      exact hcalls call (List.mem_append_left _ hcall)
    obtain ⟨helper, -, hfind, -⟩ := hbefore.found hmem
    have hfound := found_after hfind (.ask desired lines stable :: rest)
    rw [← Call.after_append, hlast] at hfound
    rw [run_ask_found hfind, identifierOf_eq hfound]
  · exact fun one hone other hother => hkept.identifierOf_apart hone hother

/-- Two helpers in names that differ in case, and a third one whose identifier was given to its
name before. -/
def mixedCalls : List Call :=
  [.ask "prime" ["def \x7bleCUI8hutHZI4480Dc\x7d(n):", "  \x7bleCUI8hutHZI4480Dc\x7d(n)"] false,
    .names (.get (.str "twice") category true), .ask "Prime" ["Prime"] true,
    .ask "twice" ["\x7bleCUI8hutHZI4480Dc\x7d"] true]

def mixed : Shelf where
  helpers := [⟨.str "prime", "prime2", "def prime2(n):\n  prime2(n)"⟩,
    ⟨.str "Prime", "Prime", "Prime"⟩, ⟨.str "twice", "twice", "twice"⟩]
  names := {
    reserved := ["prime"]
    memo := [("Prime_generated_function", "Prime"), ("twice_generated_function", "twice")]
    taken := ["Prime", "twice", "prime2"] }

def bare : Shelf where
  helpers := []
  names := Names.Call.after {} [.reserve (.str "prime")]

theorem mixed_after : Call.after bare mixedCalls = mixed := by
  have hfresh : fresh = fun used base => firstFree used.contains base used.length 0 := by
    funext used base
    exact fresh_eq_firstFree used base
  unfold Call.after Call.run ask Names.Call.run Names.getFor Names.ownFor Names.take
  rw [hfresh]
  rfl

/-- The first helper keeps its identifier and its lines when it is asked for once more. -/
theorem mixed_defined_once :
    (∀ call ∈ mixedCalls ++ [.ask "prime" ["pass"] true], call ≠ .names .reset) ∧
      (Call.ask "prime" ["pass"] true).run mixed = (.ok (some "prime2"), mixed) ∧
      (identifierOf mixed.helpers "prime" = identifierOf mixed.helpers "Prime" →
        "prime" = "Prime") ∧
      Defines "prime2" ["def \x7bleCUI8hutHZI4480Dc\x7d(n):", "  \x7bleCUI8hutHZI4480Dc\x7d(n)"]
        "def prime2(n):\n  prime2(n)" ∧
      ¬ Within placeholder "def prime2(n):\n  prime2(n)" := by
  have hcalls : ∀ call ∈ mixedCalls ++ [.ask "prime" ["pass"] true], call ≠ .names .reset := by
    simp [mixedCalls]
  have hprime : mixed.helpers.find? (.str "prime") =
      some ⟨.str "prime", "prime2", "def prime2(n):\n  prime2(n)"⟩ := rfl
  have hlast : Call.after bare (mixedCalls ++ [.ask "prime" ["pass"] true]) = mixed := by
    rw [Call.after_snoc, mixed_after, run_ask_found hprime]
  have hid : identifierOf mixed.helpers "prime" = "prime2" := identifierOf_eq hprime
  obtain ⟨-, hlater, hapart, -, hdefined⟩ :=
    helpers_defined_once [.reserve (.str "prime")] _ hcalls (rfl : bare = _) hlast
  have hagain := hlater mixedCalls "prime" ["pass"] true [] rfl
  rw [mixed_after, hid] at hagain
  have hfirst := hdefined.get (i := 0) (by decide) (by decide)
  refine ⟨hcalls, hagain (by decide), ?_, hfirst.1, hfirst.2 (by decide +kernel)⟩
  apply hapart <;> decide

end Helpers
end BlockCode
