-- A pass that is repeated, when names last. Every name has the identifier that it had,
-- so the pass comes to the same again. Only identifiers of one's own are new each time:
-- a pass that asks for none of these can be repeated for ever.
import BlockCode.Proofs.Generation.Twins
import BlockCode.Proofs.Generation.Identifiers

namespace BlockCode

open BlockCode.Language

/-! ## Names that are asked again -/

namespace Names

variable {names last : Names} {name category : Value} {g : Granted}

theorem getFor_again {caseSensitive : Bool} (hg : names.getFor name category caseSensitive = .ok g)
    (hlast : g.names.Extends last) :
    last.getFor name category caseSensitive = .ok { identifier := g.identifier, names := last } := by
  obtain ⟨key, hkey, hknown⟩ := known_getFor hg
  unfold getFor
  rw [hkey]
  simp only [bind, Except.bind, hlast.known key _ hknown]
  rfl

/-- A name that is a text, or may be met in any case, fails for no other reason than that it
has no place. -/
theorem getFor_fails {caseSensitive : Bool} {fault : Fault}
    (hname : caseSensitive = false ∨ ∃ signs, name.spelling? = some signs)
    (hg : names.getFor name category caseSensitive = .error fault) :
    keyFor name category caseSensitive = .error fault := by
  rcases hkey : keyFor name category caseSensitive with other | key
  · unfold getFor at hg
    rw [hkey] at hg
    cases hg
    rfl
  · have htext : ∃ signs, name.spelling? = some signs := by
      rcases hname with rfl | htext
      · rcases hsigns : name.spelling? with _ | signs
        · unfold keyFor at hkey
          rw [hsigns] at hkey
          cases hkey
        · exact ⟨signs, rfl⟩
      · exact htext
    obtain ⟨signs, hsigns⟩ := htext
    have hcategory : ∃ word, spell category = .ok word := by
      rcases hword : spell category with other | word
      · unfold keyFor at hkey
        rw [hsigns, hword] at hkey
        cases hkey
      · exact ⟨word, rfl⟩
    obtain ⟨word, hword⟩ := hcategory
    obtain ⟨g, hok⟩ := getFor_text names hsigns hword caseSensitive
    rw [hg] at hok
    cases hok

/-- Whether there is an identifier for a name depends on the name alone. -/
theorem ownFor_fails {later : Names} {fault : Fault}
    (h : names.ownFor name category = .error fault) :
    later.ownFor name category = .error fault := by
  unfold ownFor at h ⊢
  rcases hbase : plainFor name with other | base
  · rw [hbase] at h
    exact h
  · rw [hbase] at h
    cases h

/-- An identifier of one's own has no place. So it was taken before, or the last names have
one that is at home nowhere. -/
theorem not_housed_of_ownFor {first : Names} (h : names.Sound)
    (hfirst : first.taken ⊆ names.taken) (hg : names.ownFor name category = .ok g)
    (hlast : g.names.Extends last) :
    ∃ identifier ∈ last.taken, identifier ∉ first.taken ∧
      ∀ key, last.known? key ≠ some identifier := by
  have htaken := taken_ownFor hg
  obtain ⟨base, -, hid, hnames⟩ := ownFor_ok hg
  have hnew := not_taken_of_fresh hid
  refine ⟨g.identifier, hlast.taken htaken, fun hold => hnew (hfirst hold), ?_⟩
  intro key hkey
  have hbefore := hlast.places key _ htaken hkey
  rw [hnames] at hbefore
  exact hnew (h.memo_taken key _ hbefore)

/-- Words that nobody gets need not be reserved again. -/
theorem reserve_of_bars {words : List String} (h : names.Bars words) :
    names.reserve words = names := by
  have hwords : words.foldl
      (fun all word => if word == "" || all.contains word then all else all ++ [word])
      names.reserved = names.reserved := by
    induction words with
    | nil => rfl
    | cons word rest ih =>
      have hskip : (word == "" || names.reserved.contains word) = true := by
        by_cases hempty : word = ""
        · simp [hempty]
        · simp [h word List.mem_cons_self hempty]
      rw [List.foldl_cons, if_pos hskip]
      exact ih fun other hother => h other (List.mem_cons_of_mem word hother)
  show { names with reserved := _ } = names
  rw [hwords]

end Names

theorem Helpers.ask_names (helpers : Helpers) (names : Names) (desired lines : Value)
    (stable : Bool) :
    (helpers.ask names desired lines stable).names = names ∨
      ∃ g, granted names desired stable = .ok g ∧
        (helpers.ask names desired lines stable).names = g.names := by
  have hasked : helpers.ask names desired lines stable = _ := rfl
  rcases ask_cases hasked with ⟨-, hn, -⟩ | ⟨-, hn, -⟩ | ⟨-, g, hg, hn, -⟩
  · exact Or.inl hn
  · exact Or.inl hn
  · exact Or.inr ⟨g, hg, hn⟩

theorem Helpers.extends_ask (helpers : Helpers) (names : Names) (desired lines : Value)
    (stable : Bool) : names.Extends (helpers.ask names desired lines stable).names := by
  rcases ask_names helpers names desired lines stable with hn | ⟨g, hg, hn⟩
  · rw [hn]
    exact Names.extends_refl names
  · rw [hn]
    exact extends_granted hg

theorem Helpers.sound_ask {names : Names} (h : names.Sound) (helpers : Helpers)
    (desired lines : Value) (stable : Bool) :
    (helpers.ask names desired lines stable).names.Sound := by
  rcases ask_names helpers names desired lines stable with hn | ⟨g, hg, hn⟩
  · rw [hn]
    exact h
  · rw [hn]
    cases stable
    · exact h.ownFor hg
    · exact h.getFor hg

/-- A helper whose name is a text is answered again as it was, once its identifier is kept. -/
theorem Helpers.ask_again {helpers : Helpers} {names last : Names} {desired lines : Value}
    {signs : Spelling} (hdesired : desired.spelling? = some signs)
    (hlast : (helpers.ask names desired lines true).names.Extends last) :
    (helpers.ask last desired lines true).outcome =
        (helpers.ask names desired lines true).outcome ∧
      (helpers.ask last desired lines true).helpers =
        (helpers.ask names desired lines true).helpers ∧
      (helpers.ask last desired lines true).names = last := by
  have hcategory : Names.spell category = .ok ↑"generated_function" := rfl
  obtain ⟨g, hg⟩ := Names.getFor_text names hdesired hcategory true
  unfold ask at hlast ⊢
  simp only [Value.isKey_of_spelling hdesired, Bool.not_true, Bool.false_eq_true, if_false, if_true,
    hg] at hlast ⊢
  rcases hfind : helpers.find? desired with _ | helper
  · simp only [hfind] at hlast
    rcases hlines : linesOf lines with fault | body
    · simp only [hlines] at hlast
      rw [Names.getFor_again hg hlast]
      exact ⟨rfl, rfl, rfl⟩
    · simp only [hlines] at hlast
      rw [Names.getFor_again hg hlast]
      exact ⟨rfl, rfl, rfl⟩
  · exact ⟨rfl, rfl, rfl⟩

/-! ## Two passes, one after the other -/

/-- The answer to the request can be kept, or there is nothing to keep. Nothing is asked
that later passes could see but for names, and these are names that cannot fail. -/
def Request.Lasting : Request → Prop
  | .identifier name _ caseSensitive => caseSensitive = false ∨ ∃ signs, name.spelling? = some signs
  | .helper desired _ => ∃ signs, desired.spelling? = some signs
  | .reserve _ => False
  | .pass _ => False
  | _ => True

/-- The request is for an identifier that nothing else has. -/
def Request.isOwn : Request → Bool
  | .ownIdentifier _ _ => true
  | _ => false

theorem Request.Lasting.reserves_not {r : Request} (h : r.Lasting) : r.reserves = false := by
  cases r with
  | reserve words => cases h
  | _ => rfl

/-- The second session is about to do what the first has begun to do. It has the names to
which the first will come. -/
structure Replays (first last : Names) (words : List String) (s t : Session) : Prop where
  sound : s.pass.names.Sound
  onward : first.taken ⊆ s.pass.names.taken
  pass : t.pass = { s.pass with names := last }
  reserved_left : s.reserved = words
  reserved_right : t.reserved = words

namespace Replays

variable {L : Language} {nested : Workspace → Action String} {first last : Names}
  {words : List String}

/-- The identifiers that were new in the first run have a place in the end. -/
def Housed (first last : Names) : Prop :=
  ∀ identifier ∈ last.taken,
    identifier ∈ first.taken ∨ ∃ key, last.known? key = some identifier

/-- Work that the names of the first session lead to the last ones. -/
abbrev Lasts {α : Type} (first last : Names) (words : List String) (x : Action α) : Prop :=
  Follows (fun s => s.pass.names.Extends last) (Replays first last words) x

theorem lasts_counted : Lasts first last words (Effect.change Session.counted : Action Unit) where
  before := fun _ hgood => hgood
  alike := by
    intro s t hst _
    exact ⟨rfl, hst.sound, hst.onward, congrArg PassState.counted hst.pass, hst.reserved_left,
      hst.reserved_right⟩

theorem lasts_identifier {name category : Value} {caseSensitive : Bool}
    (hname : caseSensitive = false ∨ ∃ signs, name.spelling? = some signs) :
    Lasts first last words (Session.identifier name category caseSensitive) where
  before := by
    intro s hgood
    rw [Session.identifier_apply] at hgood
    rcases hg : s.pass.names.getFor name category caseSensitive with fault | g
    · rw [hg] at hgood
      exact hgood
    · rw [hg] at hgood
      exact (Names.extends_getFor hg).trans hgood
  alike := by
    intro s t hst hgood
    have hnames : t.pass.names = last := by rw [hst.pass]
    rw [Session.identifier_apply] at hgood
    rw [Session.identifier_apply, Session.identifier_apply, hnames]
    rcases hg : s.pass.names.getFor name category caseSensitive with fault | g
    · have hkey := Names.getFor_fails hname hg
      have hagain : last.getFor name category caseSensitive = .error fault := by
        unfold Names.getFor
        rw [hkey]
        rfl
      rw [hagain]
      exact ⟨rfl, hst⟩
    · rw [hg] at hgood
      rw [Names.getFor_again hg hgood]
      refine ⟨rfl, hst.sound.getFor hg, ?_, ?_, hst.reserved_left, hst.reserved_right⟩
      · exact List.Subset.trans hst.onward (Names.extends_getFor hg).taken
      · show { t.pass with names := last, helpers := t.pass.helpers } = _
        rw [hst.pass]
        rfl

/-- When everything that was new has a place, no identifier of one's own was asked for. -/
theorem lasts_ownIdentifier (hhoused : Housed first last) (name category : Value) :
    Lasts first last words (Session.ownIdentifier name category) where
  before := by
    intro s hgood
    rw [Session.ownIdentifier_apply] at hgood
    rcases hg : s.pass.names.ownFor name category with fault | g
    · rw [hg] at hgood
      exact hgood
    · rw [hg] at hgood
      exact (Names.extends_ownFor hg).trans hgood
  alike := by
    intro s t hst hgood
    rw [Session.ownIdentifier_apply] at hgood
    rw [Session.ownIdentifier_apply, Session.ownIdentifier_apply]
    rcases hg : s.pass.names.ownFor name category with fault | g
    · rw [Names.ownFor_fails hg]
      exact ⟨rfl, hst⟩
    · rw [hg] at hgood
      obtain ⟨identifier, htaken, hnew, hnowhere⟩ :=
        Names.not_housed_of_ownFor hst.sound hst.onward hg hgood
      rcases hhoused identifier htaken with hold | ⟨key, hkey⟩
      · exact absurd hold hnew
      · exact absurd hkey (hnowhere key)

theorem lasts_helper (hstable : L.config.stableNames.truth = true) {desired : Value}
    {signs : Spelling} (hdesired : desired.spelling? = some signs) (lines : Value) :
    Lasts first last words (Session.helper L desired lines) where
  before := by
    intro s hgood
    rw [Session.helper_apply] at hgood
    exact (Helpers.extends_ask s.pass.helpers s.pass.names _ lines _).trans hgood
  alike := by
    intro s t hst hgood
    have hnames : t.pass.names = last := by rw [hst.pass]
    have hhelpers : t.pass.helpers = s.pass.helpers := by rw [hst.pass]
    rw [Session.helper_apply, hstable] at hgood
    obtain ⟨houtcome, hsame, hlast⟩ := Helpers.ask_again hdesired hgood
    rw [Session.helper_apply, Session.helper_apply, hstable, hnames, hhelpers]
    refine ⟨houtcome, Helpers.sound_ask hst.sound _ _ _ _, ?_, ?_, hst.reserved_left,
      hst.reserved_right⟩
    · exact List.Subset.trans hst.onward (Helpers.extends_ask _ _ _ _ _).taken
    · simp only [Session.renamed]
      rw [hst.pass, hsame, hlast]

theorem answer (hstable : L.config.stableNames.truth = true) (hhoused : Housed first last)
    (b : Block) (plugs : List Plug) (r : Request) (hr : r.Lasting) (ho : r.opensInput = false) :
    Lasts first last words (L.answer nested b plugs r) := by
  cases r with
  | value input order => cases ho
  | statements input => cases ho
  | comments input => exact Follows.lift _
  | identifier name category caseSensitive => exact lasts_identifier hr
  | ownIdentifier name category => exact lasts_ownIdentifier hhoused name category
  | helper desired lines =>
    obtain ⟨signs, hsigns⟩ := hr
    exact lasts_helper hstable hsigns lines
  | reserve more => cases hr
  | pass w => cases hr

theorem mirrors (hstable : L.config.stableNames.truth = true) (hrules : L.OnlyAsks Request.Lasting)
    (hhoused : Housed first last) :
    Mirrors L nested (fun _ r => r.Lasting) (fun s => s.pass.names.Extends last)
      (Replays first last words) where
  rules := hrules
  counted := lasts_counted
  named := fun b plugs r => answer hstable hhoused b plugs r

end Replays

/-! ## What is new in a pass -/

/-- Every identifier that is taken was so at first, has a place, or was asked for as
somebody's own. -/
def Accounted (first : Names) (E : List Served) (s : Session) : Prop :=
  ∀ identifier ∈ s.pass.names.taken, identifier ∈ first.taken ∨
    (∃ key, s.pass.names.known? key = some identifier) ∨
    ∃ e ∈ E, e.request.isOwn = true ∧ e.outcome = .ok identifier

namespace Accounted

variable {L : Language} {first : Names} {E : List Served} {s after : Session}

theorem more (h : Accounted first E s) (later : List Served) : Accounted first (E ++ later) s := by
  intro identifier htaken
  rcases h identifier htaken with hold | hknown | ⟨e, he, howned⟩
  · exact Or.inl hold
  · exact Or.inr (Or.inl hknown)
  · exact Or.inr (Or.inr ⟨e, List.mem_append_left later he, howned⟩)

theorem of_names (h : Accounted first E s) (hnames : after.pass.names = s.pass.names) :
    Accounted first E after := by
  unfold Accounted
  rw [hnames]
  exact h

theorem granted {name category : Value} {caseSensitive : Bool} {g : Names.Granted}
    (h : Accounted first E s)
    (hg : s.pass.names.getFor name category caseSensitive = .ok g)
    (hafter : after.pass.names = g.names) : Accounted first E after := by
  obtain ⟨key, -, hknown⟩ := Names.known_getFor hg
  have hext := Names.extends_getFor hg
  have htaken : ∀ identifier ∈ g.names.taken,
      identifier = g.identifier ∨ identifier ∈ s.pass.names.taken := by
    intro identifier hidentifier
    obtain ⟨place, -, ⟨-, hsame⟩ | ⟨-, base, -, -, hnames⟩⟩ := Names.getFor_ok hg
    · rw [hsame] at hidentifier
      exact Or.inr hidentifier
    · rw [hnames] at hidentifier
      exact List.mem_cons.mp hidentifier
  unfold Accounted
  rw [hafter]
  intro identifier hidentifier
  rcases htaken identifier hidentifier with rfl | hbefore
  · exact Or.inr (Or.inl ⟨key, hknown⟩)
  · rcases h identifier hbefore with hold | ⟨key', hknown'⟩ | howned
    · exact Or.inl hold
    · exact Or.inr (Or.inl ⟨key', hext.known key' identifier hknown'⟩)
    · exact Or.inr (Or.inr howned)

theorem owned {name category : Value} {g : Names.Granted} (h : Accounted first E s)
    (hg : s.pass.names.ownFor name category = .ok g) (hafter : after.pass.names = g.names)
    {e : Served} (he : e.request.isOwn = true) (hok : e.outcome = .ok g.identifier) :
    Accounted first (E ++ [e]) after := by
  obtain ⟨base, -, -, hnames⟩ := Names.ownFor_ok hg
  unfold Accounted
  rw [hafter, hnames]
  intro identifier hidentifier
  rcases List.mem_cons.mp hidentifier with rfl | hbefore
  · exact Or.inr (Or.inr ⟨e, List.mem_append_right E List.mem_cons_self, he, hok⟩)
  · exact h.more [e] identifier hbefore

theorem keeps (hstable : L.config.stableNames.truth = true) (first : Names) :
    Keeps L (fun _ => L.refuse) (fun _ _ => True) (Accounted first) where
  rules := fun _ _ _ _ => Script.asks_anything _
  counted := fun _ _ h => h
  told := fun _ _ _ _ h => h
  named := by
    intro E b inputs r s outcome after _ hr ha h
    cases r with
    | value input order => cases hr
    | statements input => cases hr
    | comments input =>
      cases ha
      exact h.more _
    | identifier name category caseSensitive =>
      rcases grant_cases ha with ⟨fault, -, -, rfl⟩ | ⟨g, hg, -, rfl⟩
      · exact h.more _
      · exact (h.granted hg rfl).more _
    | ownIdentifier name category =>
      rcases grant_cases ha with ⟨fault, -, -, rfl⟩ | ⟨g, hg, hok, rfl⟩
      · exact h.more _
      · exact h.owned hg rfl rfl hok
    | helper desired lines =>
      rcases helper_cases ha with ⟨-, hnames, -⟩ | ⟨-, g, hg, hnames, -⟩
      · exact (h.of_names hnames).more _
      · rw [hstable] at hg
        exact (h.granted hg hnames).more _
    | reserve words =>
      cases words <;> (cases ha; exact h.more _)
    | pass w =>
      cases ha
      exact h.more _
  opened := fun _ _ _ _ _ _ _ _ _ _ _ _ h => h.more _

end Accounted

/-! ## The pass again -/

namespace Language

variable {L : Language} {s : Session}

/-- The session after so many passes over one workspace. -/
def passesOver (L : Language) (w : Workspace) (s : Session) : Nat → Session
  | 0 => s
  | n + 1 => (L.pass w (L.passesOver w s n)).2

theorem unreserving_of_lasting (h : L.OnlyAsks Request.Lasting) : L.Unreserving :=
  fun b rule hrule inputs => (h b rule hrule inputs).imp fun _ => Request.Lasting.reserves_not

theorem begun_names (hstable : L.config.stableNames.truth = true) (s : Session) :
    (s.begun L).names = s.pass.names.reserve s.reserved := by
  unfold Session.begun
  rw [if_pos hstable]

/-- When nobody asked for an identifier of one's own, everything that is new has a place. -/
theorem housed_pass (hstable : L.config.stableNames.truth = true) (hs : s.running = false)
    {w : Workspace} (hnone : ∀ e ∈ L.passTrail w s, e.request.isOwn = false) :
    Replays.Housed (s.begun L).names (L.pass w s).2.pass.names := by
  intro identifier htaken
  have hbegun : Accounted (s.begun L).names [] (L.opened w s) := fun _ => Or.inl
  rcases (Accounted.keeps hstable (s.begun L).names).pass w s hs hbegun identifier htaken with
    hold | hknown | ⟨e, he, hown, -⟩
  · exact Or.inl hold
  · exact Or.inr hknown
  · rw [hnone e he] at hown
    cases hown

/-- A pass whose names have grown out of those of the last one begins with these names, when
the same words are reserved. -/
theorem begun_again (hstable : L.config.stableNames.truth = true) {t : Session}
    (hreserved : t.reserved = s.reserved) (hext : (s.begun L).names.Extends t.pass.names) :
    t.begun L = { names := t.pass.names } := by
  have hbars : t.pass.names.Bars s.reserved := by
    refine Names.Bars.of_extends ?_ hext
    rw [begun_names hstable]
    exact Names.bars_reserve _ (List.Subset.refl _)
  unfold Session.begun
  rw [if_pos hstable, hreserved]
  simp only [Names.reserve_of_bars hbars]

/-- When nobody asked for an identifier of one's own, the next pass comes to the same and
leaves the session as it finds it. -/
theorem pass_again (hstable : L.config.stableNames.truth = true)
    (hrules : L.OnlyAsks Request.Lasting) (hs : s.running = false) (hsound : s.pass.names.Sound)
    (w : Workspace) (hnone : ∀ e ∈ L.passTrail w s, e.request.isOwn = false) :
    (L.pass w (L.pass w s).2).1 = (L.pass w s).1 ∧
      Twin false s.reserved (L.pass w s).2 (L.pass w (L.pass w s).2).2 := by
  have hrests : Rests s.reserved s := ⟨hs, rfl⟩
  have hrests' := (Twin.pass_of_begun (unreserving_of_lasting hrules) hrests hrests rfl w).2.rests
  have hpass := (pass_session (L := L) w s hs).1
  have hhoused := housed_pass hstable hs hnone
  generalize (L.pass w s).2 = t at *
  have hmirrors : Mirrors L (fun _ => L.refuse) (fun _ r => r.Lasting)
      (fun later => later.pass.names.Extends t.pass.names)
      (Replays (s.begun L).names t.pass.names s.reserved) :=
    Replays.mirrors hstable hrules hhoused
  have hend : (L.sections w s).2.pass.names.Extends t.pass.names := by
    rw [← hpass]
    exact Names.extends_refl _
  have hext : (s.begun L).names.Extends t.pass.names :=
    (Follows.mapM hmirrors.section? w.trees).before (L.opened w s) hend
  have hopened : Replays (s.begun L).names t.pass.names s.reserved (L.opened w s)
      (L.opened w t) := by
    refine ⟨?_, List.Subset.refl _, begun_again hstable hrests'.reserved hext, rfl,
      hrests'.reserved⟩
    show (s.begun L).names.Sound
    rw [begun_names hstable]
    exact hsound.reserve s.reserved
  obtain ⟨hresult, hsections⟩ := hmirrors.pass (fun _ _ hst => by rw [hst.pass]) hs hrests'.idle
    w hopened hend
  obtain ⟨hpass', hreserved'⟩ := pass_session (L := L) w t hrests'.idle
  refine ⟨hresult, ?_, hrests'.idle, running_pass L w t hrests'.idle, hrests'.reserved,
    hreserved'.trans hsections.reserved_right⟩
  calc (L.pass w t).2.pass
      = (L.sections w t).2.pass := hpass'
    _ = { (L.sections w s).2.pass with names := t.pass.names } := hsections.pass
    _ = t.pass := by rw [← hpass]

/-- So it is with every pass after it. -/
theorem twin_passesOver (hstable : L.config.stableNames.truth = true)
    (hrules : L.OnlyAsks Request.Lasting) (hs : s.running = false) (hsound : s.pass.names.Sound)
    (w : Workspace) (hnone : ∀ e ∈ L.passTrail w s, e.request.isOwn = false) (n : Nat) :
    Twin false s.reserved (L.passesOver w s 1) (L.passesOver w s (n + 1)) := by
  have hagain := (pass_again hstable hrules hs hsound w hnone).2
  induction n with
  | zero => exact Twin.of_rests hagain.rests
  | succ n ih =>
    have hnext := Twin.pass_of_begun (unreserving_of_lasting hrules) ih.rests ih.rests_right ih.begun w
    exact hagain.trans hnext.2

/-- A pass that asks for no identifier of one's own can be repeated for ever. -/
theorem pass_passesOver (hstable : L.config.stableNames.truth = true)
    (hrules : L.OnlyAsks Request.Lasting) (hs : s.running = false) (hsound : s.pass.names.Sound)
    (w : Workspace) (hnone : ∀ e ∈ L.passTrail w s, e.request.isOwn = false) (n : Nat) :
    (L.pass w (L.passesOver w s n)).1 = (L.pass w s).1 := by
  cases n with
  | zero => rfl
  | succ n =>
    have htwin := twin_passesOver hstable hrules hs hsound w hnone n
    calc (L.pass w (L.passesOver w s (n + 1))).1
        = (L.pass w (L.pass w s).2).1 :=
          (Twin.pass_of_begun (unreserving_of_lasting hrules) htwin.rests htwin.rests_right
            htwin.begun w).1
      _ = (L.pass w s).1 := (pass_again hstable hrules hs hsound w hnone).1

end Language

end BlockCode
