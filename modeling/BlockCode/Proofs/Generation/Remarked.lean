-- The comment lines in the code of a chain, and in a program. Whatever is done to code on its way
-- into the program, the comment lines before and in it stay, in their order; and nothing else
-- turns into one.
import BlockCode.Proofs.Generation.Hushed
import BlockCode.Proofs.Text.Remarked

namespace BlockCode

open BlockCode.Language
open BlockCode.Text (Ended Firm Inline Marks noted sayings)

/-! ## What work yields -/

/-- From good sessions, whatever the work comes to is of this kind, and the session is good
again. -/
def Yields {α : Type} (Good : Session → Prop) (Kind : α → Prop) (x : Action α) : Prop :=
  ∀ s a s', Good s → x s = (.ok a, s') → Good s' ∧ Kind a

namespace Yields

variable {α β : Type} {Good : Session → Prop} {Kind : α → Prop} {Kind' : β → Prop} {x : Action α}

theorem lift {result : Except Fault α} (h : ∀ a, result = .ok a → Kind a) :
    Yields Good Kind (Effect.lift result) := by
  intro s a s' hgood hrun
  obtain ⟨hresult, rfl⟩ := Effect.lift_ok_iff.mp hrun
  exact ⟨hgood, h a hresult⟩

theorem pure {a : α} (h : Kind a) : Yields Good Kind (Pure.pure a : Action α) := by
  intro s b s' hgood hrun
  cases hrun
  exact ⟨hgood, h⟩

theorem bind (hx : Yields Good Kind x) {f : α → Action β}
    (hf : ∀ a, Kind a → Yields Good Kind' (f a)) : Yields Good Kind' (x >>= f) := by
  intro s b s' hgood hrun
  obtain ⟨a, between, ha, hb⟩ := Effect.bind_ok_iff.mp hrun
  obtain ⟨hbetween, hkind⟩ := hx s a between hgood ha
  exact hf a hkind between b s' hbetween hb

end Yields

namespace Script

variable {α β : Type}

/-- A fault ends the script, and given such answers it comes to nothing but results of this
kind. -/
def Makes (Given : Request → String → Prop) (Kind : α → Prop) : Script α → Prop
  | done result => ∀ a, result = .ok a → Kind a
  | ask r next => (∀ fault, next (.error fault) = done (.error fault)) ∧
    ∀ text, Given r text → (next (.ok text)).Makes Given Kind

namespace Makes

variable {Given : Request → String → Prop} {Kind : α → Prop} {Kind' : β → Prop}

theorem pure {a : α} (h : Kind a) : (Pure.pure a : Script α).Makes Given Kind := by
  intro b hb
  cases hb
  exact h

theorem request (r : Request) : (Script.request r).Makes Given (Given r) := by
  refine ⟨fun fault => rfl, fun text htext => ?_⟩
  intro a ha
  cases ha
  exact htext

theorem bind {x : Script α} {f : α → Script β} (hx : x.Makes Given Kind)
    (hf : ∀ a, Kind a → (f a).Makes Given Kind') : (x >>= f).Makes Given Kind' := by
  induction x with
  | done result =>
    rcases result with fault | a
    · intro b hb
      cases hb
    · exact hf a (hx a rfl)
  | ask r next ih =>
    refine ⟨fun fault => ?_, fun text htext => ih _ (hx.2 text htext)⟩
    show (next (.error fault)).bind f = _
    rw [hx.1 fault]
    rfl

theorem mono {x : Script α} {Weaker : α → Prop} (hx : x.Makes Given Kind)
    (h : ∀ a, Kind a → Weaker a) : x.Makes Given Weaker := by
  induction x with
  | done result => exact fun a ha => h a (hx a ha)
  | ask r next ih => exact ⟨hx.1, fun text htext => ih _ (hx.2 text htext)⟩

/-- A script yields what it makes of the answers that it gets. -/
theorem perform {Good : Session → Prop} {may : Request → Prop} {answer : Request → Action String}
    (hanswer : ∀ r, may r → Yields Good (Given r) (answer r)) {x : Script α}
    (hx : x.Makes Given Kind) (hasks : x.Asks may) : Yields Good Kind (Language.perform answer x) := by
  induction x with
  | done result => exact Yields.lift hx
  | ask r next ih =>
    intro s a s' hgood hrun
    obtain ⟨text, between, hfirst, hrun⟩ := answered_of_perform hx.1 hrun
    obtain ⟨hbetween, hgiven⟩ := hanswer r hasks.1 s text between hgood hfirst
    exact ih (.ok text) (hx.2 text hgiven) (hasks.2 _) between a s' hbetween hrun

end Makes

end Script

/-- What an enabled block yields: its rule makes something, its comments stand before that, and what
the chain behind it yields comes after it. -/
theorem Language.codeOf_yields {L : Language} {nested : Workspace → Action String} {b : Block}
    {inputs : Inputs} {next : Chain} {alone : Bool} {Good : Session → Prop}
    {P : RuleResult → Prop} {Q K : Code → Prop} (henabled : b.isDisabled = false)
    (hcounted : ∀ s, Good s → Good s.counted)
    (hrule : ∀ rule, L.ruleFor b.type = .ok (some rule) →
      Yields Good P (perform (L.answer nested b (L.plugs nested inputs)) (rule b inputs)))
    (hnext : Yields Good Q (L.codeOf nested false next))
    (hmade : ∀ result before behind code after s', P result →
      L.remarks alone b (L.plugs nested inputs) = .ok before → Q (.statements behind) →
      L.codeOf nested false next after = (.ok (.statements behind), s') →
      result.between before behind = some code → K code) :
    Yields Good K (L.codeOf nested alone (.cons b inputs next)) := by
  intro s code s' hgood hrun
  obtain ⟨rule, result, after, before, behind, hfor, hresult, hbefore, hchain, hcode⟩ :=
    (codeOf_iff henabled).mp hrun
  obtain ⟨hafter, hwritten⟩ := hrule rule hfor s.counted result after (hcounted s hgood) hresult
  obtain ⟨hlast, hbehind⟩ := hnext after _ s' hafter hchain
  exact ⟨hlast, hmade result before behind code after s' hwritten hbefore hbehind hchain hcode⟩

/-! ## What comments say -/

/-- The lines of the comment of a block as they show in a program. -/
def Block.sayings (b : Block) : List (List Char) :=
  match b.comment with
  | .str comment => Text.sayings comment
  | .torn comment => Text.sayings comment.text
  | _ => []

/-- The lines of all comments below the inputs for values, in the order of the inputs. -/
def Inputs.sayings (inputs : Inputs) : List (List Char) :=
  (inputs.targets .value).flatMap fun target => target.blocks.flatMap Block.sayings

theorem Block.sayings_eq {b : Block} {text : String} (h : b.commentOf = .ok text) :
    Text.sayings text = b.sayings := by
  unfold Block.commentOf Block.commentText at h
  unfold Block.sayings
  by_cases htruth : b.comment.truth = true
  · rw [if_pos htruth] at h
    split at h
    · rename_i hnull
      rw [hnull] at htruth
      cases htruth
    · rename_i s hs
      cases h
      rw [hs]
    · rename_i t ht
      cases h
      rw [ht]
    · cases h
  · rw [if_neg htruth] at h
    cases h
    split
    · rename_i s hs
      rw [hs] at htruth
      have hempty : s = "" := by simpa [Value.truth] using htruth
      rw [hempty]
    · rename_i t ht
      rw [ht] at htruth
      exact absurd rfl htruth
    · rfl

theorem sayings_said {blocks : List Block} {text : String} (h : said blocks = .ok text) :
    sayings text = blocks.flatMap Block.sayings := by
  induction blocks generalizing text with
  | nil =>
    cases h
    rfl
  | cons b rest ih =>
    rw [said_cons] at h
    rcases hown : b.commentOf with fault | own
    · rw [hown] at h
      cases h
    · rcases hothers : said rest with fault | others
      · rw [hown, hothers] at h
        cases h
      · rw [hown, hothers] at h
        cases h
        rw [List.flatMap_cons, ← Block.sayings_eq hown, ← ih hothers]
        split
        · rename_i hnone
          rw [beq_iff_eq.mp hnone, String.empty_append]
          rfl
        · exact Text.gather_append own others

section Remarks

variable {L : Language} {nested : Workspace → Action String} {b : Block} {inputs : Inputs}
  {text : String}

theorem noted_ownComment (hmarker : L.config.commentMarker = .str "# ")
    (h : L.ownComment b = .ok text) : noted text = b.sayings := by
  unfold ownComment at h
  rcases hcomment : b.commentOf with fault | comment
  · rw [hcomment] at h
    cases h
  · rw [hcomment] at h
    rw [← Block.sayings_eq hcomment]
    change (if comment == "" then .ok "" else L.config.comment comment) = Except.ok text at h
    split at h
    · rename_i hnone
      cases h
      rw [beq_iff_eq.mp hnone]
      rfl
    · unfold Config.comment at h
      rw [hmarker] at h
      cases h
      exact Text.noted_commentLines comment

theorem noted_commentOn (hmarker : L.config.commentMarker = .str "# ") {c : Chain}
    (h : L.commentOn c = .ok text) :
    Ended text ∧ noted text = c.blocks.flatMap Block.sayings := by
  unfold commentOn at h
  rcases hcomments : c.comments with fault | comments
  · rw [hcomments] at h
    cases h
  · rw [hcomments] at h
    have hsaid := sayings_said ((comments_eq c).symm.trans hcomments)
    change (if comments == "" then .ok "" else L.config.marked comments) = Except.ok text at h
    split at h
    · rename_i hnone
      cases h
      rw [beq_iff_eq.mp hnone] at hsaid
      exact ⟨Ended.empty, hsaid⟩
    · rename_i hne
      unfold Config.marked at h
      rw [hmarker] at h
      cases h
      refine ⟨Text.ended_leadLines (ended_comments hcomments) (by simpa using hne), ?_⟩
      exact (Text.noted_marked comments).trans hsaid

theorem noted_targets (hmarker : L.config.commentMarker = .str "# ") {targets : List Chain}
    {texts : List String} (h : targets.mapM L.commentOn = .ok texts) :
    noted (String.join texts) = targets.flatMap fun target => target.blocks.flatMap Block.sayings := by
  induction targets generalizing texts with
  | nil =>
    cases h
    rfl
  | cons target rest ih =>
    rw [List.mapM_cons] at h
    rcases hfirst : L.commentOn target with fault | first
    · rw [hfirst] at h
      cases h
    · rcases hothers : rest.mapM L.commentOn with fault | others
      · rw [hfirst, hothers] at h
        cases h
      · rw [hfirst, hothers] at h
        cases h
        obtain ⟨hended, hnoted⟩ := noted_commentOn hmarker hfirst
        rw [String.join_cons, hended.noted, hnoted, ih hothers, List.flatMap_cons]

/-- Before the code of a block stand the lines of its comment, and of those below its inputs for
values, if any comments are written there. -/
theorem noted_remarks (hmarker : L.config.commentMarker = .str "# ") {alone : Bool}
    (h : L.remarks alone b (L.plugs nested inputs) = .ok text) :
    Ended text ∧
      noted text = if !b.givesValue || alone then b.sayings ++ inputs.sayings else [] := by
  refine ⟨ended_remarks h, ?_⟩
  unfold remarks at h
  split at h <;> rename_i hcommented
  · rw [commentsBefore_eq] at h
    rcases hown : L.ownComment b with fault | own
    · rw [hown] at h
      cases h
    · rcases hothers : (inputs.targets .value).mapM L.commentOn with fault | others
      · rw [hown, hothers] at h
        cases h
      · rw [hown, hothers] at h
        cases h
        have hended : Ended own := by
          rcases ownComment_cases hown with rfl | ⟨_, _, _, rfl⟩
          · exact Ended.empty
          · exact Ended.newline _
        rw [hended.noted, noted_ownComment hmarker hown]
        rw [noted_targets hmarker hothers, if_pos hcommented]
        rfl
  · cases h
    rw [if_neg hcommented]
    rfl

end Remarks

/-! ## Code with its comment lines -/

/-- The code of a chain, with these comment lines. Statements have ended, and what gives a value
never has them for its code; an expression is one line, unless it stands alone and has its comments
before it. -/
inductive Remarked (alone gives : Bool) (told : List (List Char)) : Code → Prop
  | nothing : told = [] → Remarked alone gives told (.statements "")
  | statements {text : String} : gives = false → Lined text → noted text = told →
    Remarked alone gives told (.statements text)
  | expression {text : String} {order : Value} : Firm text → noted text = told →
    (alone = false → Inline text) → Remarked alone gives told (.expression text order)

/-- Statements in an input, with these comment lines. -/
def Bodied (told : List (List Char)) (text : String) : Prop :=
  text = "" ∧ told = [] ∨ Lined text ∧ noted text = told

/-- A section of a program, with these comment lines. -/
structure Sectioned (told : List (List Char)) (sections : List String) : Prop where
  firm : ∀ text ∈ sections, Firm (Text.dropNewline text)
  noted : sections.flatMap Text.noted = told

namespace Remarked

variable {L : Language} {alone gives : Bool} {told : List (List Char)} {code : Code} {text : String}

theorem behind {gives' : Bool} (h : Remarked false gives' told code) :
    Remarked alone false told code := by
  cases h with
  | nothing hnone => exact .nothing hnone
  | statements _ hlined hnoted => exact .statements rfl hlined hnoted
  | expression hfirm hnoted hinline => exact .expression hfirm hnoted fun _ => hinline rfl

theorem given {outer : Value} (h : Remarked false gives told code)
    (hgives : L.Gives outer code text) : text = "" ∨ Inline text := by
  cases hgives with
  | nothing => exact Or.inl rfl
  | @expression made inner hinner =>
    cases h with
    | expression _ _ hinline =>
      right
      unfold bracketed
      split
      · exact ((by decide : Inline "(").append (hinline rfl)).before (by decide) (by decide)
      · exact hinline rfl

theorem nest {indent made : String} (h : Remarked false gives told (.statements made))
    (hindent : L.config.indent = .str indent) (hgaps : ∀ c ∈ indent.toList, Text.isGap c = true)
    (hnest : L.nest made = .ok text) : Bodied told text := by
  cases h with
  | nothing hnone =>
    cases hnest
    exact Or.inl ⟨rfl, hnone⟩
  | statements _ hlined hnoted =>
    obtain rfl := (nest_statements hindent hlined.ne_empty).mp hnest
    exact Or.inr ⟨hlined.leadLines indent, (Text.noted_indented hgaps made).trans hnoted⟩

theorem sectioned (hstanding : ∀ line, L.standing line = .ok (line ++ "\n")) {top : Chain}
    (h : Remarked true (top.head?.any (·.givesValue)) told code) {made : Option String}
    (hmade : L.sectionOf top code.text = .ok made) : Sectioned told made.toList := by
  have hone : ∀ {text : String}, Firm (Text.dropNewline text) → noted text = told →
      Sectioned told [text] :=
    fun hfirm hnoted => ⟨List.forall_mem_singleton.mpr hfirm, by simpa using hnoted⟩
  unfold sectionOf at hmade
  cases h with
  | nothing hnone =>
    cases hmade
    exact ⟨List.forall_mem_nil _, hnone.symm⟩
  | statements hgives hlined hnoted =>
    simp only [Code.text, beq_false_of_ne hlined.ne_empty, hgives, Bool.false_eq_true,
      if_false] at hmade
    cases hmade
    obtain ⟨line, hfirm, rfl⟩ := hlined
    refine hone ?_ hnoted
    rwa [Text.dropNewline_newline]
  | expression hfirm hnoted hinline =>
    simp only [Code.text, beq_false_of_ne hfirm.ne_empty, Bool.false_eq_true, if_false,
      hstanding] at hmade
    split at hmade
    · cases hmade
      refine hone ?_ ((Text.noted_newline _).trans hnoted)
      rwa [Text.dropNewline_newline]
    · cases hmade
      refine hone ?_ hnoted
      rwa [Text.dropNewline_firm hfirm]

end Remarked

namespace Sectioned

variable {told told' : List (List Char)} {texts texts' : List String}

theorem nil : Sectioned [] [] := ⟨List.forall_mem_nil _, rfl⟩

theorem append (h : Sectioned told texts) (h' : Sectioned told' texts') :
    Sectioned (told ++ told') (texts ++ texts') :=
  ⟨List.forall_mem_append.mpr ⟨h.firm, h'.firm⟩, by rw [List.flatMap_append, h.noted, h'.noted]⟩

end Sectioned

/-! ## Programs with their comment lines -/

/-- A definition ends in something, and shows no comment lines. -/
structure Plainly (text : String) : Prop where
  firm : Firm text
  noted : Text.noted text = []

section Programs

variable {α : Type} {read : List Char → Option α}

theorem gather_definitions (hnone : read [] = none) (definitions : List String) :
    Text.gather read ("\n\n".intercalate definitions) =
      definitions.flatMap (Text.gather read) := by
  induction definitions with
  | nil => exact Text.gather_empty hnone
  | cons first rest ih =>
    rcases rest with _ | ⟨next, more⟩
    · rw [String.intercalate_singleton, List.flatMap_singleton]
    · have hended : Ended (first ++ "\n\n") := Or.inr ⟨first ++ "\n", by
        rw [String.append_assoc]
        rfl⟩
      have hfirst : Text.gather read (first ++ "\n\n") = Text.gather read first := by
        show Text.gather read (first ++ ("\n" ++ "\n")) = _
        rw [← String.append_assoc, Text.gather_newline hnone, Text.gather_newline hnone]
      rw [String.intercalate_cons_of_ne_nil (List.cons_ne_nil _ _), hended.gather hnone, hfirst, ih]
      rfl

/-- Sections under definitions, when nothing is lost of either in the end. -/
theorem gather_under {kept : List Char → Option α} (hkept : kept [] = none)
    (hclean : ∀ {text}, Firm text → Text.gather read (Text.clean text) = Text.gather kept text)
    {before : String} (hbefore : Firm before) {texts : List String}
    (htexts : ∀ text ∈ texts, Firm (Text.dropNewline text)) :
    Text.gather read (Text.clean (before ++ "\n\n\n" ++ joinSections texts)) =
      Text.gather kept before ++ Text.gather kept (joinSections texts) := by
  have hnewlines : before ++ "\n\n\n" = before ++ "\n" ++ "\n" ++ "\n" := by
    rw [String.append_assoc, String.append_assoc]
    rfl
  rw [hnewlines]
  by_cases hsome : texts = []
  · -- Without sections the definitions come last, and the newlines behind them go.
    have hnone : joinSections texts = "" := by
      rw [hsome]
      rfl
    rw [hnone, String.append_empty, Text.clean_newline, Text.clean_newline, Text.clean_newline,
      hclean hbefore, Text.gather_empty hkept, List.append_nil]
  · rw [hclean ((firm_joinSections hsome htexts).behind _), (Ended.newline _).gather hkept,
      Text.gather_newline hkept, Text.gather_newline hkept, Text.gather_newline hkept]

/-- On the lines of a program there is what is on those of its definitions, and then what is on
those of its sections. -/
theorem gather_program (hnone : read [] = none)
    (hblank : ∀ line, (∀ c ∈ line, Text.isGap c = true) → read (Text.trimmed line) = none)
    {s : Session} (hhelpers : ∀ helper ∈ s.pass.helpers, Firm helper.code) {texts : List String}
    (htexts : ∀ text ∈ texts, Firm (Text.dropNewline text)) :
    Text.gather read (Text.clean (s.withDefinitions (joinSections texts))) =
      (s.pass.helpers.flatMap fun helper =>
        Text.gather (fun line => read (Text.trimmed line)) helper.code) ++
      texts.flatMap (Text.gather fun line => read (Text.trimmed line)) := by
  have hdefinitions : ∀ text ∈ s.pass.helpers.definitions, Firm text := by
    unfold Helpers.definitions
    exact List.forall_mem_map.mpr hhelpers
  have hhelped : (s.pass.helpers.flatMap fun helper =>
      Text.gather (fun line => read (Text.trimmed line)) helper.code) =
        s.pass.helpers.definitions.flatMap (Text.gather fun line => read (Text.trimmed line)) := by
    unfold Helpers.definitions
    rw [List.flatMap_map]
  have hclean : ∀ {text}, Firm text → Text.gather read (Text.clean text) =
      Text.gather (fun line => read (Text.trimmed line)) text := Text.gather_clean hnone hblank
  rw [hhelped]
  -- Nothing is read from an empty line when it is trimmed.
  have hkept : (fun line => read (Text.trimmed line)) [] = none := hnone
  generalize (fun line => read (Text.trimmed line)) = kept at hkept hclean ⊢
  rw [← gather_joinSections hkept texts]
  unfold Session.withDefinitions
  generalize s.pass.helpers.definitions = definitions at hdefinitions ⊢
  rcases definitions with _ | ⟨first, others⟩
  · by_cases hsome : texts = []
    · subst hsome
      exact (Text.gather_empty hnone).trans (Text.gather_empty hkept).symm
    · exact hclean (firm_joinSections hsome htexts)
  · rw [← gather_definitions hkept (first :: others)]
    exact gather_under hkept hclean (Text.firm_intercalate "\n\n" (List.cons_ne_nil first others)
      hdefinitions) htexts

end Programs

theorem remarks_program {s : Session} (hplainly : ∀ helper ∈ s.pass.helpers, Plainly helper.code)
    {told : List (List Char)} {texts : List String} (h : Sectioned told texts) :
    Text.remarks (Text.clean (s.withDefinitions (joinSections texts))) = told := by
  have hprogram := gather_program rfl Text.remark?_blank
    (fun helper hhelper => (hplainly helper hhelper).firm) h.firm
  have hnone : (s.pass.helpers.flatMap fun helper => noted helper.code) = [] :=
    List.flatMap_eq_nil_iff.mpr fun helper hhelper => (hplainly helper hhelper).noted
  exact hprogram.trans (by rw [← h.noted]; exact congrArg (· ++ _) hnone)

namespace Language

variable {L : Language} {nested : Workspace → Action String} {Good : Session → Prop}
  {told : Chain → List (List Char)}

/-- What the sections of single top blocks are, the sections of all of them are together. -/
theorem written_yields {P : Chain → List String → Prop} {Q : List Chain → List String → Prop}
    (hnil : Q [] []) (hcons : ∀ top rest made texts, P top made → Q rest texts →
      Q (top :: rest) (made ++ texts)) {tops : List Chain}
    (h : ∀ top ∈ tops, Yields Good (fun made => P top made.toList) (L.section? nested top)) :
    Yields Good (Q tops) (L.written nested tops) := by
  induction tops with
  | nil => exact Yields.pure hnil
  | cons top rest ih =>
    obtain ⟨htop, hrest⟩ := List.forall_mem_cons.mp h
    rw [written_cons]
    refine htop.bind fun made hmade => ?_
    exact (ih hrest).bind fun texts htexts => Yields.pure (hcons top rest _ texts hmade htexts)

/-- The sections of top blocks show the comment lines of their code, in the order of the blocks. -/
theorem written_sectioned (hstanding : ∀ line, L.standing line = .ok (line ++ "\n"))
    {tops : List Chain}
    (h : ∀ top ∈ tops, Yields Good (Remarked true (top.head?.any (·.givesValue)) (told top))
      (L.codeOf nested true top)) :
    Yields Good (Sectioned (tops.flatMap told)) (L.written nested tops) := by
  refine written_yields (P := fun top => Sectioned (told top))
    (Q := fun tops => Sectioned (tops.flatMap told)) Sectioned.nil
    (fun _ _ _ _ hmade htexts => hmade.append htexts) fun top htop => ?_
  rw [section_eq]
  exact (h top htop).bind fun code hcode => Yields.lift fun made hmade =>
    hcode.sectioned hstanding hmade

theorem remarks_pass (hstanding : ∀ line, L.standing line = .ok (line ++ "\n")) {w : Workspace}
    {s : Session} (hidle : s.running = false) (hgood : Good (L.opened w s))
    (h : ∀ top ∈ w.trees, Yields Good (Remarked true (top.head?.any (·.givesValue)) (told top))
      (L.codeOf (fun _ => L.refuse) true top))
    (hplainly : ∀ helper ∈ (L.pass w s).2.pass.helpers, Plainly helper.code) {program : String}
    (hmade : (L.pass w s).1 = .ok program) : Text.remarks program = w.trees.flatMap told := by
  obtain ⟨texts, after, hwritten, rfl⟩ := (pass_ok_iff hidle).mp hmade
  obtain ⟨-, hsectioned⟩ := written_sectioned hstanding h _ _ _ hgood hwritten
  rw [pass_gathered hidle, hwritten] at hplainly
  exact remarks_program hplainly hsectioned

end Language
end BlockCode
