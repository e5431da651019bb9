-- Runs that show the same code. Two codes are alike when all that tells them apart is comment
-- lines; the expressions in inputs must be the same to the letter. Sections that are alike make
-- programs with the same lines of code.
import BlockCode.Proofs.Generation.Remarks
import BlockCode.Proofs.Text.Shown
import BlockCode.Proofs.Workspace.Unplug

namespace BlockCode

open BlockCode.Language
open BlockCode.Text (Ended Firm Marks codeLines)

/-! ## Workspaces without comments -/

/-- Every comment is taken away. -/
def Workspace.uncommented (w : Workspace) : Workspace :=
  { w with nodes := w.nodes.map fun n => { n with block := n.block.hushed } }

/-- Blocks that differ in their comments are alike in what counts for their code. -/
theorem Block.told_of_hushed {b b' : Block} (h : b.hushed = b'.hushed) :
    b'.type = b.type ∧ b'.isDisabled = b.isDisabled ∧ b'.givesValue = b.givesValue := by
  have htold : ∀ {α : Type} (f : Block → α), f b'.hushed = f b.hushed := fun f => congrArg f h.symm
  exact ⟨htold Block.type, htold Block.isDisabled, htold Block.givesValue⟩

theorem Chain.gives_hushed (c : Chain) :
    c.hushed.head?.any (·.givesValue) = c.head?.any (·.givesValue) := by
  cases c <;> rfl

theorem Chain.hushed_hushed (c : Chain) : c.hushed.hushed = c.hushed := by
  induction c using Chain.inductionOn with
  | nil => rfl
  | cons b inputs next hin hnext =>
    have hinputs : inputs.hushed.hushed = inputs.hushed := by
      clear hnext
      induction inputs using Inputs.inductionOn with
      | nil => rfl
      | cons name kind target rest ih =>
        simp only [Inputs.hushed, hin.1, ih hin.2]
    simp only [Chain.hushed, hinputs, hnext]
    rfl

theorem Inputs.has_hushed (inputs : Inputs) (name : Value) :
    inputs.hushed.has name = inputs.has name := by
  rw [hushed_eq, has_map]

theorem Inputs.target_hushed (inputs : Inputs) (name : Value) :
    inputs.hushed.target name = (inputs.target name).hushed := by
  rw [hushed_eq, target_map rfl]

namespace Workspace

variable (w : Workspace)

theorem node?_uncommented (h : Nat) : w.uncommented.node? h =
    (w.node? h).map fun n => { n with block := n.block.hushed } := by
  unfold node? uncommented
  exact List.getElem?_map

theorem treeWithin_uncommented (fuel : Nat) (o : Option Nat) :
    w.uncommented.treeWithin fuel o = (w.treeWithin fuel o).hushed := by
  induction fuel generalizing o with
  | zero => rfl
  | succ fuel ih =>
    rcases o with _ | h
    · rfl
    · rw [treeWithin, treeWithin, node?_uncommented]
      rcases w.node? h with _ | n
      · rfl
      · simp only [Option.map_some]
        rw [Chain.hushed, Inputs.hushed_eq, ih n.next]
        congr 1
        exact Inputs.ofSlots_eq_map fun s _ => ih s.target

theorem trees_uncommented : w.uncommented.trees = w.trees.map Chain.hushed := by
  have hparent : ∀ h, w.uncommented.parent? h = w.parent? h := by
    intro h
    rw [parent?_eq, parent?_eq, node?_uncommented]
    rcases w.node? h with _ | n <;> rfl
  have htops : w.uncommented.topBlocks = w.topBlocks := by
    unfold topBlocks
    simp only [hparent]
    rfl
  unfold trees
  rw [htops, List.map_map]
  refine List.map_congr_left fun h _ => ?_
  rw [Function.comp, tree, tree, treeWithin_uncommented]
  unfold uncommented
  rw [List.length_map]

end Workspace

/-! ## Comment lines -/

/-- Lines that have ended and show no code. -/
structure Quiet (text : String) : Prop where
  ended : Ended text
  codeless : codeLines text = []

namespace Quiet

variable {L : Language} {nested : Workspace → Action String} {marker text : String}

theorem empty : Quiet "" := ⟨Ended.empty, rfl⟩

theorem append {rest : String} (h : Quiet text) (h' : Quiet rest) : Quiet (text ++ rest) :=
  ⟨h.ended.append h'.ended, by rw [h.ended.codeLines, h.codeless, h'.codeless]; rfl⟩

theorem codeLines (h : Quiet text) (rest : String) :
    Text.codeLines (text ++ rest) = Text.codeLines rest := by
  rw [h.ended.codeLines, h.codeless, List.nil_append]

theorem comment (hmarks : Marks marker) (text : String) : Quiet (Text.commentLines marker text) :=
  ⟨Ended.newline _, by
    rw [Text.commentLines, Text.codeLines_newline, hmarks.codeLines]⟩

theorem marked (hmarks : Marks marker) (h : Ended text) (hne : text ≠ "") :
    Quiet (Text.leadLines marker text) :=
  ⟨Text.ended_leadLines h hne, hmarks.codeLines text⟩

end Quiet

section Remarks

variable {L : Language} {nested : Workspace → Action String} {marker text : String} {b : Block}

theorem ended_comments {c : Chain} (h : c.comments = .ok text) : Ended text := by
  unfold Chain.comments at h
  rcases htexts : c.blocks.mapM Block.commentOf with fault | texts
  · rw [htexts] at h
    cases h
  · rw [htexts] at h
    cases h
    generalize texts.filter (· != "") = told
    induction told with
    | nil => exact Ended.empty
    | cons text rest ih =>
      rw [List.map_cons, String.join_cons]
      exact (Ended.newline text).append ih

theorem ownComment_cases (h : L.ownComment b = .ok text) : text = "" ∨
    ∃ marker comment, L.config.commentMarker.asText = .ok marker ∧
      text = Text.commentLines marker comment := by
  unfold ownComment at h
  rcases hcomment : b.commentOf with fault | comment
  · rw [hcomment] at h
    cases h
  · rw [hcomment] at h
    change (if comment == "" then .ok "" else L.config.comment comment) = Except.ok text at h
    split at h
    · cases h
      exact Or.inl rfl
    · unfold Config.comment at h
      rcases hmarker : L.config.commentMarker.asText with fault | marker
      · rw [hmarker] at h
        cases h
      · rw [hmarker] at h
        cases h
        exact Or.inr ⟨marker, comment, rfl, rfl⟩

theorem plugComment_cases {plug : Plug} (h : L.plugComment plug = .ok text) : text = "" ∨
    ∃ marker comments, L.config.commentMarker.asText = .ok marker ∧ Ended comments ∧
      comments ≠ "" ∧ text = Text.leadLines marker comments := by
  unfold plugComment at h
  split at h
  · cases h
    exact Or.inl rfl
  · rcases hcomments : plug.target.comments with fault | comments
    · rw [hcomments] at h
      cases h
    · rw [hcomments] at h
      change (if comments == "" then .ok "" else L.config.marked comments) = Except.ok text at h
      split at h
      · cases h
        exact Or.inl rfl
      · rename_i hne
        unfold Config.marked at h
        rcases hmarker : L.config.commentMarker.asText with fault | marker
        · rw [hmarker] at h
          cases h
        · rw [hmarker] at h
          cases h
          exact Or.inr ⟨marker, comments, rfl, ended_comments hcomments, by simpa using hne, rfl⟩

/-- The comment lines before the code of a block are put together from those of its own comment
and those of the comments below its inputs. -/
theorem remarks_induction {P : String → Prop} (hempty : P "")
    (happend : ∀ before behind, P before → P behind → P (before ++ behind))
    (hown : ∀ marker comment, L.config.commentMarker.asText = .ok marker →
      P (Text.commentLines marker comment))
    (hplug : ∀ marker comments, L.config.commentMarker.asText = .ok marker → Ended comments →
      comments ≠ "" → P (Text.leadLines marker comments))
    {alone : Bool} {plugs : List Plug} (h : L.remarks alone b plugs = .ok text) : P text := by
  have hjoin : ∀ texts : List String, (∀ text ∈ texts, P text) → P (String.join texts) := by
    intro texts htexts
    induction texts with
    | nil => exact hempty
    | cons first rest ih =>
      rw [String.join_cons]
      exact happend _ _ (htexts first List.mem_cons_self)
        (ih fun text htext => htexts text (List.mem_cons_of_mem first htext))
  unfold remarks at h
  split at h
  · unfold commentsBefore at h
    rcases hfirst : L.ownComment b with fault | own
    · rw [hfirst] at h
      cases h
    · rcases hothers : plugs.mapM L.plugComment with fault | others
      · rw [hfirst, hothers] at h
        cases h
      · rw [hfirst, hothers] at h
        cases h
        refine happend _ _ ?_ (hjoin others (Except.forall_of_mapM (fun plug text hplugged => ?_)
          hothers))
        · rcases ownComment_cases hfirst with rfl | ⟨marker, comment, hmarker, rfl⟩
          · exact hempty
          · exact hown marker comment hmarker
        · rcases plugComment_cases hplugged with rfl | ⟨marker, comments, hmarker, hended, hne, rfl⟩
          · exact hempty
          · exact hplug marker comments hmarker hended hne
  · cases h
    exact hempty

theorem unremarked {alone : Bool} {plugs : List Plug} (h : L.remarks alone b plugs = .ok text) :
    b.givesValue = true → alone = false → text = "" := by
  rintro hvalue rfl
  unfold remarks at h
  rw [hvalue] at h
  cases h
  rfl

theorem ended_remarks {alone : Bool} {plugs : List Plug} (h : L.remarks alone b plugs = .ok text) :
    Ended text := by
  refine remarks_induction Ended.empty (fun _ _ => Ended.append) (fun _ _ _ => Ended.newline _) ?_ h
  exact fun _ _ _ => Text.ended_leadLines

theorem marker_eq (hmarker : L.config.commentMarker = .str marker) {other : String}
    (h : L.config.commentMarker.asText = .ok other) : other = marker := by
  rw [hmarker] at h
  exact (Except.ok.inj h).symm

theorem quiet_remarks (hmarker : L.config.commentMarker = .str marker) (hmarks : Marks marker)
    {alone : Bool} {plugs : List Plug} (h : L.remarks alone b plugs = .ok text) : Quiet text := by
  refine remarks_induction Quiet.empty (fun _ _ => Quiet.append) ?_ ?_ h
  · intro other comment hother
    rw [marker_eq hmarker hother]
    exact Quiet.comment hmarks comment
  · intro other comments hother
    rw [marker_eq hmarker hother]
    exact Quiet.marked hmarks

end Remarks

/-! ## Code that is alike -/

/-- Lines of statements: the last of them ends in something, and has ended. -/
def Lined (text : String) : Prop := ∃ front, Firm front ∧ text = front ++ "\n"

namespace Lined

variable {text : String}

theorem ended (h : Lined text) : Ended text := by
  obtain ⟨front, -, rfl⟩ := h
  exact Ended.newline front

theorem ne_empty (h : Lined text) : text ≠ "" := by
  obtain ⟨front, -, rfl⟩ := h
  simp

theorem behind (h : Lined text) (front : String) : Lined (front ++ text) := by
  obtain ⟨line, hfirm, rfl⟩ := h
  exact ⟨front ++ line, hfirm.behind front, (String.append_assoc).symm⟩

theorem leadLines (h : Lined text) (lead : String) : Lined (Text.leadLines lead text) := by
  obtain ⟨line, hfirm, rfl⟩ := h
  obtain ⟨start, c, hline, hvisible⟩ := Firm.iff.mp hfirm
  -- The last character and the newline behind it stay where they are.
  have hlast : Text.leadRest lead.toList [c, '\n'] = [c, '\n'] := by
    simp [Text.leadRest, Text.not_newline hvisible, Text.startsLine]
  obtain ⟨shown, hshown⟩ := Text.leadRest_suffix lead.toList start [c, '\n']
  rw [hlast] at hshown
  have hfirm' : Firm (String.ofList (shown ++ [c])) := Firm.iff.mpr ⟨shown, c, by simp, hvisible⟩
  refine ⟨lead ++ String.ofList (shown ++ [c]), hfirm'.behind lead, ?_⟩
  have htext : (line ++ "\n").toList = start ++ [c, '\n'] := by
    rw [String.toList_append, hline, List.append_assoc]
    rfl
  unfold Text.leadLines
  rw [htext, ← hshown, show shown ++ [c, '\n'] = shown ++ [c] ++ ['\n'] by simp,
    String.ofList_append, String.append_assoc]

end Lined

/-- Lines of statements that show the same code. -/
structure SameLines (text text' : String) : Prop where
  lined : Lined text
  lined' : Lined text'
  codeLines : Text.codeLines text = Text.codeLines text'

/-- Statements that show the same code, or none at all. -/
inductive Shows : String → String → Prop
  | nothing : Shows "" ""
  | lines {text text' : String} : SameLines text text' → Shows text text'

namespace SameLines

variable {text text' rest rest' : String}

theorem refl (h : Lined text) : SameLines text text := ⟨h, h, rfl⟩

theorem behind (h : SameLines text text') {front : String} (hfront : Ended front) :
    SameLines (front ++ text) (front ++ text') :=
  ⟨h.lined.behind front, h.lined'.behind front, by
    rw [hfront.codeLines, hfront.codeLines, h.codeLines]⟩

theorem append (h : SameLines text text') (h' : Shows rest rest') :
    SameLines (text ++ rest) (text' ++ rest') := by
  cases h' with
  | nothing => rwa [String.append_empty, String.append_empty]
  | lines hrest =>
    refine ⟨hrest.lined.behind text, hrest.lined'.behind text', ?_⟩
    rw [h.lined.ended.codeLines, h.lined'.ended.codeLines, h.codeLines, hrest.codeLines]

theorem remarked (h : SameLines text text') {before before' : String} (hbefore : Quiet before)
    (hbefore' : Quiet before') : SameLines (before ++ text) (before' ++ text') :=
  ⟨h.lined.behind before, h.lined'.behind before', by
    rw [hbefore.codeLines, hbefore'.codeLines, h.codeLines]⟩

theorem indented (h : SameLines text text') {indent : String}
    (hgaps : ∀ c ∈ indent.toList, Text.isGap c = true) :
    SameLines (Text.leadLines indent text) (Text.leadLines indent text') :=
  ⟨h.lined.leadLines indent, h.lined'.leadLines indent, by
    rw [Text.codeLines_indented hgaps, Text.codeLines_indented hgaps, h.codeLines]⟩

end SameLines

/-- Codes of a chain that differ in comment lines. Only an expression that stands alone has
any. What gives a value never has statements for its code. -/
inductive Alike (alone gives : Bool) : Code → Code → Prop
  | statements {text text' : String} : Shows text text' → (gives = true → text = "") →
    Alike alone gives (.statements text) (.statements text')
  | expression {text text' : String} {order : Value} : Firm text → Firm text' →
    codeLines text = codeLines text' → (alone = false → text = text') →
    Alike alone gives (.expression text order) (.expression text' order)

namespace Alike

variable {alone gives : Bool} {code code' : Code}

theorem nothing : Alike alone gives (.statements "") (.statements "") :=
  .statements .nothing fun _ => rfl

theorem behind {gives' : Bool} (h : Alike false gives' code code') : Alike alone false code code' := by
  cases h with
  | statements hshows => exact .statements hshows nofun
  | expression hfirm hfirm' hsame heq => exact .expression hfirm hfirm' hsame fun _ => heq rfl

theorem gives_same {L : Language} {outer : Value} {text : String} (h : Alike false gives code code')
    (hgives : L.Gives outer code text) : L.Gives outer code' text ∧ (text = "" ∨ Firm text) := by
  cases hgives with
  | nothing =>
    cases h with
    | statements hshows =>
      cases hshows with
      | nothing => exact ⟨.nothing, Or.inl rfl⟩
      | lines hsame => exact absurd rfl hsame.lined.ne_empty
  | @expression made inner hinner =>
    cases h with
    | expression hfirm _ _ hsame =>
      rw [hsame rfl] at hfirm ⊢
      refine ⟨.expression hinner, Or.inr ?_⟩
      unfold bracketed
      split
      · exact (show Firm ")" by decide).behind _
      · exact hfirm

end Alike

theorem Language.nest_statements {L : Language} {indent made text : String}
    (hindent : L.config.indent = .str indent) (hne : made ≠ "") :
    L.nest made = .ok text ↔ text = Text.leadLines indent made := by
  unfold nest Config.indented
  rw [if_neg (by simpa using hne), hindent]
  exact ⟨fun h => (Except.ok.inj h).symm, fun h => congrArg Except.ok h.symm⟩

theorem Shows.nest {L : Language} {indent made made' text : String} (h : Shows made made')
    (hindent : L.config.indent = .str indent) (hgaps : ∀ c ∈ indent.toList, Text.isGap c = true)
    (hnest : L.nest made = .ok text) : ∃ text', L.nest made' = .ok text' ∧ Shows text text' := by
  cases h with
  | nothing =>
    cases hnest
    exact ⟨"", rfl, .nothing⟩
  | lines hsame =>
    obtain rfl := (nest_statements hindent hsame.lined.ne_empty).mp hnest
    exact ⟨_, (nest_statements hindent hsame.lined'.ne_empty).mpr rfl,
      .lines (hsame.indented hgaps)⟩

/-! ## Sections that are alike -/

/-- Sections that show the same code, and end in something. -/
structure SameCode (text text' : String) : Prop where
  firm : Firm (Text.dropNewline text)
  firm' : Firm (Text.dropNewline text')
  codeLines : Text.codeLines text = Text.codeLines text'

namespace SameCode

variable {text text' : String}

theorem of_lines (h : SameLines text text') : SameCode text text' := by
  obtain ⟨⟨line, hfirm, rfl⟩, ⟨line', hfirm', rfl⟩, hsame⟩ := h
  refine ⟨?_, ?_, hsame⟩
  · rwa [Text.dropNewline_newline]
  · rwa [Text.dropNewline_newline]

theorem of_firm (h : Firm text) (h' : Firm text')
    (hsame : Text.codeLines text = Text.codeLines text') : SameCode text text' := by
  refine ⟨?_, ?_, hsame⟩
  · rwa [Text.dropNewline_firm h]
  · rwa [Text.dropNewline_firm h']

end SameCode

theorem Text.Firm.lined {text : String} (h : Firm text) : Lined (text ++ "\n") := ⟨text, h, rfl⟩

/-- Definitions that stand before a program have ended, and show the code that they show. -/
theorem Session.withDefinitions_eq (s : Session) :
    ∃ definitions, Ended definitions ∧ ∀ code, s.withDefinitions code = definitions ++ code := by
  unfold Session.withDefinitions
  generalize s.pass.helpers.definitions = definitions
  cases definitions with
  | nil => exact ⟨"", Ended.empty, fun code => String.empty_append.symm⟩
  | cons first others =>
    refine ⟨"\n\n".intercalate (first :: others) ++ "\n\n\n", ?_, fun code => rfl⟩
    exact Or.inr ⟨"\n\n".intercalate (first :: others) ++ "\n\n", by
      rw [String.append_assoc]; rfl⟩

theorem firm_joinSections {texts : List String} (hne : texts ≠ [])
    (hfirm : ∀ text ∈ texts, Firm (Text.dropNewline text)) : Firm (joinSections texts) := by
  refine Text.firm_joinLines (by simpa using hne) ?_
  simpa using hfirm

theorem gather_joinSections {α : Type} {read : List Char → Option α} (hnone : read [] = none)
    (texts : List String) :
    Text.gather read (joinSections texts) = texts.flatMap (Text.gather read) := by
  unfold joinSections
  rw [Text.gather_joinLines hnone, List.flatMap_map]
  simp only [Text.gather_dropNewline hnone]

theorem codeLines_joinSections (texts : List String) :
    codeLines (joinSections texts) = texts.flatMap codeLines := by
  rw [Text.codeLines_eq, gather_joinSections rfl, ← funext Text.codeLines_eq]

namespace Language

variable {L : Language} {nested : Workspace → Action String} {Good : Session → Prop}

theorem codeLines_program {texts : List String} (hne : texts ≠ [])
    (hfirm : ∀ text ∈ texts, Firm (Text.dropNewline text)) {s : Session} {definitions : String}
    (hended : Ended definitions) (hprogram : ∀ code, s.withDefinitions code = definitions ++ code) :
    codeLines (Text.clean (s.withDefinitions (joinSections texts))) =
      (codeLines definitions ++ texts.flatMap codeLines).map Text.trimmed := by
  rw [hprogram, Text.codeLines_clean ((firm_joinSections hne hfirm).behind definitions),
    hended.codeLines, codeLines_joinSections]

/-- Programs made of sections that show the same code show the same code. -/
theorem programs_alike {texts texts' : List String} (h : List.Forall₂ SameCode texts texts')
    (s : Session) : codeLines (Text.clean (s.withDefinitions (joinSections texts))) =
      codeLines (Text.clean (s.withDefinitions (joinSections texts'))) := by
  have hsections : (∀ text ∈ texts, Firm (Text.dropNewline text)) ∧
      (∀ text ∈ texts', Firm (Text.dropNewline text)) ∧
        texts.flatMap codeLines = texts'.flatMap codeLines := by
    induction h with
    | nil => exact ⟨List.forall_mem_nil _, List.forall_mem_nil _, rfl⟩
    | cons hsame _ ih =>
      obtain ⟨hfirm, hfirm', hlines⟩ := ih
      refine ⟨List.forall_mem_cons.mpr ⟨hsame.firm, hfirm⟩,
        List.forall_mem_cons.mpr ⟨hsame.firm', hfirm'⟩, ?_⟩
      rw [List.flatMap_cons, List.flatMap_cons, hsame.codeLines, hlines]
  obtain ⟨hfirm, hfirm', hlines⟩ := hsections
  obtain ⟨definitions, hended, hprogram⟩ := s.withDefinitions_eq
  cases h with
  | nil => rfl
  | cons _ _ =>
    rw [codeLines_program (List.cons_ne_nil _ _) hfirm hended hprogram,
      codeLines_program (List.cons_ne_nil _ _) hfirm' hended hprogram, hlines]

theorem section_alike (hstanding : ∀ line, L.standing line = .ok (line ++ "\n")) {top top' : Chain}
    (hhead : top.head?.any (·.givesValue) = top'.head?.any (·.givesValue))
    (h : LeadsTo Good (Alike true (top.head?.any (·.givesValue))) (L.codeOf nested true top)
      (L.codeOf nested true top')) :
    LeadsTo Good (Option.Rel SameCode) (L.section? nested top) (L.section? nested top') := by
  rw [section_eq, section_eq]
  refine h.bind fun code code' halike => LeadsTo.lift fun made hmade => ?_
  unfold sectionOf at hmade ⊢
  rw [← hhead]
  cases halike with
  | statements hshows hnone =>
    cases hshows with
    | nothing =>
      cases hmade
      exact ⟨none, rfl, .none⟩
    | lines hsame =>
      have hgives : top.head?.any (·.givesValue) = false :=
        Bool.eq_false_iff.mpr fun hgives => hsame.lined.ne_empty (hnone hgives)
      simp only [Code.text, beq_false_of_ne hsame.lined.ne_empty,
        beq_false_of_ne hsame.lined'.ne_empty, hgives, Bool.false_eq_true, if_false] at hmade ⊢
      cases hmade
      exact ⟨_, rfl, .some (.of_lines hsame)⟩
  | expression hfirm hfirm' hsame =>
    simp only [Code.text, beq_false_of_ne hfirm.ne_empty, beq_false_of_ne hfirm'.ne_empty,
      Bool.false_eq_true, if_false, hstanding] at hmade ⊢
    split at hmade
    · rename_i hgives
      cases hmade
      rw [if_pos hgives]
      refine ⟨_, rfl, .some (.of_lines ⟨hfirm.lined, hfirm'.lined, ?_⟩)⟩
      rw [Text.codeLines_newline, Text.codeLines_newline, hsame]
    · rename_i hgives
      cases hmade
      rw [if_neg hgives]
      exact ⟨_, rfl, .some (.of_firm hfirm hfirm' hsame)⟩

theorem written_alike {tops tops' : List Chain}
    (h : List.Forall₂ (fun top top' => LeadsTo Good (Option.Rel SameCode) (L.section? nested top)
      (L.section? nested top')) tops tops') :
    LeadsTo Good (List.Forall₂ SameCode) (L.written nested tops) (L.written nested tops') := by
  induction h with
  | nil => exact LeadsTo.pure .nil
  | cons htop _ ih =>
    rw [written_cons, written_cons]
    refine htop.bind fun made made' hmade => ih.bind fun texts texts' htexts => LeadsTo.pure ?_
    cases hmade with
    | none => exact htexts
    | some hsame => exact .cons hsame htexts

/-- When a program is made of one workspace, one that shows the same code is made of the other. -/
theorem pass_alike {w w' : Workspace} {s : Session} (hidle : s.running = false)
    (hgood : Good (L.opened w s)) (hopened : L.opened w' s = L.opened w s)
    (h : LeadsTo Good (List.Forall₂ SameCode) (L.written (fun _ => L.refuse) w.trees)
      (L.written (fun _ => L.refuse) w'.trees)) {program : String}
    (hmade : (L.pass w s).1 = .ok program) :
    ∃ program', (L.pass w' s).1 = .ok program' ∧ codeLines program = codeLines program' := by
  obtain ⟨texts, after, hwritten, rfl⟩ := (pass_ok_iff hidle).mp hmade
  obtain ⟨-, texts', hwritten', hsame⟩ := h _ _ _ hgood hwritten
  rw [← hopened] at hwritten'
  exact ⟨_, (pass_ok_iff hidle).mpr ⟨texts', after, hwritten', rfl⟩, programs_alike hsame after⟩

end Language
end BlockCode
