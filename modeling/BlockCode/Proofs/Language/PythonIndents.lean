-- How far the lines of a program are indented. Every line that a block adds to the program stands
-- behind one copy of the indent for each input for statements that the block is nested in; only the
-- line that stands for an empty body has two spaces of its own in the place of the last copy.
import BlockCode.Proofs.Language.PythonRemarks
import BlockCode.Proofs.Text.Margins

namespace BlockCode.Python

open BlockCode.Language
open BlockCode.Text (AtLevel Ended Firm Flush Fronts Inline inked printed)

/-! ## The pieces of a program -/

/-- A piece of a program: a line of a block behind its comments, or the line that stands for an
empty body of the block. -/
structure Piece where
  block : Block
  /-- The comment lines before the line. -/
  remarks : List (List Char) := []
  /-- How many inputs for statements the block is nested in. -/
  depth : Nat := 0
  passes : Bool := false

namespace Piece

/-- The piece, nested in one input more. -/
def deeper (p : Piece) : Piece := { p with depth := p.depth + 1 }

/-- The level that the lines of the piece are to stand at. A body is one level further in than its
block. -/
def level (p : Piece) : Nat := if p.passes then p.depth + 1 else p.depth

end Piece

/-- The pieces of a body of the block. -/
def body (b : Block) (inside : List Piece) : List Piece :=
  if inside.isEmpty then [{ block := b, passes := true }] else inside.map Piece.deeper

/-- What comes behind the first line of a block, up to the chain behind it. -/
def below (b : Block) (inputs : Inputs) (inside : String → List Piece) : List Piece :=
  match b.type with
  | .str "controls_if" => body b (inside "DO0") ++
    if inputs.has (.str "ELSE") then { block := b } :: body b (inside "ELSE") else []
  | .str "controls_repeat_ext" => body b (inside "DO")
  | _ => []

/-- The comment lines before the first line of a block. -/
def shown (config : Config) (alone : Bool) (b : Block) (inputs : Inputs) : List (List Char) :=
  let L := Language.python config
  match L.remarks alone b (L.plugs (refused config) inputs) with
  | .ok text => printed text
  | .error _ => []

mutual
/-- The pieces that a chain adds to a program, from the top. -/
def pieces (config : Config) (alone : Bool) : Chain → List Piece
  | .nil => []
  | .cons b inputs next =>
    if b.isDisabled then pieces config false next
    else { block := b, remarks := shown config alone b inputs } ::
      below b inputs (fun name => piecesIn config (.str name) inputs) ++ pieces config false next

/-- The pieces of what is in the input of a name. -/
def piecesIn (config : Config) (name : Value) : Inputs → List Piece
  | .nil => []
  | .cons n _ target rest =>
    if n.same name then pieces config false target else piecesIn config name rest
end

variable {config : Config} {indent : String} {b : Block} {inputs : Inputs}

theorem piecesIn_eq (name : Value) (inputs : Inputs) :
    piecesIn config name inputs = pieces config false (inputs.target name) := by
  induction inputs using Inputs.inductionOn with
  | nil => rfl
  | cons n kind target rest ih =>
    unfold piecesIn Inputs.target
    split
    · rfl
    · exact ih

/-! ## What a piece adds to a program -/

/-- The lines that a piece adds: its comment lines and one line of the block, all of which begin at
the margin but for the copies of the indent; or the line for an empty body. -/
inductive Adds (indent : String) (p : Piece) : List (List Char) → Prop
  | line {line : List Char} : p.passes = false → (∀ remark ∈ p.remarks, Flush remark) →
    Flush line → Adds indent p ((p.remarks ++ [line]).map
      ((List.replicate p.depth indent.toList).flatten ++ ·))
  | passes : p.passes = true →
    Adds indent p [(List.replicate p.depth indent.toList).flatten ++ "  pass".toList]

theorem Adds.deeper {p : Piece} {lines : List (List Char)} (h : Adds indent p lines) :
    Adds indent p.deeper (lines.map (indent.toList ++ ·)) := by
  have hcopies : ∀ line, indent.toList ++ ((List.replicate p.depth indent.toList).flatten ++ line) =
      (List.replicate p.deeper.depth indent.toList).flatten ++ line := by
    intro line
    rw [Piece.deeper, List.replicate_succ, List.flatten_cons, List.append_assoc]
  cases h with
  | line hline hremarks hflush =>
    rw [List.map_map]
    simp only [Function.comp_def, hcopies]
    exact .line hline hremarks hflush
  | passes hpasses =>
    rw [List.map_singleton, hcopies]
    exact .passes hpasses

/-- The lines of a text that are not blank are those of the pieces. -/
def Laid (indent : String) (ps : List Piece) (text : String) : Prop :=
  ∃ groups, List.Forall₂ (Adds indent) ps groups ∧ printed text = groups.flatten

namespace Laid

variable {ps ps' : List Piece} {text rest : String}

theorem empty : Laid indent [] "" := ⟨[], .nil, rfl⟩

theorem nil_iff (h : Laid indent ps text) : ps = [] ↔ printed text = [] := by
  obtain ⟨groups, hadds, hprinted⟩ := h
  rw [hprinted]
  cases hadds with
  | nil => simp
  | cons hfirst _ => cases hfirst <;> simp

theorem append (h : Laid indent ps text) (hended : Ended text) (h' : Laid indent ps' rest) :
    Laid indent (ps ++ ps') (text ++ rest) := by
  obtain ⟨groups, hadds, hprinted⟩ := h
  obtain ⟨groups', hadds', hprinted'⟩ := h'
  exact ⟨groups ++ groups', List.rel_append hadds hadds', by
    rw [hended.printed, hprinted, hprinted', List.flatten_append]⟩

theorem newline (h : Laid indent ps text) : Laid indent ps (text ++ "\n") := by
  obtain ⟨groups, hadds, hprinted⟩ := h
  exact ⟨groups, hadds, (Text.printed_newline text).trans hprinted⟩

theorem line (b : Block) (h : Inline text) : Laid indent [{ block := b }] text :=
  ⟨[[text.toList]], .cons (.line rfl (List.forall_mem_nil _) h.flush) .nil, h.printed⟩

theorem deeper (h : Laid indent ps text) (hgaps : ∀ c ∈ indent.toList, Text.isGap c = true) :
    Laid indent (ps.map Piece.deeper) (Text.leadLines indent text) := by
  obtain ⟨groups, hadds, hprinted⟩ := h
  refine ⟨groups.map (List.map (indent.toList ++ ·)), ?_, ?_⟩
  · exact List.forall₂_map_left_iff.mpr (List.forall₂_map_right_iff.mpr
      (hadds.imp fun _ _ hadd => hadd.deeper))
  · rw [Text.printed_indented hgaps, hprinted, List.map_flatten]

theorem remarked {before : String} (h : Laid indent ({ block := b } :: ps) text)
    (hended : Ended before) (hflush : ∀ line ∈ printed before, Flush line) :
    Laid indent ({ block := b, remarks := printed before } :: ps) (before ++ text) := by
  obtain ⟨groups, hadds, hprinted⟩ := h
  cases hadds with
  | cons hfirst hrest =>
    cases hfirst with
    | @line line _ _ hline =>
      refine ⟨_ :: _, .cons (.line rfl hflush hline) hrest, ?_⟩
      rw [hended.printed, hprinted]
      simp
    | passes hpasses => cases hpasses

theorem headed {head : String} (b : Block) (hhead : Inline head) (h : Laid indent ps text) :
    Laid indent ({ block := b } :: ps) (head ++ ":\n" ++ text) := by
  have hline : Inline (head ++ ":") := hhead.append (by decide)
  rw [headed_eq]
  exact (Laid.line b hline).newline.append (Ended.newline _) h

end Laid

/-! ## What rules write -/

/-- What the rule for a block is given when it asks. Statements stand in their input one level
further in. -/
def Placed (config : Config) (indent : String) (inputs : Inputs) : Request → String → Prop
  | .value _ _, text => text = "" ∨ Inline text
  | .statements input, text => text = "" ∧ piecesIn config input inputs = [] ∨
    Lined text ∧ Laid indent ((piecesIn config input inputs).map Piece.deeper) text
  | _, text => Inline text

theorem placed_name {r : Request} {text : String} (hcloses : r.opensInput = false) :
    Placed config indent inputs r text ↔ Inline text := by
  cases r with
  | value input order => cases hcloses
  | statements input => cases hcloses
  | _ => exact Iff.rfl

theorem inlined_placed : Inlined (Placed config indent inputs) where
  value := fun _ _ _ h => h
  name := fun _ _ hcloses h => (placed_name hcloses).mp h

/-- A body is one level further in than its block, but for the line that stands for an empty one. -/
theorem BodySupplied.laid {input text : String}
    (h : BodySupplied (Placed config indent inputs) input text) (b : Block) :
    Lined text ∧ Laid indent (body b (piecesIn config (.str input) inputs)) text := by
  unfold body
  cases h with
  | given hgiven hne =>
    rcases hgiven with ⟨rfl, -⟩ | ⟨hlined, hlaid⟩
    · exact absurd rfl hne
    · have hsome : piecesIn config (.str input) inputs ≠ [] := by
        intro hnone
        obtain ⟨front, hfirm, rfl⟩ := hlined
        rw [hnone, List.map_nil] at hlaid
        have hblank := hlaid.nil_iff.mp rfl
        rw [Text.printed_newline] at hblank
        exact hfirm.printed_ne_nil hblank
      rw [if_neg (by simpa using hsome)]
      exact ⟨hlined, hlaid⟩
  | passes hgiven =>
    rcases hgiven with ⟨-, hnone⟩ | ⟨hlined, -⟩
    · rw [hnone]
      exact ⟨⟨"  pass", by decide, rfl⟩, [_], .cons (.passes rfl) .nil, rfl⟩
    · exact absurd rfl hlined.ne_empty

theorem Ruled.laid {result : RuleResult} (h : Ruled (Placed config indent inputs) b inputs result) :
    Laid indent ({ block := b } ::
      below b inputs fun name => piecesIn config (.str name) inputs) result.text := by
  unfold below
  cases h with
  | expression htype hb hinline =>
    obtain ⟨hif, hloop⟩ := bodiless htype
    rw [hb]
    split
    · exact absurd (Value.str.inj ‹_›) hif
    · exact absurd (Value.str.inj ‹_›) hloop
    · exact .line b hinline
  | @line _ line htype hb hinline =>
    have hline : Laid indent [{ block := b }] (line ++ "\n") := (Laid.line b hinline).newline
    rw [hb]
    simp only [List.mem_cons, List.not_mem_nil, or_false] at htype
    rcases htype with rfl | rfl <;> exact hline
  | branch hb hnone hhead hbody =>
    rw [hb, hnone, if_neg Bool.false_ne_true, List.append_nil]
    exact (hbody.laid b).2.headed b hhead
  | branches hb hsome hhead hbody hother =>
    obtain ⟨hlined, hlaid⟩ := hbody.laid b
    obtain ⟨-, hotherlaid⟩ := hother.laid b
    rw [hb, hsome, if_pos rfl]
    exact (hlaid.headed b hhead).append (headed hhead hlined).1.ended
      (hotherlaid.headed b (by decide))
  | loop hb hhead hbody =>
    rw [hb]
    exact (hbody.laid b).2.headed b hhead

/-! ## Every chain is laid out -/

/-- The code of a chain, with these pieces. -/
structure Margined (indent : String) (alone gives : Bool) (ps : List Piece) (code : Code) :
    Prop where
  remarked : ∃ told, Remarked alone gives told code
  laid : Laid indent ps code.text

/-- The code of the chain is laid out in its pieces. -/
def Lays (config : Config) (indent : String) (c : Chain) : Prop :=
  c.All Noted → ∀ alone, Yields InOrder
    (Margined indent alone (c.head?.any (·.givesValue)) (pieces config alone c))
    ((Language.python config).codeOf (refused config) alone c)

theorem lays_nothing : Lays config indent .nil :=
  fun _ _ => Yields.pure ⟨⟨[], .nothing rfl⟩, .empty⟩

theorem placed_answer (hindent : config.indent = .str indent)
    (hgaps : ∀ c ∈ indent.toList, Text.isGap c = true) (hin : inputs.Every (Lays config indent))
    (hall : inputs.All Noted) {r : Request} (hr : Asked b r) :
    Yields InOrder (Placed config indent inputs r) (answers config (refused config) b inputs r) := by
  refine answered (K := fun input => Margined indent false
    ((inputs.target (.str input)).head?.any (·.givesValue)) (piecesIn config (.str input) inputs))
    (fun input => ?_) (fun input order code text hmargined hgives => ?_)
    (fun input made text hmargined hnest => ?_)
    (fun r text hcloses hinline => (placed_name hcloses).mpr hinline) hr
  · rw [piecesIn_eq]
    exact hin.of_target lays_nothing _ (hall.of_target _) false
  · obtain ⟨told, hremarked⟩ := hmargined.remarked
    exact hremarked.given hgives
  · obtain ⟨⟨told, hremarked⟩, hlaid⟩ := hmargined
    cases hremarked with
    | nothing _ =>
      cases hnest
      exact Or.inl ⟨rfl, hlaid.nil_iff.mpr rfl⟩
    | statements _ hlined _ =>
      obtain rfl := (nest_statements hindent hlined.ne_empty).mp hnest
      exact Or.inr ⟨hlined.leadLines indent, hlaid.deeper hgaps⟩

theorem flush_remarks {marker : String} (hmarker : config.commentMarker = .str marker)
    (hfronts : Fronts marker) {alone : Bool} {plugs : List Plug} {before : String}
    (h : (Language.python config).remarks alone b plugs = .ok before) :
    ∀ line ∈ printed before, Flush line := by
  have hmarked : ∀ other text, config.commentMarker.asText = .ok other →
      ∀ line ∈ printed (Text.leadLines other text), Flush line := by
    intro other text hother
    rw [marker_eq (L := Language.python config) hmarker hother]
    exact hfronts.flush_lines text
  refine (remarks_induction (P := fun text => Ended text ∧ ∀ line ∈ printed text, Flush line)
    ⟨Ended.empty, List.forall_mem_nil _⟩ ?_ ?_ ?_ h).2
  · rintro before behind ⟨hended, hflush⟩ ⟨hended', hflush'⟩
    refine ⟨hended.append hended', ?_⟩
    rw [hended.printed]
    exact List.forall_mem_append.mpr ⟨hflush, hflush'⟩
  · intro other comment hother
    refine ⟨Ended.newline _, ?_⟩
    rw [Text.commentLines, Text.printed_newline]
    exact hmarked other comment hother
  · intro other comments hother hended hne
    exact ⟨Text.ended_leadLines hended hne, hmarked other comments hother⟩

/-- One block more: an enabled one is laid out behind its comments, with its bodies, and then the
chain behind it. -/
theorem lays_enabled {marker : String} (hmarker : config.commentMarker = .str marker)
    (hfronts : Fronts marker) (hindent : config.indent = .str indent)
    (hgaps : ∀ c ∈ indent.toList, Text.isGap c = true) {next : Chain} (hb : Noted b inputs next)
    (henabled : b.isDisabled = false) (hin : inputs.Every (Lays config indent))
    (hall : inputs.All Noted) {gives : Bool}
    (hnext : Yields InOrder (Margined indent false gives (pieces config false next))
      ((Language.python config).codeOf (refused config) false next)) (alone : Bool) :
    Yields InOrder (Margined indent alone b.givesValue (pieces config alone (.cons b inputs next)))
      ((Language.python config).codeOf (refused config) alone (.cons b inputs next)) := by
  refine codeOf_yields (P := Ruled (Placed config indent inputs) b inputs)
    henabled (fun _ => InOrder.counted) (fun rule hrule => ?_) hnext
    fun result before behind code after s' hruled hbefore hrest hchain hcode => ?_
  · exact (ruled_rule inlined_placed hrule (hb.number henabled)).perform
      (fun r => placed_answer hindent hgaps hin hall) (asks_of_ruleFor b hrule inputs)
  obtain ⟨⟨told, hremarked⟩, hbehind⟩ := hrest
  have hformed : Formed b.givesValue result :=
    hruled.formed (hb.flagged henabled) fun _ _ hbody => (hbody.laid b).1
  have hfirst : Laid indent ({ block := b, remarks := shown config alone b inputs } ::
      below b inputs fun name => piecesIn config (.str name) inputs) (before ++ result.text) := by
    have hshown : shown config alone b inputs = printed before := by
      unfold shown
      simp only [hbefore]
    rw [hshown]
    exact hruled.laid.remarked (ended_remarks hbefore) (flush_remarks hmarker hfronts hbefore)
  refine ⟨⟨_, hformed.writes.between (ended_remarks hbefore) rfl (unremarked hbefore)
    hremarked (hb.unfollowed hchain) hcode⟩, ?_⟩
  rw [pieces, henabled, if_neg Bool.false_ne_true, RuleResult.text_between hcode]
  rcases hgives : b.givesValue with _ | _
  · rw [hgives] at hformed
    cases hformed with
    | code hlined => exact hfirst.append (hlined.behind before).ended hbehind
  · -- Nothing is behind a block that gives a value.
    obtain rfl := hb.unfollowed hchain hgives
    rw [hbehind.nil_iff.mpr rfl, String.append_empty, List.append_nil]
    exact hfirst

/-- Every chain is laid out: by induction on the chain, with what is plugged into its blocks, while
the names that are given out stay in good order. -/
theorem lays {marker : String} (hmarker : config.commentMarker = .str marker)
    (hfronts : Fronts marker) (hindent : config.indent = .str indent)
    (hgaps : ∀ c ∈ indent.toList, Text.isGap c = true) (c : Chain) : Lays config indent c := by
  induction c using Chain.inductionOn with
  | nil => exact lays_nothing
  | cons b inputs next hin hnext =>
    intro hall alone
    obtain ⟨hb, hbelow, hbehind⟩ := Chain.all_cons.mp hall
    simp only [Chain.head?, Option.any_some]
    rcases hdisabled : b.isDisabled with _ | _
    · exact lays_enabled hmarker hfronts hindent hgaps hb hdisabled hin hbelow
        (hnext hbehind false) alone
    · rw [codeOf_disabled hdisabled, pieces, if_pos hdisabled]
      rcases hgives : b.givesValue with _ | _
      · intro s code s' hgood hrun
        obtain ⟨hafter, ⟨told, hremarked⟩, hlaid⟩ := hnext hbehind false s code s' hgood hrun
        exact ⟨hafter, ⟨told, hremarked.behind⟩, hlaid⟩
      · rw [hb.ends hgives]
        exact Yields.pure ⟨⟨[], .nothing rfl⟩, .empty⟩

/-! ## Programs -/

/-- Sections of a program, with these pieces. -/
structure Settled (indent : String) (ps : List Piece) (texts : List String) : Prop where
  firm : ∀ text ∈ texts, Firm (Text.dropNewline text)
  laid : ∃ groups, List.Forall₂ (Adds indent) ps groups ∧ texts.flatMap printed = groups.flatten

namespace Settled

variable {ps ps' : List Piece} {texts texts' : List String}

theorem nil : Settled indent [] [] := ⟨List.forall_mem_nil _, [], .nil, rfl⟩

theorem append (h : Settled indent ps texts) (h' : Settled indent ps' texts') :
    Settled indent (ps ++ ps') (texts ++ texts') := by
  obtain ⟨hfirm, groups, hadds, hprinted⟩ := h
  obtain ⟨hfirm', groups', hadds', hprinted'⟩ := h'
  refine ⟨List.forall_mem_append.mpr ⟨hfirm, hfirm'⟩, groups ++ groups',
    List.rel_append hadds hadds', ?_⟩
  rw [List.flatMap_append, hprinted, hprinted', List.flatten_append]

end Settled

theorem printed_section {top : Chain} {text : String} {made : Option String}
    (h : (Language.python config).sectionOf top text = .ok made) :
    made.toList.flatMap printed = printed text :=
  flatMap_sectionOf (fun _ => rfl) rfl Text.printed_newline h

theorem Margined.settled {top : Chain} {ps : List Piece} {code : Code} {made : Option String}
    (h : Margined indent true (top.head?.any (·.givesValue)) ps code)
    (hmade : (Language.python config).sectionOf top code.text = .ok made) :
    Settled indent ps made.toList := by
  obtain ⟨⟨told, hremarked⟩, groups, hadds, hprinted⟩ := h
  exact ⟨(hremarked.sectioned (fun _ => rfl) hmade).firm, groups, hadds,
    (printed_section hmade).trans hprinted⟩

/-! ## How far the lines are indented -/

/-- The lines of a piece stand at their level, unless the piece is an empty body and the indent is
not the one that is written there. -/
theorem Adds.level_iff {p : Piece} {lines : List (List Char)} (h : Adds indent p lines)
    (hgaps : ∀ c ∈ indent.toList, Text.isGap c = true) :
    (∀ line ∈ lines, AtLevel indent p.level line) ↔ indent = "  " ∨ p.passes = false := by
  unfold Piece.level
  cases h with
  | line hline hremarks hflush =>
    refine iff_of_true ?_ (Or.inr hline)
    rw [hline]
    refine List.forall_mem_map.mpr fun line hmem => ⟨line, rfl, ?_⟩
    rcases List.mem_append.mp hmem with hremark | hlast
    · exact hremarks line hremark
    · rwa [List.mem_singleton.mp hlast]
  | passes hpasses =>
    have hspaces : ∀ c ∈ "  ".toList, Text.isGap c = true := List.all_eq_true.mp rfl
    have hpass : Flush "pass".toList := rfl
    rw [hpasses, List.forall_mem_singleton]
    refine (Text.atLevel_behind_iff hgaps hspaces hpass).trans ?_
    rw [String.toList_inj, eq_comm]
    simp

theorem levels_iff {ps : List Piece} {groups : List (List (List Char))}
    (h : List.Forall₂ (Adds indent) ps groups)
    (hgaps : ∀ c ∈ indent.toList, Text.isGap c = true) :
    List.Forall₂ (fun p lines => ∀ line ∈ lines, AtLevel indent p.level line) ps groups ↔
      indent = "  " ∨ ∀ p ∈ ps, p.passes = false := by
  induction h with
  | nil => simp
  | cons hfirst _ ih =>
    rw [List.forall₂_cons, hfirst.level_iff hgaps, ih, List.forall_mem_cons, or_and_left]

/-- Behind the helpers a program has the lines of its pieces: for each piece its comment lines and
the line of its block, or the line for an empty body. All of them begin behind as many copies of the
indent as the block is nested in inputs for statements, and one more for a body, just when the indent
is the two spaces that are written before the line for an empty body, or no body is empty. -/
theorem indented_by_level_iff {marker : String} (hmarker : config.commentMarker = .str marker)
    (hfronts : Fronts marker) (hindent : config.indent = .str indent)
    (hgaps : ∀ c ∈ indent.toList, Text.isGap c = true) {w : Workspace} (_ : w.Acyclic)
    (hw : w.All Noted) {s : Session} (hs : Lived (Language.python config) s) {program : String}
    (hmade : ((Language.python config).pass w s).1 = .ok program) :
    ∃ groups, inked program =
        (((Language.python config).pass w s).2.pass.helpers.flatMap fun helper =>
          printed helper.code) ++ groups.flatten ∧
      List.Forall₂ (Adds indent) (w.trees.flatMap (pieces config true)) groups ∧
      (List.Forall₂ (fun p lines => ∀ line ∈ lines, AtLevel indent p.level line)
          (w.trees.flatMap (pieces config true)) groups ↔
        indent = "  " ∨ ∀ p ∈ w.trees.flatMap (pieces config true), p.passes = false) := by
  have hgood : InOrder ((Language.python config).opened w s) := hs.opened_orderly w
  have hfirm : ∀ helper ∈ ((Language.python config).pass w s).2.pass.helpers, Firm helper.code :=
    fun helper hhelper => (((keeps_plainly config).pass w s hs.not_running
      ⟨hgood, List.forall_mem_nil _⟩).2 helper hhelper).firm
  have hsections : ∀ top ∈ w.trees, Yields InOrder
      (fun made => Settled indent (pieces config true top) made.toList)
      ((Language.python config).section? (refused config) top) := by
    intro top htop
    rw [section_eq]
    exact (lays hmarker hfronts hindent hgaps top (hw top htop) true).bind fun code hcode =>
      Yields.lift fun made hmade => hcode.settled hmade
  obtain ⟨texts, after, hwritten, rfl⟩ := (pass_ok_iff hs.not_running).mp hmade
  obtain ⟨-, hsettled⟩ := written_yields
    (P := fun top => Settled indent (pieces config true top))
    (Q := fun tops => Settled indent (tops.flatMap (pieces config true))) .nil
    (fun _ _ _ _ hone hmade => hone.append hmade) hsections _ _ _ hgood hwritten
  rw [pass_gathered hs.not_running, hwritten] at hfirm ⊢
  obtain ⟨groups, hadds, hprinted⟩ := hsettled.laid
  refine ⟨groups, ?_, hadds, levels_iff hadds hgaps⟩
  rw [← hprinted]
  exact gather_program rfl (fun _ => Text.inked?_gaps) hfirm hsettled.firm

/-- A generator that indents with tabs. -/
def tabbed : Config := { indent := .str "\t" }

/-- No body of the branch is empty, so tabs indent all lines. -/
theorem remarkedBranch_indented :
    tabbed.commentMarker = .str "# " ∧ Fronts "# " ∧ tabbed.indent = .str "\t" ∧
      (∀ c ∈ "\t".toList, Text.isGap c = true) ∧ (Edit.build remarkedBranch).Acyclic ∧
      (Edit.build remarkedBranch).All Noted ∧
      Lived (Language.python tabbed) (Session.new (Language.python tabbed)) ∧
      ((Language.python tabbed).pass (Edit.build remarkedBranch)
        (Session.new (Language.python tabbed))).1 = .ok
          "# if\n\n# else\n# yes\nif -2:\n\t# end\n\n\tprint('')\n" ∧
      ∃ groups, inked "# if\n\n# else\n# yes\nif -2:\n\t# end\n\n\tprint('')\n" = groups.flatten ∧
        List.Forall₂ (fun p lines => ∀ line ∈ lines, AtLevel "\t" p.level line)
          ((Edit.build remarkedBranch).trees.flatMap (pieces tabbed true)) groups := by
  have hfronts : Fronts "# " := ⟨by decide, by decide⟩
  have hgaps : ∀ c ∈ "\t".toList, Text.isGap c = true := List.all_eq_true.mp rfl
  have hac := Edit.acyclic_build remarkedBranch_treelike
  have hmade : ((Language.python tabbed).pass (Edit.build remarkedBranch)
      (Session.new (Language.python tabbed))).1 = .ok
        "# if\n\n# else\n# yes\nif -2:\n\t# end\n\n\tprint('')\n" := rfl
  have hpasses : ∀ p ∈ (Edit.build remarkedBranch).trees.flatMap (pieces tabbed true),
      p.passes = false := List.forall_mem_map.mp (by decide :
    ∀ passes ∈ ((Edit.build remarkedBranch).trees.flatMap (pieces tabbed true)).map (·.passes),
      passes = false)
  obtain ⟨groups, hinked, -, hlevels⟩ :=
    indented_by_level_iff rfl hfronts rfl hgaps hac remarkedBranch_noted .new hmade
  exact ⟨rfl, hfronts, rfl, hgaps, hac, remarkedBranch_noted, .new, hmade, groups, hinked,
    hlevels.mpr (Or.inr hpasses)⟩

/-- A branch with nothing in it. -/
def emptyBranch : List Edit := [.newBlock { type := .str "controls_if", id := .str "a" }]

theorem emptyBranch_treelike : Edit.Allowed Edit.Treelike emptyBranch := by decide

/-- In a generator that indents with tabs an empty body still has two spaces before it. -/
theorem empty_body_not_indented :
    (Edit.build emptyBranch).Acyclic ∧
      ((Language.python tabbed).pass (Edit.build emptyBranch)
        (Session.new (Language.python tabbed))).1 = .ok "if False:\n  pass\n" ∧
      inked "if False:\n  pass\n" = ["if False:".toList, "  pass".toList] ∧
      ((Edit.build emptyBranch).trees.flatMap (pieces tabbed true)).map
        (fun p => (p.passes, p.level)) = [(false, 0), (true, 1)] ∧
      ¬ AtLevel "\t" 1 "  pass".toList := by
  refine ⟨Edit.acyclic_build emptyBranch_treelike, rfl, rfl, rfl, ?_⟩
  rintro ⟨rest, hline, -⟩
  cases hline

end BlockCode.Python
