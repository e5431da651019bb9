-- Comments are neither lost nor doubled. The comment lines of a program are those of the blocks
-- that have lines of their own, in the order of these blocks: each block tells its comment and
-- those of everything below its inputs for values, then come the bodies that its rule writes,
-- then the chain behind it.
import BlockCode.Proofs.Generation.Remarked
import BlockCode.Proofs.Language.PythonLines

namespace BlockCode.Python

open BlockCode.Language
open BlockCode.Text (Firm Inline noted)

/-! ## What a chain tells -/

/-- The inputs whose statements the rule for a block writes, in the order in which it writes
them. -/
def bodies (b : Block) : List String :=
  match b.type with
  | .str "controls_if" => ["DO0", "ELSE"]
  | .str "controls_repeat_ext" => ["DO"]
  | _ => []

mutual
/-- The comment lines that are told of a chain. A disabled block tells nothing, and a block that
gives a value tells of itself only when it stands alone. -/
def told (alone : Bool) : Chain → List (List Char)
  | .nil => []
  | .cons b inputs next =>
    if b.isDisabled then told false next
    else (if !b.givesValue || alone then b.sayings ++ inputs.sayings else []) ++
      (bodies b).flatMap (fun name => toldIn (.str name) inputs) ++ told false next

/-- The comment lines that are told of what is in the input of a name. -/
def toldIn (name : Value) : Inputs → List (List Char)
  | .nil => []
  | .cons n _ target rest => if n.same name then told false target else toldIn name rest
end

theorem toldIn_eq (name : Value) (inputs : Inputs) :
    toldIn name inputs = told false (inputs.target name) := by
  induction inputs using Inputs.inductionOn with
  | nil => rfl
  | cons n kind target rest ih =>
    unfold toldIn Inputs.target
    split
    · rfl
    · exact ih

theorem toldIn_of_not_has {name : Value} {inputs : Inputs} (h : inputs.has name = false) :
    toldIn name inputs = [] := by
  induction inputs using Inputs.inductionOn with
  | nil => rfl
  | cons n kind target rest ih =>
    unfold Inputs.has at h
    rw [Bool.or_eq_false_iff] at h
    rw [toldIn, if_neg (by simp [h.1]), ih h.2]

variable {b : Block} {inputs : Inputs}

/-! ## Comment lines that rules write -/

/-- What the rule for a block is given when it asks. -/
def Given (inputs : Inputs) : Request → String → Prop
  | .value _ _, text => text = "" ∨ Inline text
  | .statements input, text => Bodied (toldIn input inputs) text
  | _, text => Inline text

/-- What a rule writes, with the comment lines in it. There are none in an expression. -/
inductive Writes : List (List Char) → Bool → RuleResult → Prop
  | expression {text : String} {order : Value} : Inline text →
    Writes [] true (.expression text order)
  | code {text : String} {lines : List (List Char)} : Lined text → noted text = lines →
    Writes lines false (.code text)

theorem inlined_given (inputs : Inputs) : Inlined (Given inputs) where
  value := fun _ _ _ h => h
  name := by
    intro r text hopens h
    cases r with
    | value input order => cases hopens
    | statements input => cases hopens
    | _ => exact h

theorem BodySupplied.noted {input text : String} (h : BodySupplied (Given inputs) input text) :
    Lined text ∧ noted text = toldIn (.str input) inputs := by
  cases h with
  | given hgiven hne =>
    rcases hgiven with ⟨rfl, -⟩ | hlined
    · exact absurd rfl hne
    · exact hlined
  | passes hgiven =>
    rcases hgiven with ⟨-, hnone⟩ | ⟨hlined, -⟩
    · exact ⟨⟨"  pass", by decide, rfl⟩, hnone.symm⟩
    · exact absurd rfl hlined.ne_empty

theorem Formed.writes {gives : Bool} {result : RuleResult} (h : Formed gives result) :
    Writes (noted result.text) gives result := by
  cases h with
  | expression hinline =>
    rw [RuleResult.text, hinline.noted]
    exact .expression hinline
  | code hlined => exact .code hlined rfl

/-- The comment lines in what a rule writes are those of its bodies. -/
theorem Ruled.noted {result : RuleResult} (h : Ruled (Given inputs) b inputs result) :
    noted result.text = (bodies b).flatMap fun name => toldIn (.str name) inputs := by
  unfold bodies
  cases h with
  | expression htype hb hinline =>
    obtain ⟨hif, hloop⟩ := bodiless htype
    rw [hb]
    split
    · exact absurd (Value.str.inj ‹_›) hif
    · exact absurd (Value.str.inj ‹_›) hloop
    · exact hinline.noted
  | @line _ line htype hb hinline =>
    have hline : Text.noted (line ++ "\n") = [] := (Text.noted_newline line).trans hinline.noted
    rw [hb]
    simp only [List.mem_cons, List.not_mem_nil, or_false] at htype
    rcases htype with rfl | rfl <;> exact hline
  | branch hb hnone hhead hbody =>
    obtain ⟨hlined, hnoted⟩ := hbody.noted
    have helse : toldIn (.str "ELSE") inputs = [] := toldIn_of_not_has hnone
    rw [hb, RuleResult.text, (headed hhead hlined).2, hnoted]
    simp [helse]
  | branches hb _ hhead hbody hother =>
    obtain ⟨hlined, hnoted⟩ := hbody.noted
    obtain ⟨hif, hifnoted⟩ := headed hhead hlined
    obtain ⟨hotherlined, hothernoted⟩ := hother.noted
    rw [hb, RuleResult.text, hif.ended.noted, hifnoted, hnoted,
      (headed (by decide : Inline "else") hotherlined).2, hothernoted]
    simp
  | loop hb hhead hbody =>
    obtain ⟨hlined, hnoted⟩ := hbody.noted
    rw [hb, RuleResult.text, (headed hhead hlined).2, hnoted]
    simp

theorem Ruled.writes {result : RuleResult} (hflagged : Flagged b)
    (h : Ruled (Given inputs) b inputs result) :
    Writes ((bodies b).flatMap fun name => toldIn (.str name) inputs) b.givesValue result := by
  rw [← h.noted]
  exact (h.formed hflagged fun _ _ hbody => hbody.noted.1).writes

/-- The rule for a block writes what the block gives, with the comment lines of its bodies. -/
theorem writes_rule {config : Config} {rule : Rule}
    (hrule : (Language.python config).ruleFor b.type = .ok (some rule)) (hflagged : Flagged b)
    (hnumber : b.type = .str "math_number" → ∀ v, b.field "NUM" = .ok v → Countable v) :
    (rule b inputs).Makes (Given inputs)
      (Writes ((bodies b).flatMap fun name => toldIn (.str name) inputs) b.givesValue) :=
  (ruled_rule (inlined_given inputs) hrule hnumber).mono fun _ h => h.writes hflagged

/-! ## The helper -/

/-- The lines of the helper behind its head. -/
def primeBody : String := Text.joinLines (primeHelper.drop 1)

/-- None of them begins a comment or has a place to be filled, and each ends in something. -/
theorem lines_primeBody : ∃ css : List (List Char), primeHelper.drop 1 = css.map String.ofList ∧
    ∀ cs ∈ css, '\x7b' ∉ cs ∧ cs.getLast?.any (!Text.isBlank ·) = true ∧
      (Text.lines cs).filterMap (fun line => Text.remark? (Text.trimmed line)) = [] :=
  ⟨[_, _, _, _, _, _, _, _], rfl, by decide⟩

theorem plainly_primeBody : Plainly primeBody := by
  obtain ⟨css, hlines, hall⟩ := lines_primeBody
  unfold primeBody
  rw [hlines]
  refine ⟨Text.firm_joinLines ?_ ?_, ?_⟩
  · rw [← hlines]
    decide
  · refine List.forall_mem_map.mpr fun cs hcs => ?_
    unfold Firm
    rw [String.toList_ofList]
    exact (hall cs hcs).2.1
  · unfold noted
    rw [Text.gather_joinLines rfl, List.flatMap_map, List.flatMap_eq_nil_iff]
    intro cs hcs
    unfold Text.gather
    rw [String.toList_ofList]
    exact (hall cs hcs).2.2

theorem not_mem_primeBody : '\x7b' ∉ primeBody.toList := by
  obtain ⟨css, hlines, hall⟩ := lines_primeBody
  unfold primeBody
  rw [hlines]
  refine Text.not_mem_joinLines (by decide) (List.forall_mem_map.mpr fun cs hcs => ?_)
  rw [String.toList_ofList]
  exact (hall cs hcs).1

theorem body_prime (identifier : String) : Helpers.body identifier primeHelper =
    "def" ++ " " ++ identifier ++ "(n):" ++ "\n" ++ primeBody := by
  have hhead : Text.joinLines primeHelper =
      "def " ++ Helpers.placeholder ++ "(n):" ++ "\n" ++ primeBody :=
    String.intercalate_cons_of_ne_nil (List.cons_ne_nil _ _)
  have hbehind : '\x7b' ∉ ("(n):" ++ ("\n" ++ primeBody)).toList := by
    simp [String.toList_append, not_mem_primeBody]
  unfold Helpers.body
  rw [hhead, String.append_assoc, String.append_assoc,
    Text.replaceAll_place rfl (by decide) hbehind identifier, ← String.append_assoc,
    ← String.append_assoc]
  rfl

theorem plainly_prime {identifier : String} (h : Inline identifier) :
    Plainly (Helpers.body identifier primeHelper) := by
  have hhead : Inline ("def" ++ " " ++ identifier ++ "(n):") :=
    ((by decide : Inline "def").around (by decide) h).append (by decide)
  rw [body_prime]
  refine ⟨plainly_primeBody.firm.behind _, ?_⟩
  rw [hhead.noted_behind, plainly_primeBody.noted]

/-- Every helper of a pass is the helper for primes, and shows no comment lines. -/
theorem keeps_plainly (config : Config) : Keeps (Language.python config) (refused config) Asked
    fun _ s => InOrder s ∧ ∀ helper ∈ s.pass.helpers, Plainly helper.code where
  rules := fun b _ hrule inputs => asks_of_ruleFor b hrule inputs
  counted := fun _ _ h => ⟨⟨h.1.clean, h.1.bars, h.1.helpers⟩, h.2⟩
  told := fun _ _ _ _ h => h
  named := by
    intro E b inputs r s outcome after hr hcloses ha h
    obtain ⟨hgood, hplainly⟩ := h
    have hafter := answer_orderly (L := Language.python config) b
      ((Language.python config).plugs (refused config) inputs) r s hcloses hgood
    rw [ha] at hafter
    refine ⟨hafter, ?_⟩
    cases hr with
    | value input order => cases hcloses
    | statements input => cases hcloses
    | identifier hb hname =>
      rcases grant_cases ha with ⟨fault, -, -, rfl⟩ | ⟨g, hg, -, rfl⟩ <;> exact hplainly
    | counter hb =>
      change Session.ownIdentifier (.str "count") (.str "variable") s = _ at ha
      rw [Session.ownIdentifier_apply] at ha
      rcases grant_cases ha with ⟨fault, -, -, rfl⟩ | ⟨g, hg, -, rfl⟩ <;> exact hplainly
    | prime hb =>
      rcases helper_cases ha with ⟨hsame, -⟩ | ⟨-, g, hg, -, ⟨hsame, -⟩ | ⟨body, hmore, -, hmade⟩⟩
      · rwa [hsame]
      · rwa [hsame]
      · obtain ⟨texts, htexts, rfl⟩ := hmade
        cases linesOf_primeHelper.symm.trans htexts
        have hshaped : Shaped g.identifier :=
          (Helpers.clean_granted hgood.clean hgood.bars hg).shaped _
            (Helpers.taken_granted hgood.clean.toSound hg)
        rw [hmore]
        exact List.forall_mem_append.mpr
          ⟨hplainly, List.forall_mem_singleton.mpr (plainly_prime hshaped.inline)⟩
  opened := fun _ _ _ _ _ _ _ _ _ _ _ _ h => h

/-! ## Every chain is told -/

variable {config : Config} {indent : String}

/-- The code of the chain shows the comment lines that are told of it. -/
def Tells (config : Config) (c : Chain) : Prop :=
  c.All Noted → ∀ alone, Yields InOrder (Remarked alone (c.head?.any (·.givesValue)) (told alone c))
    ((Language.python config).codeOf (refused config) alone c)

theorem tells_nothing : Tells config .nil := fun _ _ => Yields.pure (.nothing rfl)

/-- What a rule is answered is what is given, when the codes in the inputs give it. -/
theorem answered {K : String → Code → Prop} {G : Request → String → Prop}
    (htarget : ∀ input, Yields InOrder (K input)
      ((Language.python config).codeOf (refused config) false (inputs.target (.str input))))
    (hvalue : ∀ input order code text, K input code →
      (Language.python config).Gives (.int order) code text →
        G (.value (.str input) (.int order)) text)
    (hstatements : ∀ input made text, K input (.statements made) →
      (Language.python config).nest made = .ok text → G (.statements (.str input)) text)
    (hname : ∀ r text, r.opensInput = false → Inline text → G r text) {r : Request}
    (hr : Asked b r) : Yields InOrder (G r) (answers config (refused config) b inputs r) := by
  intro s text s' hgood hrun
  rcases hcloses : r.opensInput with _ | _
  · have hafter : InOrder (answers config (refused config) b inputs r s).2 :=
      answer_orderly b _ r s hcloses hgood
    rw [hrun] at hafter
    exact ⟨hafter, hname r text hcloses (shaped_answer hgood hr hcloses hrun).inline⟩
  · cases hr with
    | value input order =>
      obtain ⟨horder, name, code, hkey, hcode, hgives⟩ := plugged_iff.mp hrun
      cases hkey
      obtain ⟨hafter, hkind⟩ := htarget input s code s' hgood hcode
      exact ⟨hafter, hvalue input order code text hkind hgives⟩
    | statements input =>
      obtain ⟨name, made, hkey, hcode, htext⟩ := nestedStatements_iff.mp hrun
      cases hkey
      obtain ⟨hafter, hkind⟩ := htarget input s _ s' hgood hcode
      exact ⟨hafter, hstatements input made text hkind htext⟩
    | _ => cases hcloses

theorem replied (hindent : config.indent = .str indent)
    (hgaps : ∀ c ∈ indent.toList, Text.isGap c = true) (hin : inputs.Every (Tells config))
    (hall : inputs.All Noted) {r : Request} (hr : Asked b r) :
    Yields InOrder (Given inputs r) (answers config (refused config) b inputs r) := by
  refine answered (K := fun input => Remarked false
    ((inputs.target (.str input)).head?.any (·.givesValue)) (toldIn (.str input) inputs))
    (fun input => ?_) (fun _ _ _ _ hremarked => hremarked.given)
    (fun _ _ _ hremarked => hremarked.nest hindent hgaps) (fun r _ hcloses hinline => ?_) hr
  · rw [toldIn_eq]
    exact hin.of_target tells_nothing _ (hall.of_target _) false
  · cases r with
    | value input order => cases hcloses
    | statements input => cases hcloses
    | _ => exact hinline

theorem Writes.between {lines before behind : List (List Char)} {alone gives gives' : Bool}
    {result : RuleResult} (h : Writes lines gives result) {first rest : String}
    (hended : Text.Ended first) (hfirst : noted first = before)
    (hquiet : gives = true → alone = false → first = "")
    (hrest : Remarked false gives' behind (.statements rest)) (hends : gives = true → rest = "")
    {code : Code} (hcode : result.between first rest = some code) :
    Remarked alone gives (before ++ lines ++ behind) code := by
  cases h with
  | @expression text order hinline =>
    cases hcode
    obtain rfl := hends rfl
    have hbehind : behind = [] := by
      cases hrest with
      | nothing hnone => exact hnone
      | statements _ hlined _ => exact absurd rfl hlined.ne_empty
    rw [String.append_empty, hbehind, List.append_nil, List.append_nil]
    refine .expression (hinline.firm.behind first) ?_ fun halone => ?_
    · rw [hended.noted, hfirst, hinline.noted, List.append_nil]
    · rwa [hquiet rfl halone, String.empty_append]
  | @code text lines hlined hnoted =>
    cases hcode
    cases hrest with
    | nothing hnone =>
      rw [String.append_empty, hnone, List.append_nil]
      refine .statements rfl (hlined.behind first) ?_
      rw [hended.noted, hfirst, hnoted]
    | statements _ hrestlined hrestnoted =>
      refine .statements rfl (hrestlined.behind _) ?_
      rw [(hended.append hlined.ended).noted, hended.noted, hfirst, hnoted, hrestnoted]

/-- One block more: an enabled one tells its comments and those below it, its bodies, and then
the chain behind it. -/
theorem tells_enabled (hmarker : config.commentMarker = .str "# ")
    (hindent : config.indent = .str indent) (hgaps : ∀ c ∈ indent.toList, Text.isGap c = true)
    {next : Chain} (hb : Noted b inputs next) (henabled : b.isDisabled = false)
    (hin : inputs.Every (Tells config)) (hall : inputs.All Noted) {gives : Bool}
    (hnext : Yields InOrder (Remarked false gives (told false next))
      ((Language.python config).codeOf (refused config) false next)) (alone : Bool) :
    Yields InOrder (Remarked alone b.givesValue (told alone (.cons b inputs next)))
      ((Language.python config).codeOf (refused config) alone (.cons b inputs next)) := by
  refine codeOf_yields
    (P := Writes ((bodies b).flatMap fun name => toldIn (.str name) inputs) b.givesValue)
    henabled (fun _ => InOrder.counted) (fun rule hrule => ?_) hnext
    fun result before behind code after s' hwritten hbefore hbehind hchain hcode => ?_
  · exact (writes_rule hrule (hb.flagged henabled) (hb.number henabled)).perform
      (fun r => replied hindent hgaps hin hall) (asks_of_ruleFor b hrule inputs)
  · obtain ⟨hended, hnoted⟩ := noted_remarks hmarker hbefore
    rw [told, henabled, if_neg Bool.false_ne_true]
    exact hwritten.between hended hnoted (unremarked hbefore) hbehind (hb.unfollowed hchain) hcode

/-- Every chain is told: by induction on the chain, with what is plugged into its blocks, while
the names that are given out stay in good order. -/
theorem tells (hmarker : config.commentMarker = .str "# ") (hindent : config.indent = .str indent)
    (hgaps : ∀ c ∈ indent.toList, Text.isGap c = true) (c : Chain) : Tells config c := by
  induction c using Chain.inductionOn with
  | nil => exact tells_nothing
  | cons b inputs next hin hnext =>
    intro hall alone
    obtain ⟨hb, hbelow, hbehind⟩ := Chain.all_cons.mp hall
    simp only [Chain.head?, Option.any_some]
    rcases hdisabled : b.isDisabled with _ | _
    · exact tells_enabled hmarker hindent hgaps hb hdisabled hin hbelow (hnext hbehind false) alone
    · rw [codeOf_disabled hdisabled, told, if_pos hdisabled]
      rcases hgives : b.givesValue with _ | _
      · intro s code s' hgood hrun
        obtain ⟨hafter, hremarked⟩ := hnext hbehind false s code s' hgood hrun
        exact ⟨hafter, hremarked.behind⟩
      · -- Nothing is behind a block that gives a value.
        rw [hb.ends hgives]
        exact Yields.pure (.nothing rfl)

/-- The comment lines of a program, without their indents and bare ones, are those that are told
of its top blocks: the comment of each block that has lines of its own, then the comments of all
blocks below its inputs for values, each once and in their order. -/
theorem comments_told_once (hmarker : config.commentMarker = .str "# ")
    (hindent : config.indent = .str indent) (hgaps : ∀ c ∈ indent.toList, Text.isGap c = true)
    {w : Workspace} (_ : w.Acyclic) (hw : w.All Noted) {s : Session}
    (hs : Lived (Language.python config) s) {program : String}
    (hmade : ((Language.python config).pass w s).1 = .ok program) :
    Text.remarks program = w.trees.flatMap (told true) := by
  have hgood : InOrder ((Language.python config).opened w s) := hs.opened_orderly w
  have hplainly : ∀ helper ∈ ((Language.python config).pass w s).2.pass.helpers,
      Plainly helper.code :=
    ((keeps_plainly config).pass w s hs.not_running ⟨hgood, List.forall_mem_nil _⟩).2
  refine remarks_pass (fun _ => rfl) hs.not_running hgood (fun top htop => ?_) hplainly hmade
  exact tells hmarker hindent hgaps top (hw top htop) true

/-- Each remark on the branch, on its condition and on its body is told once. -/
theorem remarkedBranch_told :
    ({} : Config).commentMarker = .str "# " ∧ ({} : Config).indent = .str "  " ∧
      (∀ c ∈ "  ".toList, Text.isGap c = true) ∧ (Edit.build remarkedBranch).Acyclic ∧
      (Edit.build remarkedBranch).All Noted ∧
      Lived (Language.python {}) (Session.new (Language.python {})) ∧
      ((Language.python {}).pass (Edit.build remarkedBranch)
        (Session.new (Language.python {}))).1 = .ok
          "# if\n\n# else\n# yes\nif -2:\n  # end\n\n  print('')\n" ∧
      Text.remarks "# if\n\n# else\n# yes\nif -2:\n  # end\n\n  print('')\n" =
        (Edit.build remarkedBranch).trees.flatMap (told true) ∧
      (Edit.build remarkedBranch).trees.flatMap (told true) =
        ["# if".toList, "# else".toList, "# yes".toList, "# end".toList] := by
  have hgaps : ∀ c ∈ "  ".toList, Text.isGap c = true := List.all_eq_true.mp rfl
  have hac := Edit.acyclic_build remarkedBranch_treelike
  have hmade : ((Language.python {}).pass (Edit.build remarkedBranch)
      (Session.new (Language.python {}))).1 = .ok
        "# if\n\n# else\n# yes\nif -2:\n  # end\n\n  print('')\n" := rfl
  exact ⟨rfl, rfl, hgaps, hac, remarkedBranch_noted, .new, hmade,
    comments_told_once rfl rfl hgaps hac remarkedBranch_noted .new hmade, rfl⟩

end BlockCode.Python
