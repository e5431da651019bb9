-- The comments before the code of a block: its own, and those of all that is plugged into
-- its inputs for values. They owe nothing to how code is made, only to the comments of the
-- blocks, each in its turn.
import BlockCode.Proofs.Generation.Outcome
import BlockCode.Proofs.Workspace.Wiring

namespace BlockCode

open BlockCode.Language

namespace Except

variable {ε α β : Type}

theorem mapM_ok {f : α → Except ε β} {values : List α} (h : ∀ a ∈ values, ∃ b, f a = .ok b) :
    ∃ results, values.mapM f = .ok results := by
  induction values with
  | nil => exact ⟨[], rfl⟩
  | cons a rest ih =>
    obtain ⟨b, hb⟩ := h a List.mem_cons_self
    obtain ⟨bs, hbs⟩ := ih fun c hc => h c (List.mem_cons_of_mem a hc)
    exact ⟨b :: bs, by rw [List.mapM_cons, hb, hbs]; rfl⟩

/-- What holds of every result of the work holds of all that it comes to on a list. -/
theorem forall_of_mapM {f : α → Except ε β} {P : β → Prop}
    (h : ∀ a b, f a = .ok b → P b) {values : List α} {results : List β}
    (hrun : values.mapM f = .ok results) : ∀ b ∈ results, P b := by
  induction values generalizing results with
  | nil =>
    cases hrun
    exact List.forall_mem_nil _
  | cons a rest ih =>
    rw [List.mapM_cons] at hrun
    rcases hfirst : f a with fault | b
    · rw [hfirst] at hrun
      cases hrun
    · rcases hrest : rest.mapM f with fault | bs
      · rw [hfirst, hrest] at hrun
        cases hrun
      · rw [hfirst, hrest] at hrun
        cases hrun
        exact List.forall_mem_cons.mpr ⟨h a b hfirst, ih hrest⟩

end Except

/-! ## Comments -/

/-- The comment is a text, or there is none. -/
def Block.Commented (b : Block) : Prop :=
  b.comment = .null ∨ ∃ signs, b.comment.spelling? = some signs

theorem Block.Commented.commentOf {b : Block} (h : b.Commented) : ∃ s, b.commentOf = .ok s := by
  unfold Block.commentOf Block.commentText
  rcases h with h | ⟨signs, h⟩
  · exact ⟨"", by rw [h]; rfl⟩
  · cases hcomment : b.comment with
    | str s =>
      by_cases hs : (Value.str s).truth = true
      · exact ⟨s, by rw [if_pos hs]⟩
      · exact ⟨"", by rw [if_neg hs]⟩
    | torn t => exact ⟨t.text, rfl⟩
    | _ =>
      rw [hcomment] at h
      cases h

/-- The comments of blocks, one after the other, each ended by a newline. -/
def said (blocks : List Block) : Except Fault String := do
  let texts ← blocks.mapM Block.commentOf
  return String.join ((texts.filter (· != "")).map (· ++ "\n"))

theorem comments_eq (c : Chain) : c.comments = said c.blocks := rfl

theorem said_append (left right : List Block) : said (left ++ right) = do
    let first ← said left
    let second ← said right
    return first ++ second := by
  unfold said
  rw [List.mapM_append]
  rcases left.mapM Block.commentOf with fault | texts
  · rfl
  · rcases right.mapM Block.commentOf with fault | more
    · rfl
    · show Except.ok _ = Except.ok _
      rw [List.filter_append, List.map_append, String.join_append]

theorem said_cons (b : Block) (rest : List Block) : said (b :: rest) = do
    let own ← b.commentOf
    let others ← said rest
    return (if own == "" then "" else own ++ "\n") ++ others := by
  unfold said
  rw [List.mapM_cons]
  rcases b.commentOf with fault | own
  · rfl
  · rcases rest.mapM Block.commentOf with fault | texts
    · rfl
    · show Except.ok _ = Except.ok _
      by_cases hown : own = ""
      · simp [hown]
      · simp [hown, String.join_cons]

theorem said_nothing {blocks : List Block} (h : ∀ b ∈ blocks, b.comment = .null) :
    said blocks = .ok "" := by
  have htexts : blocks.mapM Block.commentOf = .ok (blocks.map fun _ => "") := by
    induction blocks with
    | nil => rfl
    | cons b rest ih =>
      have hb : b.commentOf = .ok "" := by
        simp [Block.commentOf, Block.commentText, h b List.mem_cons_self, Value.truth]
      rw [List.mapM_cons, hb, ih fun c hc => h c (List.mem_cons_of_mem b hc)]
      rfl
  unfold said
  rw [htexts]
  show Except.ok (String.join (((blocks.map fun _ => "").filter (· != "")).map (· ++ "\n"))) = _
  rw [List.filter_eq_nil_iff.mpr (by simp)]
  rfl

namespace Language

variable {L : Language} {nested : Workspace → Action String} {b : Block} {inputs : Inputs}

/-- The comment lines for all blocks of a tree. -/
def commentOn (L : Language) (c : Chain) : Except Fault String := do
  let comments ← c.comments
  if comments == "" then return ""
  L.config.marked comments

theorem join_plugComments (L : Language) (nested : Workspace → Action String) (inputs : Inputs) :
    (String.join <$> (L.plugs nested inputs).mapM L.plugComment) =
      String.join <$> (inputs.targets .value).mapM L.commentOn := by
  induction inputs using Inputs.inductionOn with
  | nil => rfl
  | cons name kind target rest ih =>
    unfold plugs Inputs.targets
    cases kind with
    | value =>
      have hplug : L.plugComment
          ⟨name, .value, target, L.codeOf nested false target⟩ = L.commentOn target := rfl
      simp only [beq_self_eq_true, if_true, List.mapM_cons, hplug]
      rcases L.commentOn target with fault | own
      · rfl
      · revert ih
        rcases (L.plugs nested rest).mapM L.plugComment with fault | texts <;>
          rcases (rest.targets .value).mapM L.commentOn with fault' | texts' <;> intro ih
        · cases ih
          rfl
        · cases ih
        · cases ih
        · have htexts : String.join texts = String.join texts' := Except.ok.inj ih
          show Except.ok (String.join (own :: texts)) = Except.ok (String.join (own :: texts'))
          rw [String.join_cons, String.join_cons, htexts]
    | statement =>
      have hplug : L.plugComment
          ⟨name, .statement, target, L.codeOf nested false target⟩ = .ok "" := rfl
      simp only [List.mapM_cons, hplug]
      rw [if_neg (by decide), ← ih]
      rcases (L.plugs nested rest).mapM L.plugComment with fault | texts
      · rfl
      · show Except.ok (String.join ("" :: texts)) = Except.ok (String.join texts)
        rw [String.join_cons, String.empty_append]

/-- The comment lines before the code of a block come from itself and from what is plugged
into its inputs for values. -/
theorem commentsBefore_eq (L : Language) (nested : Workspace → Action String) (b : Block)
    (inputs : Inputs) : L.commentsBefore b (L.plugs nested inputs) = do
      let own ← L.ownComment b
      let others ← String.join <$> (inputs.targets .value).mapM L.commentOn
      return own ++ others := by
  rw [← join_plugComments L nested]
  unfold commentsBefore
  rcases L.ownComment b with fault | own
  · rfl
  · rcases (L.plugs nested inputs).mapM L.plugComment with fault | texts <;> rfl

/-! ## Comments can be written -/

variable {marker : String}

theorem comments_ok {c : Chain} (h : ∀ b ∈ c.blocks, b.Commented) :
    ∃ text, c.comments = .ok text := by
  obtain ⟨texts, htexts⟩ := Except.mapM_ok fun b hb => (h b hb).commentOf
  unfold Chain.comments
  rw [htexts]
  exact ⟨_, rfl⟩

theorem commentOn_ok (hmarker : L.config.commentMarker = .str marker) {c : Chain}
    (h : ∀ b ∈ c.blocks, b.Commented) : ∃ text, L.commentOn c = .ok text := by
  obtain ⟨comments, hcomments⟩ := comments_ok h
  unfold commentOn
  rw [hcomments]
  show ∃ text, (if comments == "" then pure "" else L.config.marked comments) = .ok text
  split
  · exact ⟨_, rfl⟩
  · unfold Config.marked
    rw [hmarker]
    exact ⟨_, rfl⟩

theorem ownComment_ok (hmarker : L.config.commentMarker = .str marker) (h : b.Commented) :
    ∃ text, L.ownComment b = .ok text := by
  obtain ⟨comment, hcomment⟩ := h.commentOf
  unfold ownComment
  rw [hcomment]
  show ∃ text, (if comment == "" then pure "" else L.config.comment comment) = .ok text
  split
  · exact ⟨_, rfl⟩
  · unfold Config.comment
    rw [hmarker]
    exact ⟨_, rfl⟩

theorem remarks_ok (hmarker : L.config.commentMarker = .str marker) (hb : b.Commented)
    (hinputs : ∀ c ∈ inputs.targets .value, ∀ b ∈ c.blocks, b.Commented) (alone : Bool) :
    ∃ text, L.remarks alone b (L.plugs nested inputs) = .ok text := by
  unfold remarks
  split
  · obtain ⟨own, hown⟩ := ownComment_ok hmarker hb
    obtain ⟨others, hothers⟩ := Except.mapM_ok fun c hc => commentOn_ok hmarker (hinputs c hc)
    rw [commentsBefore_eq, hown, hothers]
    exact ⟨_, rfl⟩
  · exact ⟨"", rfl⟩

end Language
end BlockCode
