-- The same error about other blocks, again and again. Each copy is an error of its own, with the
-- class and all attributes of the first one but the block; its text begins with the bare message,
-- so the places of earlier blocks do not pile up in it. To make a copy changes no error that is
-- there, whoever holds it.
import BlockCode.Generation.ErrorObject
import BlockCode.Proofs.Generation.Keeps
import Mathlib.Data.List.Basic

namespace BlockCode

/-! ## Attributes -/

namespace Attributes

@[simp] theorem set_self (own : Attributes) (name : String) (a : Attribute) :
    own.set name a name = some a := if_pos rfl

theorem set_other {name other : String} (h : other ≠ name) (own : Attributes) (a : Attribute) :
    own.set name a other = own other := if_neg h

theorem set_set (own : Attributes) (name : String) (a a' : Attribute) :
    (own.set name a).set name a' = own.set name a' := by
  funext other
  by_cases h : other = name
  · rw [h, set_self, set_self]
  · rw [set_other h, set_other h, set_other h]

theorem update_empty (other : Attributes) : empty.update other = other := by
  funext name
  exact Option.or_none

end Attributes

/-! ## What a copy is -/

namespace ErrorObject

/-- The error has a message. -/
def Told (e : ErrorObject) : Prop := ∃ message, e.attributes "message" = some message

/-- The text of the message alone. -/
def said (e : ErrorObject) : String := ((e.attributes "message").map Attribute.text).getD ""

/-- The error with an attribute. -/
def given (e : ErrorObject) (name : String) (a : Attribute) : ErrorObject :=
  { e with attributes := e.attributes.set name a }

/-- The error about another block. -/
def about (e : ErrorObject) (block : Option Block) : ErrorObject :=
  { e.given "block" (.ofBlock block) with shown := e.said ++ GenerationError.location block }

/-- An error of a class that has nothing of its own, as it is made. -/
def plain (cls : ErrorClass) (message : Value) (block : Option Block) : ErrorObject :=
  (({ cls := cls } : ErrorObject).given "message" (.value message)).about block

/-- The error that a language has no rule for a type, as it is made. -/
def unsupported (language type : Value) (block : Option Block) : ErrorObject :=
  (((({ cls := .unsupportedType } : ErrorObject).given "language" (.value language)).given
    "block_type" (.value type)).given "message"
      (.value (.str (GenerationError.unsupportedType language type none).message))).about block

variable {e : ErrorObject}

theorem given_self (e : ErrorObject) (name : String) (a : Attribute) :
    (e.given name a).attributes name = some a := Attributes.set_self e.attributes name a

theorem given_other {name other : String} (h : other ≠ name) (e : ErrorObject) (a : Attribute) :
    (e.given name a).attributes other = e.attributes other := Attributes.set_other h e.attributes a

theorem about_other (e : ErrorObject) (block : Option Block) {name : String} (h : name ≠ "block") :
    (e.about block).attributes name = e.attributes name := given_other h e _

theorem about_message (e : ErrorObject) (block : Option Block) :
    (e.about block).attributes "message" = e.attributes "message" :=
  about_other e block (by decide)

theorem Told.about (h : e.Told) (block : Option Block) : (e.about block).Told := by
  obtain ⟨message, hmessage⟩ := h
  exact ⟨message, by rw [about_message, hmessage]⟩

theorem told_plain (cls : ErrorClass) (message : Value) (block : Option Block) :
    (plain cls message block).Told :=
  Told.about ⟨.value message, given_self _ "message" _⟩ block

theorem told_unsupported (language type : Value) (block : Option Block) :
    (unsupported language type block).Told :=
  Told.about ⟨_, given_self _ "message" _⟩ block

theorem Told.given (h : e.Told) (name : String) (a : Attribute) : (e.given name a).Told := by
  by_cases hname : "message" = name
  · rw [← hname]
    exact ⟨a, given_self e "message" a⟩
  · obtain ⟨message, hmessage⟩ := h
    exact ⟨message, by rw [given_other hname, hmessage]⟩

/-- Of all blocks that an error was about, it tells the last one only. -/
theorem about_about (e : ErrorObject) (block block' : Option Block) :
    (e.about block).about block' = e.about block' := by
  have hsaid : (e.about block).said = e.said := by
    unfold said
    rw [about_message]
  have hattributes : ((e.about block).about block').attributes = (e.about block').attributes :=
    Attributes.set_set e.attributes "block" _ _
  have hshown : ((e.about block).about block').shown = (e.about block').shown := by
    show (e.about block).said ++ _ = _
    rw [hsaid]
    rfl
  rw [ErrorObject.mk.injEq]
  exact ⟨rfl, hattributes, hshown⟩

theorem shown_about {message : Attribute} (h : e.attributes "message" = some message)
    (block : Option Block) :
    (e.about block).shown = message.text ++ GenerationError.location block := by
  show e.said ++ _ = _
  rw [said, h]
  rfl

theorem format_about (h : e.Told) (block : Option Block) :
    (e.given "block" (.ofBlock block)).format = .ok (e.about block).shown := by
  obtain ⟨message, hmessage⟩ := h
  have hkept : (e.given "block" (.ofBlock block)).attributes "message" = some message := by
    rw [given_other (by decide), hmessage]
  rw [shown_about hmessage, ← Attribute.location_ofBlock, format, get, get, hkept, given_self]
  rfl

end ErrorObject

/-! ## Steps -/

namespace ErrorWork

open ErrorObject

variable {errors : Errors} {e : Nat} {own : ErrorObject}

theorem look_at (h : errors[e]? = some own) : look e errors = (.ok own, errors) := by
  simp [look, h]

theorem modify_last (errors : Errors) (own : ErrorObject) (f : ErrorObject → ErrorObject) :
    modify errors.length f (errors ++ [own]) = (.ok (), errors ++ [f own]) := by
  unfold modify Effect.change
  simp [List.modify_eq_take_drop]

theorem assign_last (errors : Errors) (own : ErrorObject) (name : String) (a : Attribute) :
    assign errors.length name a (errors ++ [own]) = (.ok (), errors ++ [own.given name a]) :=
  modify_last errors own _

theorem settle_last (h : own.Told) (errors : Errors) (block : Option Block) :
    settle errors.length (errors ++ [own.given "block" (.ofBlock block)]) =
      (.ok (), errors ++ [own.about block]) := by
  unfold settle
  rw [Effect.bind_ok (look_at (List.getElem?_concat_length ..)), own.format_about h]
  exact modify_last errors _ _

theorem fill_last (errors : Errors) (own : ErrorObject) (message : Value) (block : Option Block) :
    fill errors.length message block (errors ++ [own]) =
      (.ok (), errors ++ [(own.given "message" (.value message)).about block]) := by
  have htold : (own.given "message" (.value message)).Told := ⟨_, given_self ..⟩
  unfold fill
  rw [Effect.bind_ok (assign_last errors own ..), Effect.bind_ok (assign_last errors _ ..)]
  exact settle_last htold errors block

theorem make_run (cls : ErrorClass) (message : Value) (block : Option Block) (errors : Errors) :
    make cls message block errors = (.ok errors.length, errors ++ [plain cls message block]) := by
  have hblank : blank cls errors = (.ok errors.length, errors ++ [{ cls := cls }]) := rfl
  unfold make
  rw [Effect.bind_ok hblank, Effect.bind_ok (fill_last errors ..)]
  rfl

theorem makeUnsupported_run (language type : Value) (block : Option Block) (errors : Errors) :
    makeUnsupported language type block errors =
      (.ok errors.length, errors ++ [unsupported language type block]) := by
  have hblank : blank .unsupportedType errors =
      (.ok errors.length, errors ++ [{ cls := .unsupportedType }]) := rfl
  unfold makeUnsupported
  rw [Effect.bind_ok hblank, Effect.bind_ok (assign_last errors ..),
    Effect.bind_ok (assign_last errors ..), Effect.bind_ok (fill_last errors ..)]
  rfl

theorem withBlock_run (h : errors[e]? = some own) (htold : own.Told) (block : Option Block) :
    withBlock e block errors = (.ok errors.length, errors ++ [own.about block]) := by
  have hblank : blank own.cls errors = (.ok errors.length, errors ++ [{ cls := own.cls }]) := rfl
  have hcopy : modify errors.length
        (fun error => { error with attributes := error.attributes.update own.attributes })
        (errors ++ [{ cls := own.cls }]) =
      (.ok (), errors ++ [{ own with shown := "" }]) := by
    rw [modify_last, Attributes.update_empty]
  have htold' : ({ own with shown := "" } : ErrorObject).Told := htold
  unfold withBlock
  rw [Effect.bind_ok (look_at h), Effect.bind_ok hblank, Effect.bind_ok hcopy,
    Effect.bind_ok (assign_last errors ..), Effect.bind_ok (settle_last htold' errors block)]
  rfl

/-- A copy for each of the blocks, each made from the one before, is a copy of the first error for
each of them. -/
theorem foldlM_withBlock_run (h : errors[e]? = some own) (htold : own.Told)
    (blocks : List (Option Block)) (block : Option Block) :
    (blocks ++ [block]).foldlM withBlock e errors =
      (.ok (errors.length + blocks.length), errors ++ (blocks ++ [block]).map own.about) := by
  induction blocks generalizing e own errors with
  | nil =>
    rw [List.nil_append, List.foldlM_cons, Effect.bind_ok (withBlock_run h htold block)]
    rfl
  | cons next rest ih =>
    have hsame : (own.about next).about = own.about := funext (own.about_about next)
    rw [List.cons_append, List.foldlM_cons, Effect.bind_ok (withBlock_run h htold next),
      ih (List.getElem?_concat_length ..) (htold.about next), hsame, List.length_append,
      List.append_assoc, List.length_singleton, List.length_cons, Nat.add_assoc, Nat.add_comm 1]
    rfl

theorem last_copy (errors : Errors) (own : ErrorObject) (blocks : List (Option Block))
    (block : Option Block) :
    (errors ++ (blocks ++ [block]).map own.about)[errors.length + blocks.length]? =
      some (own.about block) := by
  simp

/-- On the way there is an error at each place that is reached: the first one, or a copy of it. -/
theorem foldlM_withBlock_reaches (h : errors[e]? = some own) (htold : own.Told)
    (front : List (Option Block)) :
    ∃ place held, front.foldlM withBlock e errors = (.ok place, errors ++ front.map own.about) ∧
      (errors ++ front.map own.about)[place]? = some held := by
  rcases List.eq_nil_or_concat' front with rfl | ⟨before, block, rfl⟩
  · have hnone : errors ++ [].map own.about = errors := List.append_nil errors
    exact ⟨e, own, by rw [hnone]; rfl, by rw [hnone, h]⟩
  · exact ⟨_, _, foldlM_withBlock_run h htold before block, last_copy errors own before block⟩

theorem withBlock_none (h : errors[e]? = none) (block : Option Block) :
    (withBlock e block errors).2 = errors := by
  have hlook : look e errors = (.error .noParts, errors) := by simp [look, h]
  unfold withBlock
  rw [Effect.bind_error hlook]

end ErrorWork

/-! ## The errors of generation -/

namespace ErrorObject

/-- The object is the error: it has what the error has, and shows the text of the error. -/
structure Stands (o : ErrorObject) (e : GenerationError) : Prop where
  cls : o.cls = e.kind.cls
  message : ∃ message, o.attributes "message" = some message ∧ message.text = e.message
  block : o.attributes "block" = some (.ofBlock e.block)
  own : ∀ language type, e.kind = .unsupportedType language type →
    o.attributes "language" = some (.value language) ∧
      o.attributes "block_type" = some (.value type)
  shown : o.shown = e.text

theorem Stands.about {o : ErrorObject} {e : GenerationError} (h : o.Stands e)
    (block : Option Block) : (o.about block).Stands (e.withBlock block) := by
  obtain ⟨message, hmessage, htext⟩ := h.message
  constructor
  · exact h.cls
  · exact ⟨message, by rw [about_message, hmessage], htext⟩
  · exact given_self o "block" _
  · intro language type hkind
    rw [about_other o block (by decide), about_other o block (by decide)]
    exact h.own language type hkind
  · rw [shown_about hmessage, htext]
    rfl

theorem stands_plain {cls : ErrorClass} (hcls : cls ≠ .unsupportedType) (message : Value)
    (block : Option Block) : ∃ kind : ErrorKind,
      (plain cls message block).Stands { kind, message := message.shown, block } := by
  obtain ⟨kind, rfl⟩ : ∃ kind : ErrorKind, kind.cls = cls := by
    cases cls with
    | general => exact ⟨.general, rfl⟩
    | unsupportedType => exact absurd rfl hcls
    | invalidOrder => exact ⟨.invalidOrder, rfl⟩
    | malformedValue => exact ⟨.malformedValue, rfl⟩
    | malformedStatement => exact ⟨.malformedStatement, rfl⟩
    | reentrantPass => exact ⟨.reentrantPass, rfl⟩
  refine ⟨kind, rfl, ⟨.value message, rfl, rfl⟩, rfl, ?_, rfl⟩
  rintro language type rfl
  exact absurd rfl hcls

theorem stands_unsupported (language type : Value) (block : Option Block) :
    (unsupported language type block).Stands (.unsupportedType language type block) := by
  refine ⟨rfl, ⟨_, rfl, rfl⟩, rfl, ?_, rfl⟩
  rintro _ _ ⟨⟩
  exact ⟨rfl, rfl⟩

end ErrorObject

/-! ## Histories -/

/-- What can be done with errors. -/
inductive ErrorStep where
  | make (cls : ErrorClass) (plain : cls ≠ .unsupportedType) (message : Value)
    (block : Option Block)
  | makeUnsupported (language type : Value) (block : Option Block)
  | withBlock (e : Nat) (block : Option Block)
  /-- Whoever holds an error may give it an attribute. -/
  | assign (e : Nat) (name : String) (a : Attribute)

namespace ErrorStep

/-- The errors after a step. -/
def after (errors : Errors) : ErrorStep → Errors
  | make cls _ message block => (ErrorWork.make cls message block errors).2
  | makeUnsupported language type block =>
    (ErrorWork.makeUnsupported language type block errors).2
  | withBlock e block => (ErrorWork.withBlock e block errors).2
  | assign e name a => (ErrorWork.assign e name a errors).2

/-- All errors that there are after some steps. -/
def made (history : List ErrorStep) : Errors := history.foldl after []

/-- The step gives no attribute to this error. -/
def Spares (e : Nat) (step : ErrorStep) : Prop := ∀ name a, step ≠ assign e name a

/-- What can come to the errors that are there: one that is made, or one that is the same as one of
them but for its block. -/
inductive Comes (errors : Errors) : ErrorObject → Prop
  | plain {cls : ErrorClass} (hcls : cls ≠ .unsupportedType) (message : Value)
    (block : Option Block) : Comes errors (.plain cls message block)
  | unsupported (language type : Value) (block : Option Block) :
    Comes errors (.unsupported language type block)
  | copy {own : ErrorObject} (h : own ∈ errors) (block : Option Block) : Comes errors (own.about block)

variable {errors : Errors} {e : Nat} {step : ErrorStep} {new : ErrorObject}

theorem Comes.told (h : Comes errors new) (htold : ∀ own ∈ errors, own.Told) : new.Told := by
  cases h with
  | plain _ message block => exact ErrorObject.told_plain _ message block
  | unsupported language type block => exact ErrorObject.told_unsupported language type block
  | copy hmem block => exact (htold _ hmem).about block

theorem Comes.stands (h : Comes errors new) (hstands : ∀ own ∈ errors, ∃ error, own.Stands error) :
    ∃ error, new.Stands error := by
  cases h with
  | plain hcls message block =>
    obtain ⟨kind, hkind⟩ := ErrorObject.stands_plain hcls message block
    exact ⟨_, hkind⟩
  | unsupported language type block =>
    exact ⟨_, ErrorObject.stands_unsupported language type block⟩
  | copy hmem block =>
    obtain ⟨error, herror⟩ := hstands _ hmem
    exact ⟨_, herror.about block⟩

/-- All that a step can do: an error comes behind those that are there, or one of them gets an
attribute, or there is nothing to copy. -/
theorem after_cases (h : ∀ own ∈ errors, own.Told) (step : ErrorStep) :
    (∃ new, Comes errors new ∧ step.after errors = errors ++ [new]) ∨
      (∃ e name a, step = assign e name a ∧
        step.after errors = errors.modify e (·.given name a)) ∨
      step.after errors = errors := by
  cases step with
  | make cls hcls message block =>
    refine Or.inl ⟨_, .plain hcls message block, ?_⟩
    rw [after, ErrorWork.make_run]
  | makeUnsupported language type block =>
    refine Or.inl ⟨_, .unsupported language type block, ?_⟩
    rw [after, ErrorWork.makeUnsupported_run]
  | withBlock e block =>
    cases he : errors[e]? with
    | none => exact Or.inr (Or.inr (ErrorWork.withBlock_none he block))
    | some own =>
      have hmem := List.mem_of_getElem? he
      refine Or.inl ⟨_, .copy hmem block, ?_⟩
      rw [after, ErrorWork.withBlock_run he (h own hmem)]
  | assign e name a => exact Or.inr (Or.inl ⟨e, name, a, rfl, rfl⟩)

theorem told_after (h : ∀ own ∈ errors, own.Told) (step : ErrorStep) :
    ∀ own ∈ step.after errors, own.Told := by
  rcases after_cases h step with ⟨new, hnew, hafter⟩ | ⟨e, name, a, -, hafter⟩ | hafter
  · rw [hafter]
    exact List.forall_mem_append.mpr ⟨h, List.forall_mem_singleton.mpr (hnew.told h)⟩
  · rw [hafter]
    intro own hown
    obtain ⟨place, hplace⟩ := List.mem_iff_getElem?.mp hown
    rw [List.getElem?_modify, Option.map_eq_map, Option.map_eq_some_iff] at hplace
    obtain ⟨before, hbefore, rfl⟩ := hplace
    have htold := h before (List.mem_of_getElem? hbefore)
    split
    · exact htold.given name a
    · exact htold
  · rwa [hafter]

theorem after_kept (h : ∀ own ∈ errors, own.Told) {held : ErrorObject}
    (he : errors[e]? = some held) (hspares : step.Spares e) : (step.after errors)[e]? = some held := by
  rcases after_cases h step with ⟨new, -, hafter⟩ | ⟨e', name, a, rfl, hafter⟩ | hafter
  · rw [hafter, List.getElem?_append_left (List.getElem?_eq_some_iff.mp he).1, he]
  · have hne : e' ≠ e := by
      rintro rfl
      exact hspares name a rfl
    rw [hafter, List.getElem?_modify_ne _ _ hne, he]
  · rw [hafter, he]

theorem told_foldl (h : ∀ own ∈ errors, own.Told) (steps : List ErrorStep) :
    ∀ own ∈ steps.foldl after errors, own.Told := by
  induction steps generalizing errors with
  | nil => exact h
  | cons step rest ih => exact ih (told_after h step)

theorem foldl_kept (h : ∀ own ∈ errors, own.Told) {held : ErrorObject}
    (he : errors[e]? = some held) {steps : List ErrorStep} (hspares : ∀ step ∈ steps, step.Spares e) :
    (steps.foldl after errors)[e]? = some held := by
  induction steps generalizing errors with
  | nil => exact he
  | cons step rest ih =>
    obtain ⟨hstep, hrest⟩ := List.forall_mem_cons.mp hspares
    exact ih (told_after h step) (after_kept h he hstep) hrest

/-- As long as nobody gives an error an attribute, all of them are errors of generation. -/
theorem stands_foldl (h : ∀ own ∈ errors, own.Told)
    (hstands : ∀ own ∈ errors, ∃ error, own.Stands error) {steps : List ErrorStep}
    (hspares : ∀ step ∈ steps, ∀ e, step.Spares e) :
    ∀ own ∈ steps.foldl after errors, ∃ error, own.Stands error := by
  induction steps generalizing errors with
  | nil => exact hstands
  | cons step rest ih =>
    obtain ⟨hstep, hrest⟩ := List.forall_mem_cons.mp hspares
    refine ih (told_after h step) ?_ hrest
    rcases after_cases h step with ⟨new, hnew, hafter⟩ | ⟨e, name, a, hassign, -⟩ | hafter
    · rw [hafter]
      exact List.forall_mem_append.mpr ⟨hstands, List.forall_mem_singleton.mpr (hnew.stands hstands)⟩
    · exact absurd hassign (hstep e name a)
    · rwa [hafter]

end ErrorStep

open ErrorStep ErrorWork

/-- The second error is the first one, but for the block that it is about. It shows the bare
message, and behind it the place of that block alone, if the block has an id that counts. -/
structure ErrorObject.SameAbout (block : Option Block) (own last : ErrorObject) : Prop where
  cls : last.cls = own.cls
  kept : ∀ name, name ≠ "block" → last.attributes name = own.attributes name
  shown : ∃ message, own.attributes "message" = some message ∧
    last.shown = message.text ++ GenerationError.location block
  block : last.attributes "block" = some (.ofBlock block)

theorem ErrorObject.Told.sameAbout {own : ErrorObject} (h : own.Told) (block : Option Block) :
    SameAbout block own (own.about block) := by
  obtain ⟨message, hmessage⟩ := h
  constructor
  · rfl
  · exact fun name hname => own.about_other block hname
  · exact ⟨message, hmessage, shown_about hmessage block⟩
  · exact own.given_self "block" _

/-- The same error about one block after another is an error of its own, the same as the first one
but for the block, which is the last of them; and it is what the first error gives for that block
at once. As errors of generation go, it is the same error about that block. The first error
and all those between stay as they are, whatever is done later, until somebody gives them an
attribute. -/
theorem reattached_alike (history : List ErrorStep) {e : Nat} {own : ErrorObject}
    (he : (made history)[e]? = some own) (blocks : List (Option Block)) (block : Option Block) :
    ∃ copy errors last,
      (blocks ++ [block]).foldlM withBlock e (made history) = (.ok copy, errors) ∧
      (made history).length ≤ copy ∧ errors[copy]? = some last ∧ own.SameAbout block last ∧
      (∃ once errors', withBlock e block (made history) = (.ok once, errors') ∧
        errors'[once]? = some last) ∧
      (∀ error, own.Stands error → last.Stands (error.withBlock block)) ∧
      ((∀ step ∈ history, ∀ e, step.Spares e) → ∃ error, own.Stands error) ∧
      ∀ front rest, blocks ++ [block] = front ++ rest → ∃ place between held,
        front.foldlM withBlock e (made history) = (.ok place, between) ∧
        between[place]? = some held ∧
        ∀ later : List ErrorStep, (∀ step ∈ later, step.Spares place) →
          (later.foldl after errors)[place]? = some held := by
  have hnone : ∀ own ∈ ([] : Errors), own.Told := List.forall_mem_nil _
  have htolds : ∀ own ∈ made history, own.Told := told_foldl hnone history
  have hmem := List.mem_of_getElem? he
  have htold := htolds own hmem
  refine ⟨(made history).length + blocks.length, made history ++ (blocks ++ [block]).map own.about,
    own.about block, foldlM_withBlock_run he htold blocks block, Nat.le_add_right _ _,
    last_copy _ own blocks block, htold.sameAbout block,
    ⟨_, _, withBlock_run he htold block, List.getElem?_concat_length ..⟩,
    fun error hstands => hstands.about block,
    fun hspares => stands_foldl hnone (List.forall_mem_nil _) hspares own hmem, ?_⟩
  intro front rest hfront
  have hcopies : ∀ copy ∈ made history ++ (blocks ++ [block]).map own.about, copy.Told :=
    List.forall_mem_append.mpr ⟨htolds, List.forall_mem_map.mpr fun b _ => htold.about b⟩
  obtain ⟨place, held, hrun, hheld⟩ := foldlM_withBlock_reaches he htold front
  refine ⟨place, _, held, hrun, hheld, fun later hspares => foldl_kept hcopies ?_ hspares⟩
  -- The copies that come later stand behind all that were there.
  rw [hfront, List.map_append, ← List.append_assoc,
    List.getElem?_append_left (List.getElem?_eq_some_iff.mp hheld).1, hheld]

/-- A language has no rule for a loop; another error is told of two blocks. -/
def twoErrors : List ErrorStep :=
  [.makeUnsupported (.str "Lua") (.str "controls_for") (some { id := .str "b1" }),
    .make .general nofun (.str "Oops") none, .withBlock 1 (some { id := .str "b9" })]

theorem spares_twoErrors : ∀ step ∈ twoErrors, ∀ e, step.Spares e := by
  simp [twoErrors, Spares]

/-- Neither nothing nor a block without a name stays in what is shown. -/
theorem twoErrors_reattached :
    ∃ own, (made twoErrors)[0]? = some own ∧ (∀ step ∈ twoErrors, ∀ e, step.Spares e) ∧
      own.shown = "Language \"Lua\" does not know how to generate code for block type " ++
        "\"controls_for\" (block id 'b1')" ∧
      ∃ copy errors last,
        [none, some { id := .str "b2" }, some { id := .str "" }, some { id := .str "b3" }].foldlM
          withBlock 0 (made twoErrors) = (.ok copy, errors) ∧
        errors[copy]? = some last ∧ last.cls = .unsupportedType ∧
        last.attributes "language" = some (.value (.str "Lua")) ∧
        last.attributes "block_type" = some (.value (.str "controls_for")) ∧
        last.shown = "Language \"Lua\" does not know how to generate code for block type " ++
          "\"controls_for\" (block id 'b3')" ∧
        errors[0]? = some own := by
  refine ⟨_, rfl, spares_twoErrors, rfl, ?_⟩
  obtain ⟨copy, errors, last, hrun, -, hlast, hsame, -, -, -, hkept⟩ :=
    reattached_alike twoErrors (e := 0) rfl
      [none, some { id := .str "b2" }, some { id := .str "" }] (some { id := .str "b3" })
  refine ⟨copy, errors, last, hrun, hlast, hsame.cls, hsame.kept _ (by decide),
    hsame.kept _ (by decide), ?_, ?_⟩
  · obtain ⟨message, hmessage, hshown⟩ := hsame.shown
    cases hmessage
    exact hshown
  · obtain ⟨place, between, held, hnone, hheld, hstays⟩ := hkept [] _ rfl
    cases hnone
    cases hheld
    exact hstays [] (List.forall_mem_nil _)

end BlockCode
