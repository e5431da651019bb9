-- Each live block is translated once. The rules of the language of Python programs read
-- known inputs, so a pass that succeeds hands to them the blocks that the connections of the
-- workspace make live, and each of these once.
import Mathlib.Data.Set.Card
import BlockCode.Proofs.Document.Rooted
import BlockCode.Proofs.Generation.Visits
import BlockCode.Proofs.Language.PythonElision

namespace BlockCode.Python

open BlockCode.Language
open Script (opens_bind opens_done opens_request)

/-! ## The inputs that rules read -/

/-- The types of blocks with inputs, and the inputs that their rules read, in this order. -/
def readInputs : List (String × List String) :=
  [("text_print", ["TEXT"]), ("math_arithmetic", ["A", "B"]), ("logic_compare", ["A", "B"]),
    ("math_is_prime", ["NUMBER_TO_CHECK"]), ("logic_negate", ["BOOL"]),
    ("variables_set", ["VALUE"]), ("controls_if", ["IF0", "DO0", "ELSE"]),
    ("controls_repeat_ext", ["TIMES", "DO"])]

/-- The inputs of a block that its rule reads. -/
def reads (b : Block) : List String :=
  match b.type with
  | .str type => (readInputs.lookup type).getD []
  | _ => []

theorem nodup_reads (b : Block) : (reads b).Nodup := by
  unfold reads
  split
  · rename_i type _
    rcases hfind : readInputs.lookup type with _ | names
    · exact List.nodup_nil
    · have hall : ∀ entry ∈ readInputs, entry.2.Nodup := by decide
      obtain ⟨before, after, hsplit, -⟩ := List.lookup_eq_some_iff.mp hfind
      refine hall (type, names) ?_
      rw [hsplit]
      simp
  · exact List.nodup_nil

section Opens

variable {b : Block} {inputs : Inputs}

theorem opens_valueOr (input : String) (order : Int) (missing : String) :
    (valueOr input order missing).Opens [.str input] :=
  opens_bind (opens_request (.value (.str input) (.int order))) fun _ => opens_done

theorem opens_bodyOr (input : String) : (bodyOr input).Opens [.str input] :=
  opens_bind (opens_request (.statements (.str input))) fun _ => opens_done

theorem opens_variableOf : (variableOf b).Opens [] :=
  opens_bind opens_done fun name => opens_request (.identifier name (.str "variable") false)

theorem opens_arithmeticRule : (arithmeticRule b inputs).Opens [.str "A", .str "B"] :=
  opens_bind opens_done fun _ => opens_bind opens_done fun _ =>
    opens_bind (opens_valueOr "A" _ "0") fun _ =>
      opens_bind (opens_valueOr "B" _ "0") fun _ => opens_done

theorem opens_textRule : (textRule b inputs).Opens [] :=
  opens_bind opens_done fun _ => opens_bind opens_done fun _ => opens_done

theorem opens_numberRule : (numberRule b inputs).Opens [] :=
  opens_bind opens_done fun _ => opens_bind opens_done fun _ => opens_done

theorem opens_compareRule : (compareRule b inputs).Opens [.str "A", .str "B"] :=
  opens_bind opens_done fun _ => opens_bind opens_done fun _ =>
    opens_bind (opens_valueOr "A" relational "0") fun _ =>
      opens_bind (opens_valueOr "B" relational "0") fun _ => opens_done

theorem opens_primeRule : (primeRule b inputs).Opens [.str "NUMBER_TO_CHECK"] :=
  opens_bind (opens_request (.helper (.str "math_isPrime") (.list (primeHelper.map .str))))
    fun _ => opens_bind (opens_valueOr "NUMBER_TO_CHECK" anything "0") fun _ => opens_done

theorem opens_negateRule : (negateRule b inputs).Opens [.str "BOOL"] :=
  opens_bind (opens_valueOr "BOOL" logicalNot "True") fun _ => opens_done

theorem opens_printRule : (printRule b inputs).Opens [.str "TEXT"] :=
  opens_bind (opens_valueOr "TEXT" anything "''") fun _ => opens_done

theorem opens_setRule : (setRule b inputs).Opens [.str "VALUE"] :=
  opens_bind opens_variableOf fun _ =>
    opens_bind (opens_valueOr "VALUE" anything "0") fun _ => opens_done

/-- Another branch is read only when the block has an input for it. -/
theorem opens_ifRule : (ifRule b inputs).Opens
    (if inputs.has (.str "ELSE") then [.str "IF0", .str "DO0", .str "ELSE"]
      else [.str "IF0", .str "DO0"]) := by
  unfold ifRule
  rcases inputs.has (.str "ELSE") with _ | _
  · exact opens_bind (opens_valueOr "IF0" anything "False") fun _ =>
      opens_bind (opens_bodyOr "DO0") fun _ => opens_done
  · exact opens_bind (opens_valueOr "IF0" anything "False") fun _ =>
      opens_bind (opens_bodyOr "DO0") fun _ => opens_bind (opens_bodyOr "ELSE") fun _ => opens_done

theorem opens_repeatRule : (repeatRule b inputs).Opens [.str "TIMES", .str "DO"] :=
  opens_bind (opens_valueOr "TIMES" anything "0") fun _ =>
    opens_bind (opens_bodyOr "DO") fun _ =>
      opens_bind (opens_request (.ownIdentifier (.str "count") (.str "variable"))) fun _ =>
        opens_done

end Opens

theorem reads_rules (config : Config) : (Language.python config).Reads reads where
  strict := (plain config).strict
  opens := by
    intro b rule hrule inputs
    obtain ⟨name, htype, hof⟩ := ruleOf_of_ruleFor hrule
    have hreads : reads b = (readInputs.lookup name).getD [] := by rw [reads, htype]
    rw [hreads]
    cases hof with
    | text => exact ⟨_, opens_textRule, rfl⟩
    | print => exact ⟨_, opens_printRule, rfl⟩
    | number => exact ⟨_, opens_numberRule, rfl⟩
    | arithmetic => exact ⟨_, opens_arithmeticRule, rfl⟩
    | prime => exact ⟨_, opens_primeRule, rfl⟩
    | boolean => exact ⟨[], opens_bind opens_done fun _ => opens_done, rfl⟩
    | compare => exact ⟨_, opens_compareRule, rfl⟩
    | negate => exact ⟨_, opens_negateRule, rfl⟩
    | get => exact ⟨[], opens_bind opens_variableOf fun _ => opens_done, rfl⟩
    | set => exact ⟨_, opens_setRule, rfl⟩
    | branch =>
      refine ⟨_, opens_ifRule, ?_⟩
      have hif : ((readInputs.lookup "controls_if").getD []).map Value.str =
          [.str "IF0", .str "DO0", .str "ELSE"] := rfl
      rw [hif]
      rcases hother : inputs.has (.str "ELSE") with _ | _
      · simp [List.filter_cons, hother]
      · rfl
    | loop => exact ⟨_, opens_repeatRule, rfl⟩

/-! ## Passes -/

/-- A pass over what was read from a document, if it succeeds, has counted the live blocks:
each of them was handed to its rule, once, and no other block was. -/
theorem live_blocks_handed_once (config : Config) {d : Value} {w : Workspace}
    (hload : Document.load d = .ok w) {s : Session} {program : String}
    (h : ((Language.python config).pass w s).1 = .ok program) :
    (((Language.python config).pass w s).2.pass.handled : ℕ∞) = {x | w.Live reads x}.encard ∧
      (((Language.python config).passVisits w s).map (·.handle)).Nodup ∧
      ∀ x, x ∈ ((Language.python config).passVisits w s).map (·.handle) ↔ w.Live reads x := by
  obtain ⟨hac, hhung⟩ := Document.load_hung hload
  have hs : s.running = false := idle_of_pass_ok h
  have hvisits : ((Language.python config).passVisits w s).map (·.handle) =
      w.topBlocks.flatMap (w.liveFrom reads) := by
    rw [(reads_rules config).visits_pass hs h, Workspace.trees, List.flatMap_map, List.map_flatMap]
    rfl
  have hmem : ∀ x, x ∈ w.topBlocks.flatMap (w.liveFrom reads) ↔ w.Live reads x :=
    fun x => Workspace.mem_liveFrom_tops hac hhung.placed
  have hnodup := Workspace.nodup_liveFrom_tops hac hhung.placed nodup_reads hhung.rooted hhung.once
    hhung.listed
  rw [hvisits]
  refine ⟨?_, hnodup, hmem⟩
  have hset : {x | w.Live reads x} = ↑(w.topBlocks.flatMap (w.liveFrom reads)).toFinset := by
    ext x
    simp only [Set.mem_ofPred_eq, List.coe_toFinset]
    exact (hmem x).symm
  rw [hset, Set.encard_coe_eq_coe_finsetCard, List.toFinset_card_of_nodup hnodup, ← hvisits,
    List.length_map, handled_pass w s hs]

/-- The entry of a block that gives a text. -/
def textEntry (text : String) : Value :=
  .table [(.str "type", .str "text"), (.str "output", .bool true),
    (.str "fields", .table [(.str "TEXT", .str text)])]

/-- A branch that prints, with a text in an input that no rule reads, and behind it a disabled
block and one that prints nothing. -/
def halfAwake : Value :=
  .table [(.str "blocks", .list [.table [(.str "type", .str "controls_if"),
    (.str "inputs", .table [(.str "IF1", textEntry "unread")]),
    (.str "statements", .table [(.str "DO0", .table [(.str "type", .str "text_print"),
      (.str "inputs", .table [(.str "TEXT", textEntry "hello")])])]),
    (.str "next", .table [(.str "type", .str "text_print"), (.str "disabled", .bool true),
      (.str "inputs", .table [(.str "TEXT", textEntry "asleep")]),
      (.str "next", .table [(.str "type", .str "text_print")])])]])]

def halfAwakeBlocks : Workspace := (Document.load halfAwake).toOption.getD {}

theorem eq_ok_of_toOption {ε α : Type} {result : Except ε α} {a : α}
    (h : result.toOption = some a) : result = .ok a := by
  rcases result with fault | b
  · cases h
  · exact congrArg Except.ok (Option.some.inj h)

theorem load_halfAwake : Document.load halfAwake = .ok halfAwakeBlocks := by
  have hok : (Document.load halfAwake).toOption.isSome = true := by decide +kernel
  obtain ⟨w, hw⟩ := Option.isSome_iff_exists.mp hok
  rw [halfAwakeBlocks, hw]
  exact eq_ok_of_toOption hw

/-- Of its seven blocks the branch, both blocks that print and one text are live. -/
theorem half_awake_handed_once :
    Document.load halfAwake = .ok halfAwakeBlocks ∧ halfAwakeBlocks.size = 7 ∧
      ((Language.python {}).pass halfAwakeBlocks (.new (.python {}))).1 =
        .ok "if False:\n  print('hello')\nprint('')\n" ∧
      {x | halfAwakeBlocks.Live reads x}.encard = 4 ∧
      ∀ x, halfAwakeBlocks.Live reads x ↔ x ∈ [0, 2, 3, 6] := by
  have hpass : ((Language.python {}).pass halfAwakeBlocks (.new (.python {}))).1 =
      .ok "if False:\n  print('hello')\nprint('')\n" :=
    eq_ok_of_toOption (by decide +kernel)
  have hhandled : ((Language.python {}).pass halfAwakeBlocks
      (.new (.python {}))).2.pass.handled = 4 := by decide +kernel
  have hvisits : ((Language.python {}).passVisits halfAwakeBlocks
      (.new (.python {}))).map (·.handle) = [0, 2, 3, 6] := by decide +kernel
  obtain ⟨hcount, -, hlive⟩ := live_blocks_handed_once {} load_halfAwake hpass
  rw [hhandled] at hcount
  rw [hvisits] at hlive
  exact ⟨load_halfAwake, by decide +kernel, hpass, hcount.symm, fun x => (hlive x).symm⟩

end BlockCode.Python
