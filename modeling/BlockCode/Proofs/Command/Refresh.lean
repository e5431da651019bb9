-- One refresh of the program in a watch. What comes of it is settled by the blocks of the
-- workspace: the whole program is written, or what went wrong is told and the output stays as
-- it was, or a fault that nobody tells ends the watch. A program with halves in it ends the watch
-- too, when the output has been emptied for it.
import BlockCode.Proofs.Command.Watch
import BlockCode.Proofs.Language.PythonVerdict

namespace BlockCode

open Shell (workspaceIn)
open BlockCode.Language (otherMark)

namespace Watching

variable {watcher : Watcher} {s : Watching} {w : Workspace} {target : List String}
  {result : Except Fault Product}

/-! ## What a refresh says -/

theorem saying_fault_iff (fault : Fault) : saying result = .error (.fault fault) ↔
    (result = .error fault ∧ fault.isGeneration = false) ∨
      (fault = .notBytes ∧ ∃ code, result = .ok code ∧ code.torn = true) := by
  rcases result with found | ⟨text, torn⟩
  · constructor
    · intro h
      cases found with
      | generation e => cases h
      | _ =>
        cases h
        exact .inl ⟨rfl, rfl⟩
    · rintro (⟨⟨⟩, hfault⟩ | ⟨-, _, ⟨⟩, -⟩)
      cases fault with
      | generation e => cases hfault
      | _ => rfl
  · cases torn with
    | false => exact ⟨nofun, by rintro (⟨⟨⟩, -⟩ | ⟨-, _, ⟨⟩, ⟨⟩⟩)⟩
    | true =>
      constructor
      · rintro ⟨⟩
        exact .inr ⟨rfl, _, rfl, rfl⟩
      · rintro (⟨⟨⟩, -⟩ | ⟨rfl, -⟩)
        rfl

theorem saying_false_iff :
    saying result = .ok false ↔ ∃ fault, result = .error fault ∧ fault.isGeneration = true := by
  rcases result with fault | ⟨text, torn⟩
  · cases fault <;> simp [saying, Fault.isGeneration]
  · cases torn <;> simp [saying, Shell.delivery, Except.map]

theorem saying_true_iff :
    saying result = .ok true ↔ ∃ code, result = .ok code ∧ code.torn = false := by
  rcases result with fault | ⟨text, torn⟩
  · cases fault <;> simp [saying]
  · cases torn <;> simp [saying, Shell.delivery, Except.map]

/-- A fault in a refresh ends the watch. -/
theorem rounds_of_refresh {halt : Halt} (h : (refresh watcher s).1 = .error halt)
    (interval : Number.Binary64) (names : List String) (ticks : List Tick) :
    (rounds watcher interval names ticks s).1 = .error halt := by
  rcases hrun : refresh watcher s with ⟨result, after⟩
  rw [hrun] at h
  cases h
  cases ticks with
  | nil =>
    unfold rounds
    rw [Effect.bind_apply, hrun]
  | cons tick rest =>
    unfold rounds
    rw [Effect.bind_apply, hrun]

/-! ## Programs in Python -/

variable {config : Config} {indent marker : String}

theorem showing_python (hindent : config.indent = .str indent)
    (hmarker : config.commentMarker = .str marker) (mark : Char) :
    (Language.python config).showing mark = .python config := by
  obtain ⟨i, m, stable⟩ := config
  obtain rfl : i = .str indent := hindent
  obtain rfl : m = .str marker := hmarker
  rfl

/-- What is said of the blocks is so of the program as it is to be written. -/
theorem goes_product (hindent : config.indent = .str indent)
    (hmarker : config.commentMarker = .str marker) (w : Workspace) {session : Session}
    (hidle : session.running = false) :
    Goes (fun _ _ => True) ((Language.python config).product w session).1 (Python.verdictOn w) := by
  rw [Language.product_fst]
  exact (Python.judged_pass hindent hmarker w hidle).map _ fun _ _ _ => trivial

/-- A refresh raises a fault just when that fault is said of the blocks and is none of generation,
or when the program holds halves, for which there are no bytes. Then the watch is over. A fault of
generation is told, and the output stays as it was; when nothing is wrong, the whole program is in
the output, and a program with halves leaves it empty. Nothing is raised if all blocks are fit and
no text of theirs holds halves. -/
theorem refresh_stumbles_iff (hlanguage : watcher.language = .python config)
    (hindent : config.indent = .str indent) (hmarker : config.commentMarker = .str marker)
    (hstale : s.stale = true) (hidle : s.shell.session.running = false)
    (hw : workspaceIn s.shell.files watcher.workspace = .ok w)
    (htarget : s.shell.files.place (Path.shown watcher.output) = .ok target)
    (hfile : s.shell.files.at? target ≠ some .folder) :
    (∀ fault, (refresh watcher s).1 = .error (.fault fault) ↔
      (Python.verdictOn w = .error fault ∧ fault.isGeneration = false) ∨
        (fault = .notBytes ∧ ∃ code, (watcher.language.product w s.shell.session).1 = .ok code ∧
          code.torn = true)) ∧
    ((refresh watcher s).1 = .ok false ↔
      ∃ fault, Python.verdictOn w = .error fault ∧ fault.isGeneration = true) ∧
    ((refresh watcher s).1 = .ok true ↔ ∃ code,
      (watcher.language.product w s.shell.session).1 = .ok code ∧ code.torn = false) ∧
    ((∃ code, (watcher.language.product w s.shell.session).1 = .ok code) ↔
      Python.verdictOn w = .ok ()) ∧
    ((refresh watcher s).1 = .ok true → ∃ code,
      (watcher.language.pass w s.shell.session).1 = .ok code ∧
        (refresh watcher s).2.shell.files = s.shell.files.set target (.text code)) ∧
    ((refresh watcher s).1 = .error (.fault .notBytes) → Python.verdictOn w = .ok () →
      (refresh watcher s).2.shell.files = s.shell.files.set target (.text "")) ∧
    (Python.verdictOn w ≠ .ok () → (refresh watcher s).2.shell.files = s.shell.files) ∧
    ((w.All fun b inputs _ => Python.Fit b inputs) → w.showing otherMark = w →
      ∃ wrote, (refresh watcher s).1 = .ok wrote) ∧
    (refresh watcher s).2.stale = false ∧ (refresh watcher s).2.shell.session.running = false ∧
    ∀ fault interval names ticks, (refresh watcher s).1 = .error (.fault fault) →
      (rounds watcher interval names ticks s).1 = .error (.fault fault) := by
  have hgoes := goes_product hindent hmarker w hidle
  rw [← hlanguage] at hgoes
  have hmade : (∃ code, (watcher.language.product w s.shell.session).1 = .ok code) ↔
      Python.verdictOn w = .ok () := hgoes.ok_iff.trans ⟨fun ⟨_, h⟩ => h, fun h => ⟨(), h⟩⟩
  obtain ⟨log, hrun⟩ := refresh_opened hstale hw htarget hfile
  have hsaid : (refresh watcher s).1 = saying (watcher.language.product w s.shell.session).1 :=
    congrArg Prod.fst hrun
  have hfiles : (refresh watcher s).2.shell.files =
      leaving s.shell.files target (watcher.language.product w s.shell.session).1 :=
    congrArg (·.2.shell.files) hrun
  have hfalse : (refresh watcher s).1 = .ok false ↔
      ∃ fault, Python.verdictOn w = .error fault ∧ fault.isGeneration = true := by
    rw [hsaid, saying_false_iff]
    exact exists_congr fun fault => and_congr_left' (hgoes.error_iff fault)
  have htrue : (refresh watcher s).1 = .ok true ↔ ∃ code,
      (watcher.language.product w s.shell.session).1 = .ok code ∧ code.torn = false := by
    rw [hsaid, saying_true_iff]
  refine ⟨fun fault => ?_, hfalse, htrue, hmade, ?_, ?_, ?_, ?_, ?_, ?_, ?_⟩
  · rw [hsaid, saying_fault_iff, hgoes.error_iff]
  · intro hwrote
    obtain ⟨code, hcode, hwhole⟩ := htrue.mp hwrote
    obtain ⟨hpass, -⟩ := Language.product_ok_iff.mp hcode
    refine ⟨code.text, hpass, ?_⟩
    rw [hfiles, hcode, ← Product.written_whole hwhole]
    rfl
  · intro hraised hverdict
    rw [hsaid, saying_fault_iff, hgoes.error_iff, hverdict] at hraised
    obtain ⟨⟨⟩, -⟩ | ⟨-, code, hcode, htorn⟩ := hraised
    rw [hfiles, hcode, ← Product.written_torn htorn]
    rfl
  · intro hverdict
    rw [hfiles]
    rcases hproduct : (watcher.language.product w s.shell.session).1 with fault | code
    · rfl
    · exact absurd (hmade.mp ⟨code, hproduct⟩) hverdict
  · intro hfit hshown
    rcases hverdict : Python.verdictOn w with fault | _
    · exact ⟨false, hfalse.mpr ⟨fault, hverdict, Python.mild_verdictOn hfit fault hverdict⟩⟩
    · obtain ⟨code, hcode⟩ := hmade.mpr hverdict
      have hplain : watcher.language.showing otherMark = watcher.language := by
        rw [hlanguage]
        exact showing_python hindent hmarker otherMark
      exact ⟨true, htrue.mpr ⟨code, hcode, Language.whole_of_product hplain hshown hcode⟩⟩
  · rw [hrun]
  · rw [hrun]
    exact Language.running_pass watcher.language w s.shell.session hidle
  · intro fault interval names ticks hraised
    exact rounds_of_refresh hraised interval names ticks

/-- A watch begins with this text in the file of the workspace. -/
def begunWith (text : String) : Watching where
  shell := {
    files := { here := "/", entries := [(["w.json"], .text text)] }
    session := .new (.python {}) }

def pythonWatcher : Watcher where
  workspace := "/w.json"
  language := .python {}
  output := "/out"

theorem workspaceIn_begunWith {text : String} {document : Value}
    (h : Json.read (String.ofList (Document.unifyLines text.toList)) = .ok document) :
    workspaceIn (begunWith text).shell.files "/w.json" = Document.load document :=
  Shell.workspaceIn_of_document (place_named _) rfl h

def printText : String := "\x7b\"blocks\":[\x7b\"type\":\"text_print\"\x7d]\x7d"

def printWorkspace : Workspace where
  nodes := [{ block := { type := .str "text_print", id := .str "b1" } }]
  members := [0]

theorem workspaceIn_print :
    workspaceIn (begunWith printText).shell.files "/w.json" = .ok printWorkspace := by
  have hdocument : Json.read (String.ofList (Document.unifyLines printText.toList)) =
      .ok (.table [(.str "blocks", .list [.table [(.str "type", .str "text_print")]])]) := by
    have hchars : Document.unifyLines printText.toList =
        ['{', '"', 'b', 'l', 'o', 'c', 'k', 's', '"', ':', '[', '{', '"', 't', 'y', 'p', 'e', '"',
          ':', '"', 't', 'e', 'x', 't', '_', 'p', 'r', 'i', 'n', 't', '"', '}', ']', '}'] := rfl
    exact Shell.read_unified hchars (by decide) rfl
  exact (workspaceIn_begunWith hdocument).trans rfl

def sumText : String :=
  "\x7b\"blocks\":[\x7b\"type\":\"math_arithmetic\",\"output\":true\x7d]\x7d"

def sumWorkspace : Workspace where
  nodes := [{ block := { type := .str "math_arithmetic", id := .str "b1", output := .bool true } }]
  members := [0]

theorem workspaceIn_sum :
    workspaceIn (begunWith sumText).shell.files "/w.json" = .ok sumWorkspace := by
  have hdocument : Json.read (String.ofList (Document.unifyLines sumText.toList)) =
      .ok (.table [(.str "blocks", .list
        [.table [(.str "type", .str "math_arithmetic"), (.str "output", .bool true)]])]) := by
    have hchars : Document.unifyLines sumText.toList =
        ['{', '"', 'b', 'l', 'o', 'c', 'k', 's', '"', ':', '[', '{', '"', 't', 'y', 'p', 'e', '"',
          ':', '"', 'm', 'a', 't', 'h', '_', 'a', 'r', 'i', 't', 'h', 'm', 'e', 't', 'i', 'c', '"',
          ',', '"', 'o', 'u', 't', 'p', 'u', 't', '"', ':', 't', 'r', 'u', 'e', '}', ']', '}'] := rfl
    exact Shell.read_unified hchars (by decide) rfl
  exact (workspaceIn_begunWith hdocument).trans rfl

/-- A block that prints: the program is written. -/
theorem print_refreshed :
    pythonWatcher.language = .python {} ∧ (begunWith printText).stale = true ∧
      (begunWith printText).shell.session.running = false ∧
      workspaceIn (begunWith printText).shell.files pythonWatcher.workspace = .ok printWorkspace ∧
      (begunWith printText).shell.files.place (Path.shown pythonWatcher.output) = .ok ["out"] ∧
      (begunWith printText).shell.files.at? ["out"] ≠ some .folder ∧
      Python.verdictOn printWorkspace = .ok () ∧
      (refresh pythonWatcher (begunWith printText)).1 = .ok true := by
  have hlanguage : pythonWatcher.language = .python {} := rfl
  have hstale : (begunWith printText).stale = true := rfl
  have hidle : (begunWith printText).shell.session.running = false := rfl
  have hfile : (begunWith printText).shell.files.at? ["out"] ≠ some .folder := by decide
  have hverdict : Python.verdictOn printWorkspace = .ok () := rfl
  obtain ⟨-, -, htrue, -⟩ := refresh_stumbles_iff hlanguage rfl rfl hstale hidle workspaceIn_print
    (place_out _) hfile
  exact ⟨hlanguage, hstale, hidle, workspaceIn_print, place_out _, hfile, hverdict,
    htrue.mpr ⟨{ text := "print('')\n" }, rfl, rfl⟩⟩

/-- A sum without an operator: the workspace can be opened and the output can be written, and the
refresh raises a fault that nobody tells. -/
theorem bare_sum_stumbles :
    ∃ (watcher : Watcher) (s : Watching) (w : Workspace) (target : List String),
      watcher.language = .python {} ∧ s.stale = true ∧ s.shell.session.running = false ∧
      workspaceIn s.shell.files watcher.workspace = .ok w ∧
      s.shell.files.place (Path.shown watcher.output) = .ok target ∧
      s.shell.files.at? target ≠ some .folder ∧
      (refresh watcher s).1 = .error (.fault (.unknownKey .null)) := by
  have hstale : (begunWith sumText).stale = true := rfl
  have hopen : workspaceIn (begunWith sumText).shell.files pythonWatcher.workspace =
      .ok sumWorkspace := workspaceIn_sum
  have htarget : (begunWith sumText).shell.files.place (Path.shown pythonWatcher.output) =
      .ok ["out"] := place_out _
  have hfile : (begunWith sumText).shell.files.at? ["out"] ≠ some .folder := by decide
  refine ⟨pythonWatcher, begunWith sumText, sumWorkspace, ["out"], rfl, hstale, rfl, hopen, htarget,
    hfile, ?_⟩
  obtain ⟨log, hrun⟩ := refresh_opened hstale hopen htarget hfile
  rw [hrun]
  rfl

end Watching
end BlockCode
