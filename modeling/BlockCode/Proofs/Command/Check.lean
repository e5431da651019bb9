-- Checking a workspace for types of blocks that have no rule. What is listed are the types of
-- all blocks, disabled ones too. A pass comes to blocks by their connections, passes over the
-- disabled ones and asks for no input that the rules leave out; it still comes to no type
-- that is not listed, whichever blocks are disabled.
import BlockCode.Proofs.Command.Files
import BlockCode.Proofs.Command.Shell
import BlockCode.Proofs.Document.Transfer
import BlockCode.Proofs.Generation.Blame
import BlockCode.Proofs.Language.PythonRequests
import Mathlib.Data.Set.List

namespace BlockCode

/-! ## Texts in order -/

namespace Value

theorem before?_texts {v w : Value} (hv : v.IsText) (hw : w.IsText) :
    ∃ first, before? v w = some first := by
  obtain ⟨signs, hv⟩ := hv
  obtain ⟨signs', hw⟩ := hw
  cases v with
  | str s => cases w with
    | str t => exact ⟨_, rfl⟩
    | torn t => exact ⟨_, rfl⟩
    | _ => cases hw
  | torn s => cases w with
    | str t => exact ⟨_, rfl⟩
    | torn t => exact ⟨_, rfl⟩
    | _ => cases hw
  | _ => cases hv

/-- Every text has its place among texts. -/
theorem insertSorted_texts {v : Value} {values : List Value} (hv : v.IsText)
    (h : ∀ w ∈ values, w.IsText) :
    ∃ more, insertSorted v values = some more ∧ more.Perm (v :: values) := by
  induction values with
  | nil => exact ⟨[v], rfl, List.Perm.refl _⟩
  | cons w rest ih =>
    obtain ⟨hw, hrest⟩ := List.forall_mem_cons.mp h
    obtain ⟨more, hmore, hperm⟩ := ih hrest
    obtain ⟨first, hfirst⟩ := before?_texts hv hw
    cases first with
    | true => exact ⟨v :: w :: rest, by simp [insertSorted, hfirst], List.Perm.refl _⟩
    | false =>
      exact ⟨w :: more, by simp [insertSorted, hfirst, hmore],
        (hperm.cons w).trans (List.Perm.swap v w rest)⟩

theorem sorted_texts {values : List Value} (h : ∀ v ∈ values, v.IsText) :
    ∃ inOrder, sorted? values = some inOrder ∧ inOrder.Perm values := by
  induction values with
  | nil => exact ⟨[], rfl, List.Perm.refl _⟩
  | cons v rest ih =>
    obtain ⟨hv, hrest⟩ := List.forall_mem_cons.mp h
    obtain ⟨inOrder, hsorted, hperm⟩ := ih hrest
    obtain ⟨more, hmore, hperm'⟩ :=
      insertSorted_texts hv fun w hw => hrest w (hperm.mem_iff.mp hw)
    refine ⟨more, ?_, hperm'.trans (hperm.cons v)⟩
    rw [sorted?, hsorted]
    exact hmore

/-- Each value is the same as one that is kept, and none is kept but these. -/
theorem distinct_spec (values : List Value) :
    (∀ v ∈ distinct values, v ∈ values) ∧ ∀ v ∈ values, ∃ u ∈ distinct values, v.same u = true := by
  -- What was met before is kept.
  have hmet : ∀ seen : List Value, ∀ kept,
      values.foldl (fun seen v => if seen.any (v.same ·) then seen else seen ++ [v]) seen = kept →
      (∀ u ∈ seen, u ∈ kept) ∧ (∀ v ∈ kept, v ∈ seen ∨ v ∈ values) ∧
        ∀ v ∈ values, ∃ u ∈ kept, v.same u = true := by
    induction values with
    | nil =>
      rintro seen _ rfl
      exact ⟨fun u hu => hu, fun v hv => Or.inl hv, nofun⟩
    | cons v rest ih =>
      intro seen kept hkept
      rw [List.foldl_cons] at hkept
      by_cases hany : seen.any (v.same ·) = true
      · rw [if_pos hany] at hkept
        obtain ⟨hseen, hfrom, hrest⟩ := ih seen kept hkept
        obtain ⟨u, hu, hsame⟩ := List.any_eq_true.mp hany
        refine ⟨hseen, fun x hx => (hfrom x hx).imp_right (List.mem_cons_of_mem v), ?_⟩
        exact List.forall_mem_cons.mpr ⟨⟨u, hseen u hu, hsame⟩, hrest⟩
      · rw [if_neg hany] at hkept
        obtain ⟨hseen, hfrom, hrest⟩ := ih (seen ++ [v]) kept hkept
        refine ⟨fun u hu => hseen u (List.mem_append_left [v] hu), fun x hx => ?_, ?_⟩
        · rcases hfrom x hx with hin | hin
          · rcases List.mem_append.mp hin with hin | hin
            · exact Or.inl hin
            · exact Or.inr (List.mem_cons.mpr (Or.inl (List.mem_singleton.mp hin)))
          · exact Or.inr (List.mem_cons_of_mem v hin)
        · exact List.forall_mem_cons.mpr
            ⟨⟨v, hseen v (List.mem_append_right seen List.mem_cons_self), same_self v⟩, hrest⟩
  obtain ⟨-, hfrom, hall⟩ := hmet [] _ rfl
  exact ⟨fun v hv => (hfrom v hv).resolve_left List.not_mem_nil, hall⟩

end Value

/-! ## Workspaces with other blocks disabled -/

namespace Workspace

/-- The workspace with these flags in the place of those that say which blocks are disabled. -/
def flagged (w : Workspace) (flags : Nat → Value) : Workspace :=
  { w with nodes := w.nodes.mapIdx fun h n =>
      { n with block := { n.block with disabled := flags h } } }

variable {w : Workspace} {flags : Nat → Value}

theorem node?_flagged (h : Nat) : (w.flagged flags).node? h = (w.node? h).map fun n =>
    { n with block := { n.block with disabled := flags h } } := List.getElem?_mapIdx

/-- The types of the blocks in the trees are types of blocks of the workspace. -/
theorem type_of_mem_flagged (hplaced : ∀ h n, w.node? h = some n → n.block.handle = h) (h : Nat)
    {b : Block} (hb : b ∈ ((w.flagged flags).tree h).blocks) :
    ∃ b', w.block? b.handle = some b' ∧ b'.type = b.type := by
  have hplaced' : ∀ h n, (w.flagged flags).node? h = some n → n.block.handle = h := by
    intro h n hn
    rw [node?_flagged, Option.map_eq_some_iff] at hn
    obtain ⟨m, hm, rfl⟩ := hn
    exact hplaced h m hm
  have hat := block?_of_mem_tree hplaced' _ _ b hb
  rw [block?, node?_flagged, Option.map_map, Option.map_eq_some_iff] at hat
  obtain ⟨n, hn, hblock⟩ := hat
  exact ⟨n.block, by rw [block?, hn, Option.map_some], congrArg (·.type) hblock⟩

end Workspace

/-! ## The types that are listed -/

/-- Some pass over the workspace, whichever of its blocks are disabled, tells that the type has
no rule. -/
def Language.Misses (L : Language) (w : Workspace) (type : Value) : Prop :=
  ∃ flags s fault, (L.pass (w.flagged flags) s).1 = .error fault ∧ fault.unknownType? = some type

namespace Shell

open BlockCode.Language

variable {L : Language} {w : Workspace}

theorem filterM_ok {ε α : Type} {p : α → Except ε Bool} {q : α → Bool} {values : List α}
    (h : ∀ a ∈ values, p a = .ok (q a)) : values.filterM p = .ok (values.filter q) := by
  have haux : ∀ kept, values.filterAuxM p kept = .ok ((values.filter q).reverse ++ kept) := by
    induction values with
    | nil => exact fun _ => rfl
    | cons a rest ih =>
      intro kept
      obtain ⟨ha, hrest⟩ := List.forall_mem_cons.mp h
      rw [List.filterAuxM, ha]
      show rest.filterAuxM p (bif q a then a :: kept else kept) = _
      rw [ih hrest, List.filter_cons]
      cases q a <;> simp
  unfold List.filterM
  rw [haux []]
  simp [bind, Except.bind, pure, Except.pure]

theorem missingTypes_texts (htexts : ∀ h b, w.block? h = some b → b.type.IsText) :
    ∃ types : List Value, missingTypes L w = .ok types ∧ (∀ type ∈ types, type.IsText) ∧
      ∀ h ∈ w.members, ∀ b, w.block? h = some b → L.ruleFor b.type = .ok none →
        ∃ type ∈ types, b.type.same type = true := by
  let found := w.members.filterMap fun h => (w.block? h).map (·.type)
  have hfound : ∀ type ∈ found, type.IsText := by
    intro type htype
    obtain ⟨h, -, hat⟩ := List.mem_filterMap.mp htype
    obtain ⟨b, hb, rfl⟩ := Option.map_eq_some_iff.mp hat
    exact htexts h b hb
  have hruleFor : ∀ type : Value, type.IsText → L.ruleFor type = .ok (L.rule? type) := by
    rintro type ⟨signs, htype⟩
    exact if_pos (Value.isKey_of_spelling htype)
  have hunknown : found.filterM (fun type => return !(← L.hasRule type)) =
      .ok (found.filter fun type => (L.rule? type).isNone) := by
    refine filterM_ok fun type htype => ?_
    unfold Language.hasRule
    rw [hruleFor type (hfound type htype)]
    show Except.ok (!(L.rule? type).isSome) = _
    rw [Option.not_isSome]
  let kept := Value.distinct (found.filter fun type => (L.rule? type).isNone)
  obtain ⟨hfrom, hkept⟩ := Value.distinct_spec (found.filter fun type => (L.rule? type).isNone)
  have hkeptTexts : ∀ type ∈ kept, type.IsText :=
    fun type htype => hfound type (List.mem_of_mem_filter (hfrom type htype))
  obtain ⟨types, hsorted, hperm⟩ := Value.sorted_texts hkeptTexts
  refine ⟨types, ?_, fun type htype => hkeptTexts type (hperm.mem_iff.mp htype), ?_⟩
  · unfold missingTypes
    show (found.filterM (fun type => return !(← L.hasRule type)) >>= _) = Except.ok types
    rw [hunknown]
    simp only [bind, Except.bind]
    rw [hsorted]
    rfl
  · intro h hmember b hb hrule
    have hin : b.type ∈ found :=
      List.mem_filterMap.mpr ⟨h, hmember, by rw [hb, Option.map_some]⟩
    have hnone : (L.rule? b.type).isNone = true := by
      rw [hruleFor b.type (htexts h b hb)] at hrule
      rw [Except.ok.inj hrule]
      rfl
    obtain ⟨u, hu, hsame⟩ := hkept b.type (List.mem_filter.mpr ⟨hin, hnone⟩)
    exact ⟨u, hperm.mem_iff.mpr hu, hsame⟩

/-- A line for each type goes to the output, up to the first that cannot be written. -/
theorem sayLines_run {types : List Value} (htexts : ∀ type ∈ types, type.IsText) (s : Shell) :
    ∃ out, sayLines types s =
        (if types.any Value.isTorn then .error (.fault .notBytes) else .ok (), { s with out }) ∧
      (types.any Value.isTorn = false →
        out = s.out ++ String.join (types.map fun type => Text.plain (type.shown ++ "\n"))) := by
  induction types generalizing s with
  | nil => exact ⟨s.out, rfl, fun _ => String.append_empty.symm⟩
  | cons type rest ih =>
    obtain ⟨⟨signs, htype⟩, hrest⟩ := List.forall_mem_cons.mp htexts
    cases type with
    | str t =>
      have hline : sayLine (.str t) s =
          (.ok (), { s with out := s.out ++ Text.plain (t ++ "\n") }) := rfl
      obtain ⟨out, hrun, hout⟩ := ih hrest { s with out := s.out ++ Text.plain (t ++ "\n") }
      refine ⟨out, (Effect.forM_cons_ok sayLine hline).trans hrun, fun hwhole => ?_⟩
      rw [hout hwhole, List.map_cons, String.join_cons, String.append_assoc]
      rfl
    | torn t =>
      have hline : sayLine (.torn t) s = (.error (.fault .notBytes), s) := rfl
      refine ⟨s.out, ?_, nofun⟩
      have hcons : sayLines (.torn t :: rest) = (sayLine (.torn t) >>= fun _ => sayLines rest) :=
        List.forM_cons
      rw [hcons, Effect.bind_error hline]
      rfl
    | _ => cases htype

/-- The workspace in a file is made of the trees of its document. -/
theorem forest_of_workspaceIn {files : Files} {path : String}
    (h : workspaceIn files path = .ok w) :
    ∃ trees, w = Workspace.ofNodes (Workspace.forest 0 trees) := by
  obtain ⟨document, hload⟩ : ∃ document, Document.load document = .ok w := by
    rcases hread : files.read (Path.shown path) with fault | text
    · unfold workspaceIn at h
      rw [hread] at h
      cases h
    · rw [workspaceIn_of_read hread] at h
      unfold Document.loadText at h
      rcases hparse : Document.parse (Path.fileName path) text with fault | document
      · rw [hparse] at h
        cases h
      · rw [hparse] at h
        exact ⟨document, h⟩
  obtain ⟨trees, -, -, -, hw⟩ := Document.load_ok hload
  exact ⟨trees, hw⟩

/-- How a check ends that finds these types without a rule. -/
def checked (types : List Value) : Except Halt Unit :=
  if types = [] then .ok ()
  else if types.any Value.isTorn then .error (.fault .notBytes)
  else .error .told

/-- Checking succeeds when no type is without a rule, and lists them otherwise. -/
theorem check_run {library : Library} {language path : String} {s : Shell} {types : List Value}
    (hlanguage : library.language s.files language = .ok L)
    (hw : workspaceIn s.files path = .ok w) (htypes : missingTypes L w = .ok types)
    (htexts : ∀ type ∈ types, type.IsText) :
    (check library path language s).1 = checked types ∧
      (types.any Value.isTorn = false → (check library path language s).2.out =
        s.out ++ String.join (types.map fun type => Text.plain (type.shown ++ "\n"))) := by
  obtain ⟨log, hopen⟩ := openLanguage_run hlanguage
  obtain ⟨log', hread⟩ := openWorkspace_ok (s := { s with log, session := .new L }) hw
  unfold check
  rw [Effect.bind_ok hopen, Effect.bind_ok hread]
  cases types with
  | nil =>
    obtain ⟨last, hinfo⟩ := tell_run .info
      ("All " ++ toString w.size ++ " blocks are supported by " ++ L.title)
      { s with log := log', session := .new L }
    simp only [htypes]
    rw [info, hinfo]
    exact ⟨rfl, fun _ => String.append_empty.symm⟩
  | cons type rest =>
    obtain ⟨out, hsaid, hout⟩ := sayLines_run htexts { s with log := log', session := .new L }
    simp only [htypes]
    unfold checked
    rw [if_neg (List.cons_ne_nil type rest), Effect.bind_apply, hsaid]
    rcases htorn : (type :: rest).any Value.isTorn with _ | _
    · obtain ⟨last, hfail⟩ := failWith_run (α := Unit)
        (toString (type :: rest).length ++ " block types have no " ++ L.title ++ " rule")
        { s with out, log := log', session := .new L }
      refine ⟨congrArg Prod.fst hfail, fun _ => ?_⟩
      exact (congrArg (·.2.out) hfail).trans (hout htorn)
    · exact ⟨rfl, nofun⟩

/-- A type that some pass misses is listed, whichever blocks were disabled in the pass, as long as
no rule says by itself that a type has none. So no pass misses any when checking succeeds. -/
theorem check_lists_missed {library : Library} {language path : String} {s : Shell}
    (hlanguage : library.language s.files language = .ok L)
    (hw : workspaceIn s.files path = .ok w)
    (htexts : ∀ h b, w.block? h = some b → b.type.IsText) (hrules : L.Relays) :
    ∃ listed : List Value, missingTypes L w = .ok listed ∧
      (check library path language s).1 = checked listed ∧
      (listed.any Value.isTorn = false → (check library path language s).2.out =
        s.out ++ String.join (listed.map fun type => Text.plain (type.shown ++ "\n"))) ∧
      (∀ type, L.Misses w type → ∃ t ∈ listed, type.same t = true) ∧
      ((check library path language s).1 = .ok () → ∀ type, ¬ L.Misses w type) := by
  obtain ⟨listed, hlisted, hall, hmem⟩ := missingTypes_texts (L := L) htexts
  obtain ⟨hend, hout⟩ := check_run hlanguage hw hlisted hall
  have hmissed : ∀ type, L.Misses w type → ∃ t ∈ listed, type.same t = true := by
    rintro type ⟨flags, session, fault, hpass, htype⟩
    obtain ⟨trees, rfl⟩ := forest_of_workspaceIn hw
    have haccuses : Accuses (fun type => ∃ t ∈ listed, type.same t = true)
        (L.pass ((Workspace.ofNodes (Workspace.forest 0 trees)).flagged flags)) := by
      refine Accuses.pass hrules fun top htop b hb hrule => ?_
      obtain ⟨h, -, rfl⟩ := List.mem_map.mp htop
      obtain ⟨b', hb', hsame⟩ := Workspace.type_of_mem_flagged
        (fun _ _ => Workspace.placed_forest trees) h hb
      rw [← hsame] at hrule ⊢
      exact hmem _ (Workspace.mem_members_ofNodes hb') b' hb' hrule
    exact haccuses session fault type hpass htype
  refine ⟨listed, hlisted, hend, hout, hmissed, fun hok type hmiss => ?_⟩
  obtain ⟨t, ht, -⟩ := hmissed type hmiss
  rw [hend, checked, if_neg (List.ne_nil_of_mem ht)] at hok
  split at hok <;> cases hok

/-! ### Workspaces of one disabled block -/

def draftFiles (text : String) : Files where
  here := "/"
  entries := [(["w.json"], .text text)]

/-- A document with one disabled block. -/
def draftDocument (type : String) : Value :=
  .table [(.str "blocks", .list [.table [(.str "type", .str type), (.str "disabled", .bool true)]])]

def draftWorkspace (type : String) : Workspace where
  nodes := [{ block := { type := .str type, id := .str "b1", disabled := .bool true } }]
  members := [0]

def draftLibrary (L : Language) : Library := { modules := [("rules", [("rules", L)])] }

theorem workspaceIn_draftFiles {text type : String}
    (hdocument : Json.read (String.ofList (Document.unifyLines text.toList)) =
      .ok (draftDocument type)) :
    workspaceIn (draftFiles text) "/w.json" = .ok (draftWorkspace type) := by
  have hshown : Path.shown "/w.json" = "/w.json" := by decide +kernel
  have hplace : (draftFiles text).place (Path.shown "/w.json") = .ok ["w.json"] := by
    rw [hshown]
    exact Files.place_below_root _ (by decide +kernel) rfl (by decide) rfl (by decide) (by decide)
  exact (workspaceIn_of_document hplace rfl hdocument).trans rfl

theorem language_draftLibrary (L : Language) (text : String) :
    (draftLibrary L).language (draftFiles text) "rules" = .ok L := by
  have hfile : (draftFiles text).isFile "rules" = false := by
    have hroot : "rules".startsWith "/" = false := by decide +kernel
    have hplace : (draftFiles text).place "rules" = .ok ["rules"] := by
      unfold Files.place
      rw [hroot]
      have hstart : Path.names (draftFiles text).here = [] := by
        show Path.names "/" = []
        decide +kernel
      have hnames : (Text.splitAt '/' "rules".toList).map String.ofList = ["rules"] := by
        decide +kernel
      simp only [hstart, hnames]
      rfl
    unfold Files.isFile
    rw [hplace]
    rfl
  have hscript : "rules".endsWith ".py" = false := by decide +kernel
  have hpoint : "rules".startsWith "." = false := by decide +kernel
  have hfind : (draftLibrary L).find (draftFiles text) "rules" = .ok [("rules", L)] := by
    unfold Library.find Library.findModule
    rw [hfile, hscript, hpoint]
    rfl
  unfold Library.language
  rw [hfile]
  show (do Library.choose (← (draftLibrary L).find (draftFiles text) "rules") "") = _
  rw [hfind]
  rfl

theorem draftWorkspace_texts (type : String) (h : Nat) (b : Block)
    (hb : (draftWorkspace type).block? h = some b) : b.type.IsText := by
  rcases h with _ | h
  · cases hb
    exact ⟨type, rfl⟩
  · cases hb

/-- The fault of a pass over the block once it is enabled. -/
def draftRefusal (type : String) : GenerationError :=
  .unsupportedType (.str "Python") (.str type)
    (some { type := .str type, id := .str "b1", disabled := .bool false })

/-- A document whose block has a type without a rule. -/
def plainDraft : String := "\x7b\"blocks\":[\x7b\"type\":\"list\",\"disabled\":true\x7d]\x7d"

theorem read_plainDraft : Json.read (String.ofList (Document.unifyLines plainDraft.toList)) =
    .ok (draftDocument "list") := by
  have hchars : Document.unifyLines plainDraft.toList =
      ['{', '"', 'b', 'l', 'o', 'c', 'k', 's', '"', ':', '[', '{', '"', 't', 'y', 'p', 'e', '"',
        ':', '"', 'l', 'i', 's', 't', '"', ',', '"', 'd', 'i', 's', 'a', 'b', 'l', 'e', 'd', '"',
        ':', 't', 'r', 'u', 'e', '}', ']', '}'] := rfl
  exact read_unified hchars (by decide) rfl

/-- The type of a disabled block is listed, and a pass misses it once the block is enabled. -/
theorem disabledBlock_listed :
    (draftLibrary (.python {})).language (draftFiles plainDraft) "rules" = .ok (.python {}) ∧
      workspaceIn (draftFiles plainDraft) "/w.json" = .ok (draftWorkspace "list") ∧
      (∀ h b, (draftWorkspace "list").block? h = some b → b.type.IsText) ∧
      (Language.python {}).Relays ∧
      (Language.python {}).Misses (draftWorkspace "list") (.str "list") ∧
      ∃ listed : List Value, missingTypes (.python {}) (draftWorkspace "list") = .ok listed ∧
        (check (draftLibrary (.python {})) "/w.json" "rules"
          { files := draftFiles plainDraft }).1 = checked listed ∧
        (listed.any Value.isTorn = false →
          (check (draftLibrary (.python {})) "/w.json" "rules"
            { files := draftFiles plainDraft }).2.out =
            "" ++ String.join (listed.map fun type => Text.plain (type.shown ++ "\n"))) ∧
        (∀ type, (Language.python {}).Misses (draftWorkspace "list") type →
          ∃ t ∈ listed, type.same t = true) ∧
        ((check (draftLibrary (.python {})) "/w.json" "rules"
          { files := draftFiles plainDraft }).1 = .ok () →
          ∀ type, ¬ (Language.python {}).Misses (draftWorkspace "list") type) :=
  ⟨language_draftLibrary _ _, workspaceIn_draftFiles read_plainDraft, draftWorkspace_texts "list",
    Python.relays {}, ⟨fun _ => .bool false, {}, (draftRefusal "list").fault, rfl, rfl⟩,
    check_lists_missed (language_draftLibrary _ _)
      (workspaceIn_draftFiles read_plainDraft) (draftWorkspace_texts "list") (Python.relays {})⟩

/-! ### A type that no block has, and a coloured one -/

/-- A language whose rule says that a type of its own making has no rule. -/
def ghostly : Language where
  name := .str "Toy"
  rules := [(.str "list", fun b _ =>
    Script.fail (GenerationError.unsupportedType (.str "Toy") (.str "ghost") (some b)).fault)]

/-- A document whose block has a type that begins with an escape sequence. -/
def colouredDraft : String :=
  "\x7b\"blocks\":[\x7b\"type\":\"\\u001b[0mlist\",\"disabled\":true\x7d]\x7d"

theorem read_colouredDraft : Json.read (String.ofList (Document.unifyLines colouredDraft.toList)) =
    .ok (draftDocument "\x1b[0mlist") := by
  have hchars : Document.unifyLines colouredDraft.toList =
      ['{', '"', 'b', 'l', 'o', 'c', 'k', 's', '"', ':', '[', '{', '"', 't', 'y', 'p', 'e', '"',
        ':', '"', '\\', 'u', '0', '0', '1', 'b', '[', '0', 'm', 'l', 'i', 's', 't', '"', ',', '"',
        'd', 'i', 's', 'a', 'b', 'l', 'e', 'd', '"', ':', 't', 'r', 'u', 'e', '}', ']', '}'] := rfl
  exact read_unified hchars (by decide) rfl

/-- What a rule says by itself of a type is not listed: checking succeeds and the pass does not.
Nor is a type listed as it is when it begins with an escape sequence. -/
theorem ghost_unlisted :
    ((draftLibrary ghostly).language (draftFiles plainDraft) "rules" = .ok ghostly ∧
      workspaceIn (draftFiles plainDraft) "/w.json" = .ok (draftWorkspace "list") ∧
      (∀ h b, (draftWorkspace "list").block? h = some b → b.type.IsText) ∧
      (check (draftLibrary ghostly) "/w.json" "rules" { files := draftFiles plainDraft }).1 =
        .ok () ∧
      ghostly.Misses (draftWorkspace "list") (.str "ghost")) ∧
    workspaceIn (draftFiles colouredDraft) "/w.json" = .ok (draftWorkspace "\x1b[0mlist") ∧
      (check (draftLibrary (.python {})) "/w.json" "rules"
        { files := draftFiles colouredDraft }).2.out = "list\n" ∧
      (Language.python {}).Misses (draftWorkspace "\x1b[0mlist") (.str "\x1b[0mlist") := by
  have hplain := workspaceIn_draftFiles read_plainDraft
  have hcoloured := workspaceIn_draftFiles read_colouredDraft
  have hnone : missingTypes ghostly (draftWorkspace "list") = .ok [] := rfl
  have hone : missingTypes (.python {}) (draftWorkspace "\x1b[0mlist") =
      .ok [.str "\x1b[0mlist"] := rfl
  refine ⟨⟨language_draftLibrary _ _, hplain, draftWorkspace_texts "list", ?_, ?_⟩, hcoloured, ?_,
    ⟨fun _ => .bool false, {}, (draftRefusal "\x1b[0mlist").fault, rfl, rfl⟩⟩
  · rw [(check_run (s := { files := draftFiles plainDraft }) (language_draftLibrary ghostly _)
      hplain hnone nofun).1]
    rfl
  · exact ⟨fun _ => .bool false, {}, GenerationError.fault (.unsupportedType (.str "Toy")
      (.str "ghost") (some { type := .str "list", id := .str "b1", disabled := .bool false })),
      rfl, rfl⟩
  · rw [(check_run (s := { files := draftFiles colouredDraft })
      (language_draftLibrary (.python {}) _) hcoloured hone ?_).2 rfl]
    · decide +kernel
    · exact List.forall_mem_singleton.mpr ⟨_, rfl⟩

end Shell

end BlockCode
