-- Documents of a plain shape are read exactly. Such a document is refused only for an id that
-- it gives twice. Otherwise its blocks are its entries, one after the other, and it is written
-- again in its normal form.
import BlockCode.Proofs.Document.Refusal
import BlockCode.Proofs.Document.Standing
import Mathlib.Data.List.Permutation

namespace BlockCode.Document

open Workspace

theorem sketched_table {entries inner : Entries} {name : String}
    (h : part entries name (.table []) = .table inner) (kind : SlotKind) :
    sketched (sketches entries) name .nil (·.slots kind) = outlineSlots inner kind := by
  rw [sketched_eq]
  rcases get?_of_part h with ⟨hget, rfl⟩ | hget
  · rw [hget]
    rfl
  · rw [hget]
    rfl

theorem IsEntry.truth {v : Value} (h : IsEntry v) : v.truth = true := by
  cases h with
  | @mk entries _ _ _ htype =>
    cases entries with
    | nil => cases htype
    | cons e rest => rfl

/-! ## The trees of entries -/

/-- The tree says what is in the value. -/
structure Mirrors (v : Value) (c : Chain) : Prop where
  blocks : c.blocks = (preorder v).map given
  apart : c.Apart
  written : ∀ k, entry (c.settle k) = .ok (normal k v)

theorem mirrors_null : Mirrors .null .nil where
  blocks := by simp [Chain.blocks]
  apart := trivial
  written := by simp [normal, Chain.settle, entry]

/-- The inputs say what is in the table. -/
structure MirrorsIn (kind : SlotKind) (entries : Entries) (inputs : Inputs) : Prop where
  heads : inputs.heads = entries.map fun e => (e.1, kind)
  blocks : inputs.blocks = (preorderIn entries).map given
  apart : inputs.Apart
  written : ∀ k, inputEntries kind (inputs.settleEach k) = .ok (normalIn k entries)
  others : ∀ other, kind ≠ other → ∀ k, inputEntries other (inputs.settleEach k) = .ok []

theorem mirrorsIn_cons {kind : SlotKind} {name v : Value} {entries : Entries} {target : Chain}
    {inputs : Inputs} (htarget : Mirrors v target) (h : MirrorsIn kind entries inputs) :
    MirrorsIn kind ((name, v) :: entries) (.cons name kind target inputs) where
  heads := by rw [Inputs.heads, h.heads, List.map_cons]
  blocks := by rw [Inputs.blocks, htarget.blocks, h.blocks, preorderIn, List.map_append]
  apart := ⟨htarget.apart, h.apart⟩
  written k := by
    rw [Inputs.settleEach, inputEntries, htarget.written, h.written, normalIn, htarget.blocks]
    simp [bind, Except.bind, pure, Except.pure]
  others other hne k := by
    rw [Inputs.settleEach, inputEntries, h.others other hne]
    simp [hne]

theorem outlined_slots {entries : Entries} (kind : SlotKind)
    (h : ∀ e ∈ entries, e.2 ≠ .null → ∃ c, outline e.2 = some c ∧ Mirrors e.2 c) :
    ∃ inputs, outlineSlots entries kind = some inputs ∧ MirrorsIn kind entries inputs := by
  induction entries with
  | nil =>
    refine ⟨.nil, rfl, ?_⟩
    constructor <;>
      simp [Inputs.heads, Inputs.blocks, Inputs.Apart, Inputs.settleEach, inputEntries, preorderIn,
        normalIn]
  | cons e rest ih =>
    rcases e with ⟨name, v⟩
    obtain ⟨inputs, hout, hinputs⟩ := ih fun e he => h e (List.mem_cons_of_mem _ he)
    rw [outlineSlots]
    by_cases hnull : v = .null
    · subst hnull
      exact ⟨_, by rw [hout]; rfl, mirrorsIn_cons mirrors_null hinputs⟩
    · have hfalse : v.isNull = false := by
        rw [Bool.eq_false_iff]
        exact fun hv => hnull ((Value.isNull_iff v).mp hv)
      obtain ⟨c, hc, hmirrors⟩ := h (name, v) List.mem_cons_self hnull
      refine ⟨_, ?_, mirrorsIn_cons hmirrors hinputs⟩
      simp only at hc
      simp [hfalse, hc, hout]

theorem outlined_next {entries : Entries}
    (hshape : part entries "next" .null ≠ .null → IsEntry (part entries "next" .null))
    (h : part entries "next" .null ≠ .null →
      ∃ c, outline (part entries "next" .null) = some c ∧ Mirrors (part entries "next" .null) c) :
    ∃ c, outlineNext entries (sketches entries) = some c ∧ Mirrors (part entries "next" .null) c ∧
      c.isEmpty = (part entries "next" .null).isNull := by
  by_cases hnull : part entries "next" .null = .null
  · refine ⟨.nil, ?_, by rw [hnull]; exact mirrors_null, by rw [hnull]; rfl⟩
    unfold outlineNext
    rw [hnull]
    rfl
  · obtain ⟨c, hc, hmirrors⟩ := h hnull
    refine ⟨c, ?_, hmirrors, ?_⟩
    · have htruth := (hshape hnull).truth
      unfold outlineNext
      rw [htruth, sketched_eq]
      unfold part at hc hnull
      rcases hget : Entries.get? entries (.str "next") with _ | v
      · simp [hget] at hnull
      · simpa [hget] using hc
    · rw [outline_not_empty hc]
      rcases hv : part entries "next" .null with _ | _ <;> first | rfl | exact absurd hv hnull

theorem rawBlock_given {entries : Entries} {type : Value}
    (htype : Entries.get? entries (.str "type") = some type)
    (hfields : ∃ fields, part entries "fields" (.table []) = .table fields) :
    rawBlock entries type = some (given entries) := by
  obtain ⟨inner, hinner⟩ := hfields
  unfold rawBlock given
  rw [hinner, held_eq hinner]
  have htype' : part entries "type" .null = type := by
    unfold part
    rw [htype]
    rfl
  rw [htype']
  rfl

theorem isEmpty_normalIn (k : Nat) (entries : Entries) :
    (normalIn k entries).isEmpty = entries.isEmpty := by
  rcases entries with _ | ⟨⟨name, v⟩, rest⟩
  · simp [normalIn]
  · simp [normalIn]

theorem entry_normal {entries inputs statements : Entries} {values nested : Inputs} {next : Chain}
    (hinputs : part entries "inputs" (.table []) = .table inputs)
    (hstatements : part entries "statements" (.table []) = .table statements)
    (hvalues : MirrorsIn .value inputs values) (hnested : MirrorsIn .statement statements nested)
    (hnext : Mirrors (part entries "next" .null) next)
    (hlast : next.isEmpty = (part entries "next" .null).isNull)
    (hapart : (Chain.cons (given entries) (values.append nested) next).Apart) (k : Nat) :
    entry ((Chain.cons (given entries) (values.append nested) next).settle k) =
      .ok (normal k (.table entries)) := by
  have hfirst : inputEntries .value ((values.append nested).settleEach (k + 1)) =
      .ok (normalIn (k + 1) inputs) := by
    rw [Inputs.settleEach_append, inputEntries_append, hvalues.written,
      hnested.others .value (by decide)]
    simp [bind, Except.bind, pure, Except.pure]
  have hsecond : inputEntries .statement ((values.append nested).settleEach (k + 1)) =
      .ok (normalIn (k + 1 + (preorderIn inputs).length) statements) := by
    rw [Inputs.settleEach_append, inputEntries_append, hvalues.others .statement (by decide),
      hnested.written, hvalues.blocks, List.length_map]
    simp [bind, Except.bind, pure, Except.pure]
  have hcount : k + 1 + (values.append nested).blocks.length =
      k + 1 + (preorderIn inputs).length + (preorderIn statements).length := by
    rw [Inputs.blocks_append, List.length_append, hvalues.blocks, hnested.blocks, List.length_map,
      List.length_map, Nat.add_assoc (k + 1)]
  have hid : ((given entries).placed k).id.isNull = false := by
    unfold Block.placed
    by_cases hnull : (given entries).id.isNull = true
    · simp only [hnull, if_true]
      rfl
    · simp [hnull]
  have hfields : ((given entries).placed k).fields = .table (held entries "fields") := rfl
  rw [Chain.settle_apart hapart, hcount, entry_cons hfields hfirst hsecond (hnext.written _), normal]
  unfold entryParts
  simp only [hid, held_eq hinputs, held_eq hstatements, isEmpty_normalIn, Chain.isEmpty_settle,
    hlast]
  rfl

/-- Every entry of a plain shape describes a tree that says what is in it. -/
theorem IsEntry.outlined {v : Value} (h : IsEntry v) : ∃ c, outline v = some c ∧ Mirrors v c := by
  induction h with
  | @mk entries inputs statements type htype _ hfields hinputs hstatements hnames _ _ hbehind
      ihinputs ihstatements ihnext =>
    obtain ⟨values, houtv, hvalues⟩ := outlined_slots .value ihinputs
    obtain ⟨nested, houts, hnested⟩ := outlined_slots .statement ihstatements
    obtain ⟨next, houtn, hnext, hlast⟩ := outlined_next hbehind ihnext
    have hapart : (Chain.cons (given entries) (values.append nested) next).Apart := by
      refine ⟨?_, Inputs.apart_append hvalues.apart hnested.apart, hnext.apart⟩
      have hkinds : ((values.append nested).heads).map (·.1) =
          (inputs ++ statements).map (·.1) := by
        simp [Inputs.heads_append, hvalues.heads, hnested.heads, Function.comp_def]
      rw [← hkinds] at hnames
      exact List.pairwise_map.mp hnames
    refine ⟨.cons (given entries) (values.append nested) next, ?_, ?_, hapart, ?_⟩
    · rw [outline, outlineEntry, htype, sketched_table hinputs, sketched_table hstatements, houtv,
        houts, houtn, Option.bind_eq_bind, Option.bind_some, rawBlock_given htype hfields]
      rfl
    · rw [Chain.blocks, Inputs.blocks_append, hvalues.blocks, hnested.blocks, hnext.blocks,
        preorder, held_eq hinputs, held_eq hstatements]
      simp
    · exact entry_normal hinputs hstatements hvalues hnested hnext hlast hapart

/-! ## The trees of a document -/

/-- What is said of the trees of entries that stand one behind the other. -/
structure MirrorsAll (entries : List Value) (trees : List Chain) : Prop where
  filled : ∀ c ∈ trees, c.isEmpty = false
  apart : ∀ c ∈ trees, c.Apart
  blocks : trees.flatMap Chain.blocks = (entries.flatMap preorder).map given
  roots : ∀ k, roots k trees = numbersFrom k entries
  written : ∀ k, (settled k trees).mapM entry = .ok ((numbersFrom k entries).zipWith normal entries)

theorem outlined_all {entries : List Value} (h : ∀ v ∈ entries, IsEntry v) :
    ∃ trees, entries.mapM outline = some trees ∧ MirrorsAll entries trees := by
  induction entries with
  | nil =>
    refine ⟨[], rfl, ?_⟩
    constructor <;> simp [roots, numbersFrom, settled, pure, Except.pure]
  | cons v rest ih =>
    obtain ⟨c, hc, hmirrors⟩ := (h v List.mem_cons_self).outlined
    obtain ⟨trees, htrees, hall⟩ := ih fun u hu => h u (List.mem_cons_of_mem _ hu)
    have hlength : c.blocks.length = (preorder v).length := by
      rw [hmirrors.blocks, List.length_map]
    refine ⟨c :: trees, by simp [List.mapM_cons, hc, htrees], ?_, ?_, ?_, ?_, ?_⟩
    · simpa using ⟨outline_not_empty hc, hall.filled⟩
    · simpa using ⟨hmirrors.apart, hall.apart⟩
    · simp [hmirrors.blocks, hall.blocks]
    · intro k
      rw [Workspace.roots, numbersFrom, hall.roots, hlength]
    · intro k
      rw [settled, List.mapM_cons, hmirrors.written, hall.written, numbersFrom, hlength]
      rfl

theorem outlines_listed {d : Value} (h : WellShaped d) : outlines d = (listed d).mapM outline := by
  obtain ⟨⟨entries, blocks, rfl, hblocks⟩, -⟩ := h
  unfold outlines listed
  simp only [hblocks]

/-! ## Ids -/

theorem claims_texts {ids seen : List Value} (hids : ∀ id ∈ ids, id = .null ∨ ∃ s, id = .str s) :
    (∃ all, claims seen ids = some all) ↔
      (ids.filterMap Value.str?).Nodup ∧ ∀ s ∈ ids.filterMap Value.str?, .str s ∉ seen := by
  induction ids generalizing seen with
  | nil => simp [claims]
  | cons id rest ih =>
    have hrest : ∀ v ∈ rest, v = .null ∨ ∃ s, v = .str s :=
      fun v hv => hids v (List.mem_cons_of_mem _ hv)
    rcases hids id List.mem_cons_self with rfl | ⟨s, rfl⟩
    · rw [List.filterMap_cons_none Value.str?_null, ← ih hrest]
      rfl
    · have hseen : seen.any ((Value.str s).same ·) = true ↔ .str s ∈ seen := by
        simp [List.any_eq_true, Value.same_str_iff]
      by_cases hmem : Value.str s ∈ seen
      · simp [claims, Value.isNull, Value.isKey_str, hseen.mpr hmem, hmem]
      · have hfree : seen.any ((Value.str s).same ·) = false := by
          rw [Bool.eq_false_iff]
          exact fun hany => hmem (hseen.mp hany)
        have hclaims : claims seen (.str s :: rest) = claims (.str s :: seen) rest := by
          simp [claims, Value.isNull, Value.isKey_str, hfree]
        rw [hclaims, ih hrest, List.filterMap_cons_some (Value.str?_str s), List.nodup_cons]
        simp only [List.mem_cons, Value.str.injEq, not_or, forall_eq_or_imp]
        constructor
        · rintro ⟨hnodup, hnew⟩
          exact ⟨⟨fun hs => (hnew s hs).1 rfl, hnodup⟩, hmem, fun t ht => (hnew t ht).2⟩
        · rintro ⟨⟨hs, hnodup⟩, -, hnew⟩
          exact ⟨hnodup, fun t ht => ⟨fun heq => hs (heq ▸ ht), hnew t ht⟩⟩

/-! ## Whole documents -/

/-- The workspace has the entries of the document for its blocks, in their order, and says what
the document says. -/
structure Exact (w : Workspace) (d : Value) : Prop where
  blocks : w.members.map w.block? = (allEntries d).mapIdx fun k e => some ((given e).placed k)
  descendants : w.topBlocks.flatMap w.descendants = w.members
  tops : w.topBlocks = numbersFrom 0 (listed d)
  written : save w = .ok (normalised d)

theorem exact_forest {d : Value} {trees : List Chain} (h : MirrorsAll (listed d) trees) :
    Exact (ofNodes (forest 0 trees)) d where
  blocks := by
    have hall := blocks_forest 0 trees
    have hmembers : (ofNodes (forest 0 trees)).members.map (ofNodes (forest 0 trees)).block? =
        (forest 0 trees).map fun n => some n.block := by
      apply List.ext_getElem
      · simp [ofNodes]
      · intro k _ hk
        rw [List.length_map] at hk
        simp [ofNodes, block?, node?, hk]
    rw [h.blocks] at hall
    rw [hmembers, ← Function.comp_def some, ← List.map_map, hall]
    apply List.ext_getElem?
    intro k
    simp [placedFrom, allEntries, Function.comp_def]
  descendants := descendants_forest h.filled h.apart
  tops := by rw [topBlocks_forest h.filled, h.roots]
  written := by
    refine save_eq ?_
    rw [trees_forest h.filled, h.written]

/-- All ids in a document of a plain shape are texts, or nothing. -/
theorem IsEntry.ids {v : Value} (h : IsEntry v) :
    ∀ e ∈ preorder v, part e "id" .null = .null ∨ ∃ s, part e "id" .null = .str s := by
  induction h with
  | @mk entries inputs statements _ _ hid _ hinputs hstatements _ _ _ _ ihinputs ihstatements
      ihnext =>
    have hnested : ∀ slots : Entries, (∀ e ∈ slots, e.2 ≠ .null → ∀ u ∈ preorder e.2,
        part u "id" .null = .null ∨ ∃ s, part u "id" .null = .str s) →
        ∀ u ∈ preorderIn slots, part u "id" .null = .null ∨ ∃ s, part u "id" .null = .str s := by
      intro slots hslots u hu
      rw [preorderIn_eq, List.mem_flatMap] at hu
      obtain ⟨e, he, hu⟩ := hu
      by_cases hnull : e.2 = .null
      · simp [hnull] at hu
      · exact hslots e he hnull u hu
    intro u hu
    rw [preorder, held_eq hinputs, held_eq hstatements, List.mem_cons, List.mem_append,
      List.mem_append] at hu
    rcases hu with rfl | (hu | hu) | hu
    · exact hid
    · exact hnested inputs ihinputs u hu
    · exact hnested statements ihstatements u hu
    · by_cases hnull : part entries "next" .null = .null
      · simp [hnull] at hu
      · exact ihnext hnull u hu

theorem WellShaped.ids {d : Value} (h : WellShaped d) :
    ∀ id ∈ (allEntries d).map fun e => part e "id" .null, id = .null ∨ ∃ s, id = .str s := by
  intro id hid
  obtain ⟨e, he, rfl⟩ := List.mem_map.mp hid
  obtain ⟨v, hv, he⟩ := List.mem_flatMap.mp he
  exact (h.2 v hv).ids e he

/-- A document of a plain shape is refused exactly when it gives an id twice. Otherwise its
blocks are its entries, one after the other, and it is written in its normal form. -/
theorem load_exact {d : Value} (h : WellShaped d) :
    ((∃ e, load d = .error (.format e)) ↔ ¬ (explicitIds d).Nodup) ∧
      ((explicitIds d).Nodup → ∃ w, load d = .ok w ∧ Exact w d) := by
  obtain ⟨trees, htrees, hall⟩ := outlined_all h.2
  have hout : outlines d = some trees := by rw [outlines_listed h, htrees]
  have hids : trees.flatMap Chain.ids = (allEntries d).map fun e => part e "id" .null := by
    unfold Chain.ids
    rw [← List.map_flatMap, hall.blocks, List.map_map]
    rfl
  -- Ids that are made up are claimed by no entry, so only the given ones count.
  have hclaims : (∃ all, claims [] (trees.flatMap Chain.ids) = some all) ↔
      (explicitIds d).Nodup := by
    rw [hids, claims_texts h.ids, List.filterMap_map]
    simp [explicitIds]
  have hread : (explicitIds d).Nodup → ∃ w, load d = .ok w ∧ Exact w d := by
    intro hnodup
    obtain ⟨seen, hseen⟩ := hclaims.mpr hnodup
    exact ⟨_, load_of_outlines hout hseen, exact_forest hall⟩
  refine ⟨⟨?_, ?_⟩, hread⟩
  · rintro ⟨e, he⟩ hnodup
    obtain ⟨w, hw, -⟩ := hread hnodup
    rw [hw] at he
    cases he
  · intro hrepeat
    rcases hload : load d with fault | w
    · obtain ⟨id, rfl⟩ := h.refused hload
      exact ⟨_, rfl⟩
    · obtain ⟨trees', seen, hout', hseen, -⟩ := load_ok hload
      rw [hout, Option.some.injEq] at hout'
      subst hout'
      exact absurd (hclaims.mp ⟨seen, hseen⟩) hrepeat

/-- An entry with an empty input, a flag that is a number and a comment that says nothing, with
entries in its statements and behind it. Only one of them has an id. -/
def sketchy : Value :=
  ofEntries [.table [(.str "type", .str "if"), (.str "color", .int 3), (.str "disabled", .int 1),
    (.str "comment", .str ""), (.str "inputs", .table [(.str "IF", .null)]),
    (.str "statements", .table [(.str "DO", .table [(.str "type", .str "print"),
      (.str "id", .str "p"), (.str "fields", .table []), (.str "inputs", .table
        [(.str "TEXT", .table [(.str "type", .str "text"), (.str "output", .bool true)])])])]),
    (.str "next", .table [(.str "type", .str "stop")])]]

theorem wellShaped_sketchy : WellShaped sketchy := by
  have htext : IsEntry (.table [(.str "type", .str "text"), (.str "output", .bool true)]) :=
    .mk rfl (Or.inl rfl) ⟨_, rfl⟩ rfl rfl List.Pairwise.nil nofun nofun fun h => absurd rfl h
  have hstop : IsEntry (.table [(.str "type", .str "stop")]) :=
    .mk rfl (Or.inl rfl) ⟨_, rfl⟩ rfl rfl List.Pairwise.nil nofun nofun fun h => absurd rfl h
  have hprint : IsEntry (.table [(.str "type", .str "print"), (.str "id", .str "p"),
      (.str "fields", .table []), (.str "inputs", .table
        [(.str "TEXT", .table [(.str "type", .str "text"), (.str "output", .bool true)])])]) := by
    refine .mk rfl (Or.inr ⟨_, rfl⟩) ⟨_, rfl⟩ rfl rfl (List.pairwise_singleton _ _) ?_ nofun
      fun h => absurd rfl h
    intro e he _
    rw [List.mem_singleton.mp he]
    exact htext
  refine ⟨⟨_, _, rfl, rfl⟩, ?_⟩
  intro v hv
  rw [List.mem_singleton.mp hv]
  refine .mk rfl (Or.inl rfl) ⟨_, rfl⟩ rfl rfl (by decide) ?_ ?_ fun _ => hstop
  · intro e he hne
    rw [List.mem_singleton.mp he] at hne
    exact absurd rfl hne
  · intro e he _
    rw [List.mem_singleton.mp he]
    exact hprint

/-- The ids of the others are made up, and what says nothing is left out. -/
theorem sketchy_exact :
    WellShaped sketchy ∧ (explicitIds sketchy).Nodup ∧
      normalised sketchy = ofEntries [.table [(.str "type", .str "if"), (.str "id", .str "b1"),
        (.str "disabled", .bool true), (.str "inputs", .table [(.str "IF", .null)]),
        (.str "statements", .table [(.str "DO", .table [(.str "type", .str "print"),
          (.str "id", .str "p"), (.str "inputs", .table [(.str "TEXT", .table
            [(.str "type", .str "text"), (.str "id", .str "b3"), (.str "output", .bool true)])])])]),
        (.str "next", .table [(.str "type", .str "stop"), (.str "id", .str "b4")])]] ∧
      ∃ w, load sketchy = .ok w ∧ Exact w sketchy := by
  have hids : explicitIds sketchy = ["p"] := by cbv
  have hnodup : (explicitIds sketchy).Nodup := by
    rw [hids]
    decide
  exact ⟨wellShaped_sketchy, hnodup, by cbv, (load_exact wellShaped_sketchy).2 hnodup⟩

end BlockCode.Document
