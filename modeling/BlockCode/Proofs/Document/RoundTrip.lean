-- Writing a workspace that was read, and reading what was written. A document need not
-- come back as it was: flags become truth values, comments that say nothing go, and a
-- tree whose input is taken by another is lost. But what is written once is written the
-- same again.
import BlockCode.Proofs.Document.Identity
import BlockCode.Proofs.Document.Tidy
import Mathlib.Data.List.Perm.Subperm

namespace BlockCode

/-! ## The ids that are written -/

theorem Inputs.ids_append (inputs more : Inputs) :
    (inputs.append more).ids = inputs.ids ++ more.ids := by
  unfold Inputs.ids
  rw [Inputs.blocks_append, List.map_append]

/-- A tree is told of with the ids that it has, in another order. -/
theorem Chain.ids_plain (c : Chain) : c.plain.ids.Perm c.ids := by
  induction c using Chain.inductionOn with
  | nil => exact List.Perm.refl _
  | cons b inputs next hin hnext =>
    have hinputs : inputs.sorted.ids.Perm inputs.ids := by
      clear hnext
      rw [Inputs.sorted, Inputs.ids_append]
      induction inputs using Inputs.inductionOn with
      | nil => exact List.Perm.refl _
      | cons name kind target rest ih =>
        have hrest := ih hin.2
        rw [Document.Inputs.ids_cons]
        cases kind with
        | value =>
          show ((Inputs.cons name .value target.plain (rest.plain .value)).ids ++ _).Perm _
          rw [Document.Inputs.ids_cons, List.append_assoc]
          exact hin.1.append hrest
        | statement =>
          show (_ ++ (Inputs.cons name .statement target.plain (rest.plain .statement)).ids).Perm _
          rw [Document.Inputs.ids_cons]
          refine List.perm_append_comm_assoc _ _ _ |>.trans ?_
          exact hin.1.append hrest
    rw [Chain.plain, Document.Chain.ids_cons, Document.Chain.ids_cons]
    exact (hinputs.append hnext).cons _

theorem Inputs.ids_declare (inputs : Inputs) (name : Value) (kind : SlotKind) :
    (inputs.declare name kind).ids = inputs.ids := by
  unfold declare
  split
  · rfl
  · rw [ids_append]
    exact List.append_nil _

theorem Inputs.ids_plug (inputs : Inputs) (name : Value) (tree : Chain) :
    (inputs.plug name tree).ids.Subperm (inputs.ids ++ tree.ids) := by
  induction inputs using Inputs.inductionOn with
  | nil => exact List.nil_subperm
  | cons n kind target rest ih =>
    rw [plug, Document.Inputs.ids_cons]
    split
    · rw [Document.Inputs.ids_cons]
      refine List.perm_append_comm.subperm.trans ?_
      rw [List.append_assoc]
      exact (List.sublist_append_right _ _).subperm
    · rw [Document.Inputs.ids_cons, List.append_assoc]
      exact (List.subperm_append_left _).mpr ih

/-- A tree that has grown has the ids that were given and made up, save those of trees
whose input was taken. -/
theorem Chain.ids_settle (c : Chain) (start : Nat) :
    (c.settle start).ids.Subperm (numbered start c.ids) := by
  induction c using Chain.inductionOn generalizing start with
  | nil => exact List.nil_subperm
  | cons b inputs next hin hnext =>
    have hinputs : ∀ (done : Inputs) start,
        (done.settleFrom start inputs).ids.Subperm (done.ids ++ numbered start inputs.ids) := by
      clear hnext
      induction inputs using Inputs.inductionOn with
      | nil =>
        intro done start
        exact (List.sublist_append_left _ _).subperm
      | cons name kind target rest ih =>
        intro done start
        rw [Inputs.settleFrom, Document.Inputs.ids_cons]
        rcases hempty : target.isEmpty with _ | _
        · simp only [Bool.false_eq_true, if_false]
          refine (ih hin.2 _ _).trans ?_
          rw [numbered_append, ← List.append_assoc]
          rw [show target.ids.length = target.blocks.length from List.length_map _]
          refine (List.subperm_append_right _).mpr ?_
          refine (Inputs.ids_plug _ _ _).trans ?_
          rw [Inputs.ids_declare]
          exact (List.subperm_append_left _).mpr (hin.1 start)
        · have htarget : target = .nil := by
            cases target with
            | nil => rfl
            | cons b inputs next => cases hempty
          subst htarget
          simp only [if_true]
          refine (ih hin.2 _ _).trans ?_
          rw [Inputs.ids_declare]
          rfl
    rw [Chain.settle, Document.Chain.ids_cons, Document.Chain.ids_cons, numbered_cons,
      numbered_append]
    refine (List.subperm_cons _).mpr ((hinputs .nil _).append ?_)
    rw [show inputs.ids.length = inputs.blocks.length from List.length_map _]
    exact hnext _

namespace Workspace

theorem ids_settled (start : Nat) (trees : List Chain) :
    ((settled start trees).flatMap Chain.ids).Subperm
      (numbered start (trees.flatMap Chain.ids)) := by
  induction trees generalizing start with
  | nil => exact List.nil_subperm
  | cons c rest ih =>
    rw [settled, List.flatMap_cons, List.flatMap_cons, numbered_append]
    rw [show c.ids.length = c.blocks.length from List.length_map _]
    exact (c.ids_settle start).append (ih _)

theorem ids_told (trees : List Chain) :
    ((trees.map Chain.plain).flatMap Chain.ids).Perm (trees.flatMap Chain.ids) := by
  induction trees with
  | nil => exact List.Perm.refl _
  | cons c rest ih =>
    rw [List.map_cons, List.flatMap_cons, List.flatMap_cons]
    exact c.ids_plain.append ih

end Workspace

/-! ## Ids that can be claimed -/

namespace Document

/-- Neither is taken for the other. -/
def Unlike (a b : Value) : Prop := a.same b = false ∧ b.same a = false

theorem claims_of_unlike {ids seen : List Value}
    (hkeys : ∀ id ∈ ids, id.isNull = false ∧ id.isKey = true) (hapart : ids.Pairwise Unlike)
    (hseen : ∀ id ∈ ids, ∀ s ∈ seen, Unlike id s) : ∃ all, claims seen ids = some all := by
  induction ids generalizing seen with
  | nil => exact ⟨seen, rfl⟩
  | cons id rest ih =>
    obtain ⟨hnull, hkey⟩ := hkeys id List.mem_cons_self
    have hfree : seen.any (id.same ·) = false := by
      rw [List.any_eq_false]
      intro s hs
      rw [(hseen id List.mem_cons_self s hs).1]
      exact Bool.false_ne_true
    obtain ⟨hhere, hrest⟩ := List.pairwise_cons.mp hapart
    rw [claims, hnull, hkey, hfree]
    refine ih (fun v hv => hkeys v (List.mem_cons_of_mem _ hv)) hrest ?_
    intro v hv s hs
    rcases List.mem_cons.mp hs with rfl | hs
    · exact ⟨(hhere v hv).2, (hhere v hv).1⟩
    · exact hseen v (List.mem_cons_of_mem _ hv) s hs

theorem unlike_of_distinct {ids : List Value} (hkeys : ∀ id ∈ ids, id.isKey = true)
    (hnan : ∀ id ∈ ids, id ≠ .float .nan)
    (hapart : ids.Pairwise fun a b => a.equals b = false) : ids.Pairwise Unlike := by
  refine hapart.imp_of_mem ?_
  intro a b ha hb hunequal
  have hsame : a.same b = false := by
    unfold Value.equals at hunequal
    split at hunequal
    · exact absurd rfl (hnan _ ha)
    · exact hunequal
  refine ⟨hsame, ?_⟩
  by_contra hback
  rw [Bool.not_eq_false] at hback
  rw [Value.same_symm_of_key b a (hkeys b hb) hback] at hsame
  cases hsame

theorem keys_numbered {given all : List Value} (h : claims [] given = some all) :
    ∀ id ∈ numbered 0 given, id.isNull = false ∧ id.isKey = true := by
  intro id hid
  obtain ⟨k, hk⟩ := List.mem_iff_getElem?.mp hid
  rcases numbered_at hk with ⟨-, rfl⟩ | ⟨hgiven, hne⟩
  · exact ⟨rfl, rfl⟩
  · refine ⟨?_, ((claims_apart h).2 id (List.mem_iff_getElem?.mpr ⟨k, hgiven⟩) hne).1⟩
    by_contra hnull
    rw [Bool.not_eq_false] at hnull
    exact hne ((Value.isNull_iff id).mp hnull)

/-! ## Written, read and written again -/

open Workspace

/-- The document with these entries. -/
def ofEntries (entries : List Value) : Value := .table [(.str "blocks", .list entries)]

theorem outlines_ofEntries (entries : List Value) :
    outlines (ofEntries entries) = entries.mapM outline := rfl

theorem save_eq {w : Workspace} {entries : List Value} (h : w.trees.mapM entry = .ok entries) :
    save w = .ok (ofEntries entries) := by
  unfold save
  rw [h]
  rfl

/-- Trees whose fields are tables are written, and their entries tell of them. -/
theorem tells_all {trees : List Chain} (htrees : ∀ c ∈ trees, c.isEmpty = false ∧ c.Tabled) :
    ∃ entries, trees.mapM entry = .ok entries ∧
      entries.mapM outline = some (trees.map Chain.plain) := by
  induction trees with
  | nil => exact ⟨[], rfl, rfl⟩
  | cons c rest ih =>
    obtain ⟨hne, htabled⟩ := htrees c List.mem_cons_self
    obtain ⟨v, hv, -, hcons⟩ := tells c htabled
    obtain ⟨entries, hentries, hout⟩ := ih fun d hd => htrees d (List.mem_cons_of_mem _ hd)
    refine ⟨v :: entries, ?_, ?_⟩
    · rw [List.mapM_cons, hv, hentries]
      rfl
    · rw [List.mapM_cons, (hcons hne).1, hout]
      rfl

/-- Tidy trees that are told of and grown again have the same entries. -/
theorem steady_all {trees : List Chain} (htrees : ∀ c ∈ trees, c.Tidy) (start : Nat) :
    (settled start (trees.map Chain.plain)).mapM entry = trees.mapM entry := by
  induction trees generalizing start with
  | nil => rfl
  | cons c rest ih =>
    rw [List.map_cons, settled, List.mapM_cons, List.mapM_cons,
      steady c (htrees c List.mem_cons_self), ih fun d hd => htrees d (List.mem_cons_of_mem _ hd)]

theorem mem_settled {trees : List Chain} {start : Nat} {c : Chain} (h : c ∈ settled start trees) :
    ∃ d ∈ trees, ∃ place, c = d.settle place := by
  induction trees generalizing start with
  | nil => cases h
  | cons d rest ih =>
    rcases List.mem_cons.mp h with rfl | h
    · exact ⟨d, List.mem_cons_self, start, rfl⟩
    · obtain ⟨e, he, place, rfl⟩ := ih h
      exact ⟨e, List.mem_cons_of_mem _ he, place, rfl⟩

theorem formed_outlines {d : Value} {trees : List Chain} (h : outlines d = some trees) :
    ∀ c ∈ trees, c.isEmpty = false ∧ c.Formed := by
  have hall : ∀ (entries : List Value) (found : List Chain), entries.mapM outline = some found →
      ∀ c ∈ found, c.isEmpty = false ∧ c.Formed := by
    intro entries
    induction entries with
    | nil =>
      intro found hfound c hc
      cases hfound
      cases hc
    | cons v rest ih =>
      intro found hfound c hc
      rw [List.mapM_cons] at hfound
      obtain ⟨first, hfirst, hfound⟩ := Option.bind_eq_some_iff.mp hfound
      obtain ⟨others, hothers, hfound⟩ := Option.bind_eq_some_iff.mp hfound
      cases hfound
      rcases List.mem_cons.mp hc with rfl | hc
      · exact ⟨outline_not_empty hfirst, (formedOutline v).1 _ hfirst⟩
      · exact ih others hothers c hc
  unfold outlines at h
  split at h
  · split at h
    · exact hall _ trees h
    · cases h
  · cases h

/-- A workspace that was read, and whose ids tell its blocks apart, is written; what is
written can be read; and what is read then is written the same again. -/
theorem saved_again_alike {d : Value} {w : Workspace} (h : load d = .ok w) (hapart : w.Distinct)
    (hnan : ∀ id ∈ w.ids, id ≠ .float .nan) :
    ∃ saved again, save w = .ok saved ∧ load saved = .ok again ∧ save again = .ok saved := by
  obtain ⟨trees, seen, hout, hclaim, rfl⟩ := load_ok h
  have htrees := formed_outlines hout
  rw [Workspace.Distinct, ids_ofNodes, ids_forest] at hapart
  rw [ids_ofNodes, ids_forest] at hnan
  have hkeys := keys_numbered hclaim
  have htidy : ∀ c ∈ settled 0 trees, c.isEmpty = false ∧ c.Tidy := by
    intro c hc
    obtain ⟨e, he, place, rfl⟩ := mem_settled hc
    exact ⟨by rw [Chain.isEmpty_settle, (htrees e he).1], e.tidy_settle (htrees e he).2 place⟩
  -- The first writing.
  obtain ⟨entries, hentries, htold⟩ :=
    tells_all fun c hc => ⟨(htidy c hc).1, c.tabled_of_tidy (htidy c hc).2⟩
  have hsave : save (ofNodes (forest 0 trees)) = .ok (ofEntries entries) :=
    save_eq (by rw [trees_forest fun c hc => (htrees c hc).1, hentries])
  -- The reading: what is written brings some of the ids along, each once.
  have hids : (((settled 0 trees).map Chain.plain).flatMap Chain.ids).Subperm
      (numbered 0 (trees.flatMap Chain.ids)) :=
    (ids_told _).subperm.trans (ids_settled 0 trees)
  have hunlike := unlike_of_distinct (fun id hid => (hkeys id hid).2) hnan hapart
  obtain ⟨sublist, hperm, hsub⟩ := hids
  have hsymm : ∀ {a b : Value}, Unlike a b → Unlike b a := fun h => ⟨h.2, h.1⟩
  obtain ⟨all, hall⟩ : ∃ all, claims [] (((settled 0 trees).map Chain.plain).flatMap Chain.ids) =
      some all := by
    refine claims_of_unlike ?_ ((hperm.pairwise_iff hsymm).mp (hunlike.sublist hsub)) ?_
    · exact fun id hid => hkeys id (hsub.subset (hperm.mem_iff.mpr hid))
    · exact fun _ _ s hs => absurd hs List.not_mem_nil
  have hload := load_of_outlines (by rw [outlines_ofEntries, htold]) hall
  -- The second writing.
  refine ⟨ofEntries entries, _, hsave, hload, save_eq ?_⟩
  have hnonempty : ∀ c ∈ (settled 0 trees).map Chain.plain, c.isEmpty = false := by
    intro c hc
    obtain ⟨e, he, rfl⟩ := List.mem_map.mp hc
    rw [Chain.isEmpty_plain, (htidy e he).1]
  rw [trees_forest hnonempty, steady_all (fun c hc => (htidy c hc).2), hentries]

/-- A comment that says nothing, a flag that is a number, and two entries for one input. -/
def contested : Value :=
  ofEntries [.table [(.str "type", .str "if"), (.str "comment", .str ""), (.str "disabled", .int 1),
    (.str "inputs", .table [(.str "DO", .table [(.str "type", .str "a"), (.str "id", .str "x")])]),
    (.str "statements", .table [(.str "DO", .table [(.str "type", .str "b")])])]]

def contestedTree : Chain :=
  .cons { type := .str "if", disabled := .bool true, comment := .str "" }
    (.cons (.str "DO") .value (.cons { type := .str "a", id := .str "x" } .nil .nil)
      (.cons (.str "DO") .statement (.cons { type := .str "b" } .nil .nil) .nil)) .nil

def contestedNodes : List Node :=
  [{ block := { type := .str "if", id := .str "b1", disabled := .bool true, comment := .str "" }
     slots := [{ name := .str "DO", kind := .value, target := some 2 }] },
    { block := { handle := 1, type := .str "a", id := .str "x" }, parent := some 0 },
    { block := { handle := 2, type := .str "b", id := .str "b3" }, parent := some 0 }]

/-- The entry of the block whose input was taken is lost, and the input keeps its kind. -/
theorem contested_saved_again :
    load contested = .ok (ofNodes contestedNodes) ∧ (ofNodes contestedNodes).Distinct ∧
      (∀ id ∈ (ofNodes contestedNodes).ids, id ≠ .float .nan) ∧
      save (ofNodes contestedNodes) = .ok (ofEntries [.table [(.str "type", .str "if"),
        (.str "id", .str "b1"), (.str "disabled", .bool true), (.str "inputs", .table
          [(.str "DO", .table [(.str "type", .str "b"), (.str "id", .str "b3")])])]]) ∧
      ∃ saved again, save (ofNodes contestedNodes) = .ok saved ∧ load saved = .ok again ∧
        save again = .ok saved := by
  have hout : outlines contested = some [contestedTree] := rfl
  have hload : load contested = .ok (ofNodes contestedNodes) := load_of_outlines hout rfl
  have hapart : (ofNodes contestedNodes).Distinct := by
    unfold Workspace.Distinct
    rw [ids_ofNodes]
    decide
  have hnan : ∀ id ∈ (ofNodes contestedNodes).ids, id ≠ .float .nan := by
    intro id hid h
    subst h
    simp [ids_ofNodes, contestedNodes] at hid
  exact ⟨hload, hapart, hnan, rfl, saved_again_alike hload hapart hnan⟩

end Document

end BlockCode
