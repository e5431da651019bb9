-- Induction on values, and when values are the same. A text is the same as itself
-- only, so a table can be looked up by names.
import BlockCode.Value.Table

namespace BlockCode

open Number

namespace Number.Extended

theorem same_self (x : Extended) : x.same x = true := by
  cases x with
  | dyadic m e => simp [same, cmp]
  | _ => rfl

theorem same_symm {x y : Extended} (h : x.same y = true) : y.same x = true := by
  unfold same at *
  cases x with
  | dyadic m e =>
    cases y with
    | dyadic n f =>
      simp only [cmp, beq_iff_eq, Std.compare_eq_iff_eq] at *
      rw [Int.min_comm f e]
      exact h.symm
    | _ => cases h
  | _ => cases y <;> first | rfl | cases h

end Number.Extended

namespace Value

/-- Induction on values: a list, a tuple or a table may use the property of all that is
in it. -/
@[elab_as_elim]
theorem inductionOn {P : Value → Prop} (null : P null) (bool : ∀ b, P (bool b)) (int : ∀ i, P (int i))
    (float : ∀ x, P (float x)) (str : ∀ s, P (str s)) (torn : ∀ t, P (torn t))
    (list : ∀ items, (∀ x ∈ items, P x) → P (list items))
    (tuple : ∀ items, (∀ x ∈ items, P x) → P (tuple items))
    (table : ∀ entries, (∀ e ∈ entries, P e.1 ∧ P e.2) → P (table entries)) (v : Value) : P v :=
  @Value.rec P (fun items => ∀ x ∈ items, P x) (fun entries => ∀ e ∈ entries, P e.1 ∧ P e.2)
    (fun e => P e.1 ∧ P e.2) null bool int float str torn list tuple table
    (fun _ h => nomatch h)
    (fun _ _ hx hrest _ h => match h with
      | .head _ => hx
      | .tail _ h => hrest _ h)
    (fun _ h => nomatch h)
    (fun _ _ hx hrest _ h => match h with
      | .head _ => hx
      | .tail _ h => hrest _ h)
    (fun _ _ hk hv => ⟨hk, hv⟩) v

theorem same_str_iff (s : String) (v : Value) : (str s).same v = true ↔ v = str s := by
  cases v with
  | str t =>
    rw [same_str, beq_iff_eq]
    constructor
    · rintro rfl
      rfl
    · intro h
      cases h
      rfl
  | _ => exact ⟨fun h => (by cases h), fun h => (by cases h)⟩

instance decidableEqStr (v : Value) (s : String) : Decidable (v = str s) :=
  decidable_of_iff _ (same_str_iff s v)

/-- A value is one text at most. -/
theorem str_unique {v : Value} {s t : String} (hs : v = .str s) (ht : v = .str t) : s = t := by
  rw [hs] at ht
  cases ht
  rfl

/-! ## Sameness of all values -/

/-- What sameness of simple values is. -/
theorem sameAtom_iff (v w : Value) : v.sameAtom w = true ↔
    v = null ∧ w = null ∨ (∃ s, v = str s ∧ w = str s) ∨
      (∃ s t, v = torn s ∧ w = torn t ∧ s.signs = t.signs) ∨ v = float .nan ∧ w = float .nan ∨
      ∃ x y, v.number? = some x ∧ w.number? = some y ∧ x.same y = true := by
  constructor
  · intro h
    unfold sameAtom at h
    split at h
    · exact Or.inl ⟨rfl, rfl⟩
    · rw [beq_iff_eq] at h
      exact Or.inr (Or.inl ⟨_, rfl, by rw [h]⟩)
    · rw [beq_iff_eq] at h
      exact Or.inr (Or.inr (Or.inl ⟨_, _, rfl, rfl, h⟩))
    · exact Or.inr (Or.inr (Or.inr (Or.inl ⟨rfl, rfl⟩)))
    · split at h
      · exact Or.inr (Or.inr (Or.inr (Or.inr ⟨_, _, by assumption, by assumption, h⟩)))
      · cases h
  · rintro (⟨rfl, rfl⟩ | ⟨s, rfl, rfl⟩ | ⟨s, t, rfl, rfl, hst⟩ | ⟨rfl, rfl⟩ | ⟨x, y, hx, hy, hxy⟩)
    · rfl
    · exact beq_self_eq_true s
    · exact beq_iff_eq.mpr hst
    · rfl
    · unfold sameAtom
      split
      · rfl
      · cases hx
      · cases hx
      · rfl
      · rw [hx, hy]
        exact hxy

theorem sameAtom_symm {v w : Value} (h : v.sameAtom w = true) : w.sameAtom v = true := by
  rw [sameAtom_iff] at *
  rcases h with ⟨rfl, rfl⟩ | ⟨s, rfl, rfl⟩ | ⟨s, t, rfl, rfl, hst⟩ | ⟨rfl, rfl⟩ | ⟨x, y, hx, hy, hxy⟩
  · exact Or.inl ⟨rfl, rfl⟩
  · exact Or.inr (Or.inl ⟨s, rfl, rfl⟩)
  · exact Or.inr (Or.inr (Or.inl ⟨t, s, rfl, rfl, hst.symm⟩))
  · exact Or.inr (Or.inr (Or.inr (Or.inl ⟨rfl, rfl⟩)))
  · exact Or.inr (Or.inr (Or.inr (Or.inr ⟨y, x, hy, hx, Extended.same_symm hxy⟩)))

/-- Simple values are not made of others. -/
def isSimple : Value → Bool
  | list _ => false
  | tuple _ => false
  | table _ => false
  | _ => true

theorem same_of_simple {v : Value} (hv : v.isSimple = true) (w : Value) :
    v.same w = v.sameAtom w ∧ w.same v = w.sameAtom v := by
  cases v <;> cases w <;> first | exact ⟨rfl, rfl⟩ | cases hv

/-- Only a text is the same as a text. -/
theorem same_text_iff (v : Value) (s : String) : v.same (str s) = true ↔ v = str s := by
  rw [(same_of_simple rfl v).2, ← same_str_iff, (same_of_simple rfl v).1]
  exact ⟨sameAtom_symm, sameAtom_symm⟩

/-- The value is a text, with halves in it or without. -/
def IsText (v : Value) : Prop := ∃ signs, v.spelling? = some signs

/-- What is the same as a text is spelled like it. -/
theorem spelling?_of_same {v w : Value} {signs : Spelling} (h : v.same w = true)
    (hw : w.spelling? = some signs) : v.spelling? = some signs := by
  cases w with
  | str t =>
    rw [(same_text_iff v t).mp h]
    exact hw
  | torn t =>
    rw [(same_of_simple rfl v).2, sameAtom_iff] at h
    rcases h with ⟨_, ⟨⟩⟩ | ⟨_, _, ⟨⟩⟩ | ⟨s, _, rfl, ⟨⟩, hsame⟩ | ⟨_, ⟨⟩⟩ | ⟨_, _, _, ⟨⟩, _⟩
    exact (congrArg some hsame).trans hw
  | _ => cases hw

theorem sameNumber_self {v : Value} (hv : v.isSimple = true) {x : Extended}
    (hx : v.number? = some x) : v.same v = true := by
  rw [(same_of_simple hv v).1, sameAtom_iff]
  exact Or.inr (Or.inr (Or.inr (Or.inr ⟨x, x, hx, hx, Extended.same_self x⟩)))

theorem sameAll_self {items : List Value} (h : ∀ x ∈ items, x.same x = true) :
    sameAll items items = true := by
  induction items with
  | nil => rfl
  | cons x rest ih =>
    rw [sameAll, h x List.mem_cons_self, ih fun y hy => h y (List.mem_cons_of_mem _ hy)]
    rfl

/-- Every value is the same as itself. -/
theorem same_self (v : Value) : v.same v = true := by
  induction v using Value.inductionOn with
  | null => rfl
  | bool b => exact sameNumber_self rfl rfl
  | int i => exact sameNumber_self rfl rfl
  | float x =>
    cases x with
    | nan => rfl
    | _ => exact sameNumber_self rfl rfl
  | str s => exact beq_self_eq_true s
  | torn t => exact beq_self_eq_true t.signs
  | list items ih => exact sameAll_self ih
  | tuple items ih => exact sameAll_self ih
  | table entries ih =>
    rw [same, beq_self_eq_true, Bool.true_and]
    have hall : ∀ some : List (Value × Value), some ⊆ entries → sameEntries some entries = true := by
      intro some hsome
      induction some with
      | nil => rfl
      | cons e rest ihrest =>
        rcases e with ⟨k, v⟩
        have hmem : (k, v) ∈ entries := hsome List.mem_cons_self
        rw [sameEntries, ihrest (List.subset_of_cons_subset hsome), Bool.and_true,
          List.any_eq_true]
        refine ⟨(k, v), hmem, ?_⟩
        rw [(ih (k, v) hmem).1, (ih (k, v) hmem).2]
        rfl
    exact hall entries (List.Subset.refl _)

/-- Only NaN is not equal to itself. -/
theorem equals_self_iff (v : Value) : v.equals v = true ↔ v ≠ float .nan := by
  unfold equals
  split
  · exact ⟨fun h => (by cases h), fun h => absurd rfl h⟩
  · rename_i hnan
    exact ⟨fun _ => hnan, fun _ => same_self v⟩

theorem same_symm_of_key (v : Value) :
    ∀ w : Value, v.isKey = true → v.same w = true → w.same v = true := by
  induction v using Value.inductionOn with
  | tuple items ih =>
    intro w hkey h
    cases w with
    | tuple others =>
      rw [same] at *
      have hkeys : areKeys items = true := hkey
      clear hkey
      induction items generalizing others with
      | nil => cases others <;> first | rfl | cases h
      | cons x rest ihrest =>
        cases others with
        | nil => cases h
        | cons y others =>
          rw [sameAll, Bool.and_eq_true] at *
          rw [areKeys, Bool.and_eq_true] at hkeys
          exact ⟨ih x List.mem_cons_self y hkeys.1 h.1,
            ihrest (fun z hz => ih z (List.mem_cons_of_mem _ hz)) others h.2 hkeys.2⟩
    | _ => cases h
  | list items ih =>
    intro w hkey
    cases hkey
  | table entries ih =>
    intro w hkey
    cases hkey
  | _ =>
    intro w _ h
    rw [(same_of_simple rfl w).1] at h
    rw [(same_of_simple rfl w).2]
    exact sameAtom_symm h

end Value
end BlockCode
