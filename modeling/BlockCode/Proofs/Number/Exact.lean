-- Comparing numbers without rounding. Whole numbers, truth values and floating-point
-- numbers are compared as the real numbers that they are, with the two infinities at the
-- ends.
import Mathlib.Data.EReal.Basic
import BlockCode.Value.Sorted
import BlockCode.Proofs.Value.Sameness

namespace BlockCode

open Number

/-! ## The real number behind a place -/

namespace Number

/-- The real number at a place of the line. -/
noncomputable def Extended.real : Extended → EReal
  | bottom => ⊥
  | dyadic m e => ((m * 2 ^ e : ℝ) : EReal)
  | top => ⊤

theorem mantissaAt_real (m : Int) {e low : Int} (h : low ≤ e) :
    (Extended.mantissaAt m e low : ℝ) * 2 ^ low = m * 2 ^ e := by
  have hpower : ((2 : ℝ) ^ (e - low).toNat) * 2 ^ low = 2 ^ e := by
    rw [← zpow_natCast, Int.toNat_of_nonneg (by omega), ← zpow_add₀ (by norm_num)]
    congr 1
    omega
  calc (Extended.mantissaAt m e low : ℝ) * 2 ^ low
      = m * ((2 : ℝ) ^ (e - low).toNat * 2 ^ low) := by
        simp only [Extended.mantissaAt, Int.pow_eq, Int.cast_mul, Int.cast_pow, Int.cast_ofNat]
        ring
    _ = m * 2 ^ e := by rw [hpower]

/-- Two whole numbers are in the order of their products with a positive number. -/
theorem compare_scaled (a b : Int) {c : ℝ} (hc : 0 < c) :
    compare a b = compare ((a * c : ℝ) : EReal) ((b * c : ℝ) : EReal) := by
  rcases lt_trichotomy a b with hlt | rfl | hgt
  · rw [compare_lt_iff_lt.2 hlt, eq_comm, compare_lt_iff_lt, EReal.coe_lt_coe_iff]
    exact mul_lt_mul_of_pos_right (Int.cast_lt.2 hlt) hc
  · rw [compare_eq_iff_eq.2 rfl, compare_eq_iff_eq.2 rfl]
  · rw [compare_gt_iff_gt.2 hgt, eq_comm, compare_gt_iff_gt, EReal.coe_lt_coe_iff]
    exact mul_lt_mul_of_pos_right (Int.cast_lt.2 hgt) hc

theorem Extended.cmp_real (x y : Extended) : x.cmp y = compare x.real y.real := by
  cases x with
  | bottom =>
    cases y with
    | bottom => exact (compare_eq_iff_eq.2 rfl).symm
    | dyadic n f => exact (compare_lt_iff_lt.2 (EReal.bot_lt_coe _)).symm
    | top => exact (compare_lt_iff_lt.2 bot_lt_top).symm
  | dyadic m e =>
    cases y with
    | bottom => exact (compare_gt_iff_gt.2 (EReal.bot_lt_coe _)).symm
    | dyadic n f =>
      rw [cmp, real, real, ← mantissaAt_real m (min_le_left e f),
        ← mantissaAt_real n (min_le_right e f)]
      exact compare_scaled _ _ (zpow_pos (by norm_num) _)
    | top => exact (compare_lt_iff_lt.2 (EReal.coe_lt_top _)).symm
  | top =>
    cases y with
    | bottom => exact (compare_gt_iff_gt.2 bot_lt_top).symm
    | dyadic n f => exact (compare_gt_iff_gt.2 (EReal.coe_lt_top _)).symm
    | top => exact (compare_eq_iff_eq.2 rfl).symm

theorem Extended.lt_iff (x y : Extended) : x.lt y = true ↔ x.real < y.real := by
  rw [lt, beq_iff_eq, cmp_real, compare_lt_iff_lt]

theorem Extended.same_iff (x y : Extended) : x.same y = true ↔ x.real = y.real := by
  rw [same, beq_iff_eq, cmp_real, compare_eq_iff_eq]

/-- The number that a floating-point number is, unless it is NaN. -/
noncomputable def Binary64.real? : Binary64 → Option EReal
  | nan => none
  | infinite negative => some (if negative then ⊥ else ⊤)
  | finite negative m e => some (((if negative then -(m : ℝ) else m) * 2 ^ e : ℝ) : EReal)

theorem Binary64.real?_eq (x : Binary64) :
    x.real? = (Extended.ofBinary64? x).map Extended.real := by
  cases x with
  | nan => rfl
  | infinite negative => cases negative <;> rfl
  | finite negative m e => cases negative <;> simp [real?, Extended.ofBinary64?, Extended.real]

end Number

/-! ## Values -/

namespace Value

/-- The real number that a value is. Truth values are 1 and 0. -/
noncomputable def real? : Value → Option EReal
  | bool b => some (if b then 1 else 0)
  | int i => some ((i : ℝ) : EReal)
  | float x => x.real?
  | _ => none

theorem real?_eq (v : Value) : v.real? = v.number?.map Extended.real := by
  cases v with
  | bool b => cases b <;> simp [real?, number?, Extended.ofInt, Extended.real]
  | int i => simp [real?, number?, Extended.ofInt, Extended.real]
  | float x => exact x.real?_eq
  | _ => rfl

theorem number?_of_real? {v : Value} {x : EReal} (h : v.real? = some x) :
    ∃ place, v.number? = some place ∧ place.real = x := by
  rw [real?_eq, Option.map_eq_some_iff] at h
  exact h

theorem before?_iff {v w : Value} {x y : EReal} (hv : v.real? = some x) (hw : w.real? = some y) :
    before? v w = some true ↔ x < y := by
  obtain ⟨px, hpx, rfl⟩ := number?_of_real? hv
  obtain ⟨py, hpy, rfl⟩ := number?_of_real? hw
  have hbefore : before? v w = some (px.lt py) := by
    unfold before?
    split
    · cases hpx
    · rw [hpx, hpy]
  rw [hbefore, Option.some.injEq, Extended.lt_iff]

theorem same_number_iff {v w : Value} {x : EReal} (hv : v.real? = some x) :
    v.same w = true ↔ w.real? = some x := by
  obtain ⟨px, hpx, rfl⟩ := number?_of_real? hv
  have hsimple : v.isSimple = true := by
    cases v <;> first | rfl | cases hpx
  rw [(same_of_simple hsimple w).1, sameAtom_iff]
  constructor
  · rintro (⟨rfl, _⟩ | ⟨s, rfl, _⟩ | ⟨s, t, rfl, _⟩ | ⟨rfl, _⟩ | ⟨a, b, ha, hb, hab⟩)
    · cases hpx
    · cases hpx
    · cases hpx
    · cases hpx
    · rw [hpx] at ha
      cases ha
      rw [real?_eq, hb, Option.map_some, (Extended.same_iff px b).1 hab]
  · intro hw
    obtain ⟨pw, hpw, hreal⟩ := number?_of_real? hw
    exact Or.inr (Or.inr (Or.inr (Or.inr ⟨px, pw, hpx, hpw, (Extended.same_iff px pw).2 hreal.symm⟩)))

end Value
end BlockCode
