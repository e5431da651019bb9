-- Which whole numbers are beyond all floating-point numbers. Rounding to 53 bits goes
-- to the nearest, so the bound is not the largest finite number itself: the whole numbers
-- less than half a step above it still become finite.
import Mathlib.Algebra.Group.Nat.Defs
import BlockCode.Number.Binary64

namespace BlockCode.Number.Binary64

/-! ## Rounding a quotient up to a power of two -/

theorem le_roundDiv (n d : Nat) : n / d ≤ roundDiv n d := by
  unfold roundDiv
  simp only
  split
  · exact Nat.le_refl _
  · split <;> omega

theorem roundDiv_le (n d : Nat) : roundDiv n d ≤ n / d + 1 := by
  unfold roundDiv
  simp only
  split
  · omega
  · split
    · omega
    · have := Nat.mod_lt (n / d) (show 0 < 2 by decide)
      omega

/-- A quotient below an even number is rounded up to it from half a step on: the tie goes
to the even number. -/
theorem roundDiv_eq_iff {n d top : Nat} (hlt : n < top * d) (heven : top % 2 = 0) :
    roundDiv n d = top ↔ 2 * (top * d) ≤ 2 * n + d := by
  have hd : 0 < d := by
    rcases Nat.eq_zero_or_pos d with rfl | hd
    · simp at hlt
    · exact hd
  have hq : n / d < top := (Nat.div_lt_iff_lt_mul hd).2 hlt
  have hn : d * (n / d) + n % d = n := Nat.div_add_mod n d
  have hr : n % d < d := Nat.mod_lt n hd
  rcases Nat.lt_or_ge (n / d + 1) top with hbelow | hlast
  · -- the quotient is more than a step away
    have hle := roundDiv_le n d
    have hstep : d * (n / d + 2) ≤ d * top := Nat.mul_le_mul_left d hbelow
    rw [Nat.mul_add] at hstep
    rw [Nat.mul_comm top d]
    constructor
    · intro h
      omega
    · intro h
      omega
  · have htop : top = n / d + 1 := by omega
    have hsplit : top * d = d * (n / d) + d := by rw [htop, Nat.mul_comm, Nat.mul_add, Nat.mul_one]
    have hodd : n / d % 2 = 1 := by omega
    unfold roundDiv
    simp only
    split
    · omega
    · split
      · omega
      · omega

/-! ## Whole numbers -/

theorem isInfinite_capped (negative : Bool) (mantissa : Nat) (exponent : Int) :
    (if 971 < exponent then infinite negative
      else finite negative mantissa exponent).isInfinite = true ↔ 971 < exponent := by
  split
  · rename_i hlarge
    exact ⟨fun _ => hlarge, fun _ => rfl⟩
  · rename_i hsmall
    exact ⟨fun h => absurd h (by simp [isInfinite]), fun h => absurd h hsmall⟩

theorem leadingPower_one {n : Nat} (hn : n ≠ 0) : leadingPower n 1 = n.log2 := by
  have hone : Nat.log2 1 = 0 := by decide
  have hle : 2 ^ n.log2 ≤ n := Nat.log2_self_le hn
  have hscale : scaled n 1 (n.log2 : Int) = (n, 2 ^ n.log2) := by
    simp [scaled, show ¬ ((n.log2 : Int) < 0) by omega]
  simp only [leadingPower, hone, Int.natCast_zero, Int.sub_zero, hscale, if_pos hle]

theorem ofRatio_small {n : Nat} (hlog : n.log2 < 52) (negative : Bool) :
    (ofRatio negative n 1).isInfinite = false := by
  by_cases hn : n = 0
  · simp [ofRatio, hn, isInfinite]
  · have he : max (leadingPower n 1 - 52) (-1074) = (n.log2 : Int) - 52 := by
      rw [leadingPower_one hn]
      omega
    rw [Bool.eq_false_iff]
    intro hinf
    simp only [ofRatio, if_neg hn, he] at hinf
    split at hinf
    · simp [isInfinite] at hinf
    · split at hinf
      · have := (isInfinite_capped ..).1 hinf
        omega
      · have := (isInfinite_capped ..).1 hinf
        omega

/-- A longer one is written with 53 bits and an exponent. The exponent is the number of bits
that are cut off, and one more when the rest is rounded up to the next power of two. -/
theorem ofRatio_large {n : Nat} (cut : Nat) (hlog : n.log2 = cut + 52) (negative : Bool) :
    (ofRatio negative n 1).isInfinite = true ↔
      971 < cut ∨ cut = 971 ∧ roundDiv n (2 ^ cut) = 2 ^ 53 := by
  have hn : n ≠ 0 := by
    rintro rfl
    simp at hlog
  have he : max (leadingPower n 1 - 52) (-1074) = (cut : Int) := by
    rw [leadingPower_one hn]
    omega
  have hscale : scaled n 1 (cut : Int) = (n, 2 ^ cut) := by
    simp [scaled, show ¬ ((cut : Int) < 0) by omega]
  have hpos : roundDiv n (2 ^ cut) ≠ 0 := by
    have hle : 2 ^ cut ≤ n :=
      Nat.le_trans (Nat.pow_le_pow_right (by decide) (by omega)) (Nat.log2_self_le hn)
    have hquot : 1 ≤ n / 2 ^ cut := Nat.div_pos hle (Nat.two_pow_pos cut)
    have := le_roundDiv n (2 ^ cut)
    omega
  simp only [ofRatio, if_neg hn, he, hscale, if_neg hpos]
  by_cases htop : roundDiv n (2 ^ cut) = 2 ^ 53
  · rw [if_pos (show roundDiv n (2 ^ cut) = Nat.pow 2 53 from htop)]
    simp only [isInfinite_capped, htop, and_true]
    omega
  · rw [if_neg (show roundDiv n (2 ^ cut) ≠ Nat.pow 2 53 from htop)]
    simp only [isInfinite_capped, htop, and_false, or_false]
    omega

/-- The least whole number that becomes infinite. It is half a step above the largest
finite floating-point number. -/
def beyond : Nat := 2 ^ 1024 - 2 ^ 970

theorem beyond_eq : beyond = (2 ^ 54 - 1) * 2 ^ 970 := by decide +kernel

theorem ofRatio_infinite_iff (n : Nat) (negative : Bool) :
    (ofRatio negative n 1).isInfinite = true ↔ beyond ≤ n := by
  have hhigh : n < 2 ^ (n.log2 + 1) := Nat.lt_log2_self
  rw [beyond_eq]
  generalize hbits : 970 = bits
  rcases Nat.lt_trichotomy n.log2 (53 + bits) with hfewer | hsame | hmore
  · have hlt : n < 2 ^ 53 * 2 ^ bits := by
      rw [← Nat.pow_add]
      exact Nat.lt_of_lt_of_le hhigh (Nat.pow_le_pow_right (by decide) hfewer)
    have hfinite : ¬ (ofRatio negative n 1).isInfinite = true := by
      rcases Nat.lt_or_ge n.log2 52 with hshort | hlong
      · simp [ofRatio_small hshort]
      · rw [ofRatio_large (n.log2 - 52) (by omega)]
        omega
    exact ⟨fun h => absurd h hfinite, fun h => by omega⟩
  · have hlt : n < 2 ^ 53 * 2 ^ (bits + 1) := by
      rw [← Nat.pow_add]
      rwa [hsame] at hhigh
    rw [ofRatio_large (bits + 1) (by omega), roundDiv_eq_iff hlt (by decide), Nat.pow_succ]
    omega
  · have hge : 2 ^ 54 * 2 ^ bits ≤ n := by
      have hn : n ≠ 0 := by
        rintro rfl
        simp at hmore
      rw [← Nat.pow_add]
      exact Nat.le_trans (Nat.pow_le_pow_right (by decide) (by omega)) (Nat.log2_self_le hn)
    have hinfinite : (ofRatio negative n 1).isInfinite = true := by
      rw [ofRatio_large (n.log2 - 52) (by omega)]
      omega
    exact ⟨fun _ => by omega, fun _ => hinfinite⟩

end BlockCode.Number.Binary64
