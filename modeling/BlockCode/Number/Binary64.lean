-- Floating-point numbers with 53 bits, held exactly: a sign, a whole mantissa and
-- a power of two. Reading rounds to the nearest number and a tie goes to the even
-- mantissa. Nothing here uses the arithmetic of the machine.
namespace BlockCode.Number

/-- A binary64 number. A finite one is `mantissa * 2 ^ exponent`, with the
mantissa below `2 ^ 53`; zero has exponent 0. -/
inductive Binary64 where
  | nan
  | infinite (negative : Bool)
  | finite (negative : Bool) (mantissa : Nat) (exponent : Int)
deriving DecidableEq, Repr, Inhabited

namespace Binary64

/-! ## Rounding -/

/-- The quotient rounded to the nearest whole number, a tie to the even one. -/
def roundDiv (n d : Nat) : Nat :=
  let q := n / d
  let r := n % d
  if 2 * r < d then q
  else if d < 2 * r then q + 1
  else q + q % 2

/-- The two sides of `n / d` at the scale `2 ^ e`. -/
def scaled (n d : Nat) (e : Int) : Nat × Nat :=
  if e < 0 then (n * Nat.pow 2 (-e).toNat, d) else (n, d * Nat.pow 2 e.toNat)

/-- The greatest `k` with `2 ^ k ≤ n / d`, for positive `n` and `d`. -/
def leadingPower (n d : Nat) : Int :=
  let k : Int := n.log2 - d.log2
  let (up, down) := scaled n d k
  if down ≤ up then k else k - 1

/-- The number nearest to `n / d`. -/
def ofRatio (negative : Bool) (n d : Nat) : Binary64 :=
  if n = 0 then finite negative 0 0
  else
    let e := max (leadingPower n d - 52) (-1074)
    let (up, down) := scaled n d e
    let m := roundDiv up down
    if m = 0 then finite negative 0 0
    else
      let (m, e) := if m = Nat.pow 2 53 then (Nat.pow 2 52, e + 1) else (m, e)
      if 971 < e then infinite negative else finite negative m e

/-- The number nearest to `digits * 10 ^ exponent`. The first two tests only
spare the work of a huge power: what they answer is also the nearest number. -/
def ofDecimal (negative : Bool) (digits : Nat) (exponent : Int) : Binary64 :=
  if digits = 0 then finite negative 0 0
  else if 310 < exponent then infinite negative
  else if exponent + digits.log2 / 3 + 2 < -330 then finite negative 0 0
  else if exponent < 0 then ofRatio negative digits (Nat.pow 10 (-exponent).toNat)
  else ofRatio negative (digits * Nat.pow 10 exponent.toNat) 1

/-! ## Views -/

def isNan : Binary64 → Bool
  | nan => true
  | _ => false

def isInfinite : Binary64 → Bool
  | infinite _ => true
  | _ => false

/-- Zero of either sign. -/
def isZero : Binary64 → Bool
  | finite _ 0 _ => true
  | _ => false

end Binary64
end BlockCode.Number
