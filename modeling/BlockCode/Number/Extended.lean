-- Exact numbers with two ends: every whole number and every floating-point number
-- that is a number stands here, and any two can be compared with no rounding.
import BlockCode.Number.Binary64

namespace BlockCode.Number

/-- A number `mantissa * 2 ^ exponent`, or one of the two ends. -/
inductive Extended where
  | bottom
  | dyadic (mantissa exponent : Int)
  | top
deriving DecidableEq, Repr

namespace Extended

def ofInt (i : Int) : Extended := dyadic i 0

/-- Every floating-point number but NaN has an exact place. -/
def ofBinary64? : Binary64 → Option Extended
  | .nan => none
  | .infinite negative => some (if negative then bottom else top)
  | .finite negative m e => some (dyadic (if negative then -(m : Int) else m) e)

/-- The mantissa at a lower exponent. -/
def mantissaAt (mantissa exponent low : Int) : Int := mantissa * Int.pow 2 (exponent - low).toNat

/-- Compares the exact values. -/
def cmp : Extended → Extended → Ordering
  | dyadic m e, dyadic n f => compare (mantissaAt m e (min e f)) (mantissaAt n f (min e f))
  | bottom, bottom => .eq
  | bottom, _ => .lt
  | dyadic _ _, bottom => .gt
  | dyadic _ _, top => .lt
  | top, top => .eq
  | top, _ => .gt

def lt (x y : Extended) : Bool := x.cmp y == .lt

def same (x y : Extended) : Bool := x.cmp y == .eq

end Extended
end BlockCode.Number
