-- The shortest decimal for a floating-point number: the fewest digits that read
-- back as the number, and of those the nearest. It is written with a point when
-- the number is from 0.0001 up to 10 ^ 16, and with an exponent outside.
import BlockCode.Number.Binary64

namespace BlockCode.Number.Binary64

/-! ## The digits -/

/-- A number of the form `mantissa * 2 ^ exponent`, as a ratio. -/
def ratio (m : Nat) (e : Int) : Nat × Nat :=
  if e < 0 then (m, Nat.pow 2 (-e).toNat) else (m * Nat.pow 2 e.toNat, 1)

/-- The two sides of `n / d` at the scale `10 ^ p`. -/
def scaledTen (n d : Nat) (p : Int) : Nat × Nat :=
  if p < 0 then (n * Nat.pow 10 (-p).toNat, d) else (n, d * Nat.pow 10 p.toNat)

/-- The least `p`, of those that the size of the number allows, with
`n / d < 10 ^ p`. -/
def decimalPoint (n d : Nat) : Int :=
  let guess : Int := (leadingPower n d * 30103) / 100000
  let fits := fun p : Int => let (up, down) := scaledTen n d p; decide (up < down)
  ([guess - 1, guess, guess + 1].find? fits).getD (guess + 2)

/-- The nearer of the two neighbours of `n / d` on the grid `10 ^ p` that read
back as `x`. -/
def onGrid? (x : Binary64) (n d : Nat) (p : Int) : Option Nat :=
  let (up, down) := scaledTen n d p
  let low := up / down
  let back := fun digits => decide (ofDecimal false digits p = x)
  match back low, back (low + 1) with
  | true, true => some (roundDiv up down)
  | true, false => some low
  | false, true => some (low + 1)
  | false, false => none

/-- Tries grids of `count`, `count + 1`, and so on up to 17 digits. -/
def shortestFrom (x : Binary64) (n d : Nat) (point : Int) : Nat → Nat → Nat × Int
  | 0, count =>
    let p := point - count
    let (up, down) := scaledTen n d p
    (roundDiv up down, p)
  | more + 1, count =>
    let p := point - count
    match onGrid? x n d p with
    | some digits => (digits, p)
    | none => shortestFrom x n d point more (count + 1)

/-- The shortest digits of a positive number, and the power of ten of the last. -/
def shortest (m : Nat) (e : Int) : Nat × Int :=
  let (n, d) := ratio m e
  shortestFrom (finite false m e) n d (decimalPoint n d) 16 1

/-! ## The text -/

/-- Digits without the zeros at the end. -/
def dropZeros (digits : List Char) : List Char :=
  (digits.reverse.dropWhile (· == '0')).reverse

/-- A power of ten as it stands after the `e`: signed, with two digits or more. -/
def exponentText (p : Int) : List Char :=
  let digits := Nat.toDigits 10 p.natAbs
  (if p < 0 then '-' else '+') :: (List.replicate (2 - digits.length) '0' ++ digits)

/-- Digits `0.ddd * 10 ^ point` as a text. -/
def layout (digits : List Char) (point : Int) : List Char :=
  if point ≤ -4 ∨ 16 < point then
    let tail := digits.drop 1
    digits.take 1 ++ (if tail.isEmpty then [] else '.' :: tail) ++ 'e' :: exponentText (point - 1)
  else if point ≤ 0 then
    '0' :: '.' :: (List.replicate (-point).toNat '0' ++ digits)
  else
    let whole := point.toNat
    let tail := digits.drop whole
    digits.take whole ++ List.replicate (whole - digits.length) '0' ++
      '.' :: (if tail.isEmpty then ['0'] else tail)

def text : Binary64 → String
  | nan => "nan"
  | infinite negative => if negative then "-inf" else "inf"
  | finite negative m e =>
    let sign := if negative then "-" else ""
    if m = 0 then sign ++ "0.0"
    else
      let (digits, p) := shortest m e
      let all := Nat.toDigits 10 digits
      sign ++ String.ofList (layout (dropZeros all) (p + all.length))

end BlockCode.Number.Binary64
