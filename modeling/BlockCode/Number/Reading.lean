-- Reading a number that a person has typed. White space around it is nothing, an
-- underscore may stand between two digits, the digits may be of any script, and
-- the ends of the line and NaN have names in any case.
import BlockCode.Number.Binary64
import BlockCode.Text.Blank
import BlockCode.Text.Lower

namespace BlockCode.Number

open BlockCode.Text

/-! ## Digits -/

/-- The zeros of the scripts of Unicode 14. The other nine digits follow each. -/
def zeros : List Nat :=
  [48, 1632, 1776, 1984, 2406, 2534, 2662, 2790, 2918, 3046, 3174, 3302, 3430, 3558, 3664, 3792,
   3872, 4160, 4240, 6112, 6160, 6470, 6608, 6784, 6800, 6992, 7088, 7232, 7248, 42528, 43216,
   43264, 43472, 43504, 43600, 44016, 65296, 66720, 68912, 69734, 69872, 69942, 70096, 70384, 70736,
   70864, 71248, 71360, 71472, 71904, 72016, 72784, 73040, 73120, 92768, 92864, 93008, 120782,
   120792, 120802, 120812, 120822, 123200, 123632, 125264, 130032]

def digitValue? (c : Char) : Option Nat :=
  (zeros.find? fun first => first ≤ c.toNat && c.toNat < first + 10).map (c.toNat - ·)

/-- Digits at the start of a text, read onto `value`, with how many there were.
`last` says that the character before was a digit, so an underscore may stand
here if a digit comes after it. -/
def readDigits (value count : Nat) (last : Bool) : List Char → Option (Nat × Nat × List Char)
  | [] => some (value, count, [])
  | c :: rest =>
    match digitValue? c with
    | some digit => readDigits (value * 10 + digit) (count + 1) true rest
    | none =>
      if c == '_' then
        if last && (rest.head?.bind digitValue?).isSome then readDigits value count false rest
        else none
      else some (value, count, c :: rest)

/-! ## The grammar -/

/-- A sign at the start of a text: whether it is a minus, and the rest. -/
def readSign : List Char → Bool × List Char
  | '-' :: rest => (true, rest)
  | '+' :: rest => (false, rest)
  | rest => (false, rest)

/-- The exponent at the end of a number, or zero when nothing is left. -/
def readExponent? : List Char → Option Int
  | [] => some 0
  | c :: rest =>
    if c == 'e' || c == 'E' then
      let (negative, digits) := readSign rest
      match readDigits 0 0 false digits with
      | some (value, _ + 1, []) => some (if negative then -(value : Int) else value)
      | _ => none
    else none

/-- The digits after the point, read onto the digits before it. -/
def readFraction? (value count : Nat) : List Char → Option (Nat × Nat × List Char)
  | '.' :: rest =>
    match readDigits value 0 false rest with
    | some (value, after, rest) => if count + after = 0 then none else some (value, after, rest)
    | none => none
  | rest => if count = 0 then none else some (value, 0, rest)

def readUnsigned? (negative : Bool) (cs : List Char) : Option Binary64 := do
  let (whole, count, rest) ← readDigits 0 0 false cs
  let (digits, after, rest) ← readFraction? whole count rest
  let exponent ← readExponent? rest
  return Binary64.ofDecimal negative digits (exponent - after)

/-- White space that may stand around a number. The separators among the control
characters may not. -/
def isPadding (c : Char) : Bool := isBlank c && !(28 ≤ c.toNat && c.toNat ≤ 31)

/-- A text without the padding at its two ends. -/
def unpadded (cs : List Char) : List Char :=
  (((cs.dropWhile isPadding).reverse).dropWhile isPadding).reverse

/-- Reads a number that stands alone in a text. -/
def readFloat? (text : String) : Option Binary64 :=
  let (negative, cs) := readSign (unpadded text.toList)
  match lower (String.ofList cs) with
  | "inf" | "infinity" => some (.infinite negative)
  | "nan" => some .nan
  | _ => readUnsigned? negative cs

/-- A whole number that is read or written may have this many digits. -/
def mostDigits : Nat := 4300

/-- Reads a whole number that stands alone in a text. -/
def readInt? (text : String) : Option Int :=
  let (negative, cs) := readSign (unpadded text.toList)
  match readDigits 0 0 false cs with
  | some (n, count + 1, []) =>
    if count < mostDigits then some (if negative then -n else n) else none
  | _ => none

end BlockCode.Number
