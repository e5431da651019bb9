-- The parts of JSON that hold no other parts: white space, texts and numbers. A
-- scanner takes the characters that are left and gives what it read and what is
-- left then. A refusal holds the characters that were left at its place.
import BlockCode.Json.Error
import BlockCode.Number.Reading
import BlockCode.Value.Table

namespace BlockCode.Json

open Number

/-- A refusal in the middle of a text. -/
inductive Stop where
  | at (reason : Reason) (left : List Char)
  | tooManyDigits

/-- What is left after the white space. -/
def skipSpace (cs : List Char) : List Char :=
  cs.dropWhile fun c => c == ' ' || c == '\t' || c == '\n' || c == '\r'

/-! ## Texts -/

def hexValue? (c : Char) : Option Nat :=
  if '0' ≤ c ∧ c ≤ '9' then some (c.toNat - '0'.toNat)
  else if 'a' ≤ c ∧ c ≤ 'f' then some (c.toNat - 'a'.toNat + 10)
  else if 'A' ≤ c ∧ c ≤ 'F' then some (c.toNat - 'A'.toNat + 10)
  else none

/-- The number that four hexadecimal digits stand for. -/
def fourHex? (cs : List Char) : Option Nat :=
  match cs.take 4 with
  | [a, b, c, d] => do
    return (((← hexValue? a) * 16 + (← hexValue? b)) * 16 + (← hexValue? c)) * 16 + (← hexValue? d)
  | _ => none

def isHighHalf (n : Nat) : Bool := 0xD800 ≤ n && n ≤ 0xDBFF
def isLowHalf (n : Nat) : Bool := 0xDC00 ≤ n && n ≤ 0xDFFF

/-- The sign of a code unit. -/
def sign (n : Nat) : Sign :=
  if h : 0xD800 ≤ n ∧ n ≤ 0xDFFF then .half ⟨n - 0xD800, by omega⟩ else .char (Char.ofNat n)

/-- Whether more than four characters are left. -/
def goesOn (cs : List Char) : Bool := !(cs.drop 4).isEmpty

/-- Reads a character by its number, after the `u`. A character must be left
behind the four digits. A high half takes the low half that follows it; any other half
stands alone. -/
def scanUnicode (cs : List Char) : Except Stop (Sign × List Char) :=
  if !goesOn cs then .error (.at .unicodeEscape ('u' :: cs))
  else match fourHex? cs with
  | none => .error (.at .unicodeEscape ('u' :: cs))
  | some n =>
    let rest := cs.drop 4
    match rest with
    | '\\' :: 'u' :: second =>
      if isHighHalf n && goesOn second then
        match fourHex? second with
        | none => .error (.at .unicodeEscape ('u' :: second))
        | some m =>
          if isLowHalf m then
            .ok (.char (Char.ofNat (0x10000 + (n - 0xD800) * 0x400 + (m - 0xDC00))), second.drop 4)
          else .ok (sign n, rest)
      else .ok (sign n, rest)
    | _ => .ok (sign n, rest)

/-- The character that a letter after a backslash stands for. -/
def escaped? : Char → Option Char
  | '"' => some '"'
  | '\\' => some '\\'
  | '/' => some '/'
  | 'b' => some '\x08'
  | 'f' => some '\x0c'
  | 'n' => some '\n'
  | 'r' => some '\r'
  | 't' => some '\t'
  | _ => none

/-- Reads a text after its opening quote. `opened` is what was left at that quote,
and `done` is what has been read, the last first. -/
def scanString (opened : List Char) : Nat → Spelling → List Char → Except Stop (Value × List Char)
  | 0, _, _ => .error (.at .openString opened)
  | _ + 1, _, [] => .error (.at .openString opened)
  | fuel + 1, done, c :: rest =>
    if c == '"' then .ok (.ofSpelling done.reverse, rest)
    else if c == '\\' then
      match rest with
      | [] => .error (.at .openString opened)
      | 'u' :: rest => do
        let (sign, rest) ← scanUnicode rest
        scanString opened fuel (sign :: done) rest
      | c :: rest =>
        match escaped? c with
        | some c => scanString opened fuel (.char c :: done) rest
        | none => .error (.at .escape ('\\' :: c :: rest))
    else if c.toNat < 0x20 then .error (.at .controlCharacter (c :: rest))
    else scanString opened fuel (.char c :: done) rest

/-! ## Numbers -/

def ofDigits (digits : List Char) : Nat :=
  digits.foldl (fun n c => n * 10 + (c.toNat - '0'.toNat)) 0

/-- The digits at the start of a text. -/
def takeDigits (cs : List Char) : List Char × List Char :=
  (cs.takeWhile Char.isDigit, cs.dropWhile Char.isDigit)

/-- The digits before the point: a zero alone, or digits that start with no zero. -/
def takeWhole : List Char → List Char × List Char
  | '0' :: rest => (['0'], rest)
  | cs => takeDigits cs

/-- The digits after a point. A point with no digit after it is not read. -/
def takeFraction : List Char → Option (List Char) × List Char
  | '.' :: rest =>
    match takeDigits rest with
    | ([], _) => (none, '.' :: rest)
    | (digits, rest) => (some digits, rest)
  | cs => (none, cs)

/-- The exponent. One with no digit is not read. -/
def takeExponent : List Char → Option Int × List Char
  | c :: rest =>
    if c == 'e' || c == 'E' then
      let (negative, after) := match rest with
        | '-' :: after => (true, after)
        | '+' :: after => (false, after)
        | after => (false, after)
      match takeDigits after with
      | ([], _) => (none, c :: rest)
      | (digits, rest) =>
        (some (if negative then -(ofDigits digits : Int) else ofDigits digits), rest)
    else (none, c :: rest)
  | [] => (none, [])

/-- Reads a number after its sign. With a fraction or an exponent it is a
floating-point number, else a whole number. `start` is the text with the sign. -/
def scanUnsigned (start : List Char) (negative : Bool) (cs : List Char) :
    Except Stop (Value × List Char) :=
  match takeWhole cs with
  | ([], _) => .error (.at .value start)
  | (whole, rest) =>
    let (fraction, rest) := takeFraction rest
    let (exponent, rest) := takeExponent rest
    match fraction, exponent with
    | none, none =>
      if mostDigits < whole.length then .error .tooManyDigits
      else
        let n : Int := ofDigits whole
        .ok (.int (if negative then -n else n), rest)
    | _, _ =>
      let after := fraction.getD []
      let power := exponent.getD 0 - after.length
      .ok (.float (Binary64.ofDecimal negative (ofDigits (whole ++ after)) power), rest)

def scanNumber (cs : List Char) : Except Stop (Value × List Char) :=
  match cs with
  | '-' :: rest => scanUnsigned cs true rest
  | _ => scanUnsigned cs false cs

/-- The words that stand for values. -/
def constants : List (List Char × Value) :=
  [("null".toList, .null), ("true".toList, .bool true), ("false".toList, .bool false),
    ("NaN".toList, .float .nan), ("Infinity".toList, .float (.infinite false)),
    ("-Infinity".toList, .float (.infinite true))]

/-- Reads a value that holds no other: a word, else a number. -/
def scanAtom (cs : List Char) : Except Stop (Value × List Char) :=
  match constants.find? fun (word, _) => word.isPrefixOf cs with
  | some (word, v) => .ok (v, cs.drop word.length)
  | none => scanNumber cs

end BlockCode.Json
