-- Quoted text: a text in quotes, on one line, with every character that cannot
-- be seen written as a number. The quote is single, unless the text holds single
-- quotes and no double quote.
import BlockCode.Text.Printable
import BlockCode.Text.Spelling

namespace BlockCode.Text

/-- The digit of a number below 16, in lower case. -/
def hexDigit (n : Nat) : Char := ("0123456789abcdef".toList)[n]?.getD '0'

/-- A number in `width` hexadecimal digits. -/
def hexDigits : Nat → Nat → List Char
  | 0, _ => []
  | width + 1, n => hexDigits width (n / 16) ++ [hexDigit (n % 16)]

/-- A character that is written as a number, in the shortest form that fits. -/
def numbered (c : Char) : List Char :=
  if c.toNat ≤ 0xff then '\\' :: 'x' :: hexDigits 2 c.toNat
  else if c.toNat ≤ 0xffff then '\\' :: 'u' :: hexDigits 4 c.toNat
  else '\\' :: 'U' :: hexDigits 8 c.toNat

/-- One character between the quotes. -/
def quotedChar (quote c : Char) : List Char :=
  if c = quote || c = '\\' then ['\\', c]
  else if c = '\n' then ['\\', 'n']
  else if c = '\r' then ['\\', 'r']
  else if c = '\t' then ['\\', 't']
  else if isPrintable c then [c]
  else numbered c

/-- The quote for a text. -/
def quoteFor (cs : List Char) : Char :=
  if cs.contains '\'' && !cs.contains '"' then '"' else '\''

def quotedChars (cs : List Char) : List Char :=
  let quote := quoteFor cs
  quote :: (cs.flatMap (quotedChar quote) ++ [quote])

def quoted (text : String) : String := String.ofList (quotedChars text.toList)

/-- One sign between the quotes. A half is written as a number. -/
def quotedSign (quote : Char) : Sign → List Char
  | .char c => quotedChar quote c
  | .half n => '\\' :: 'u' :: hexDigits 4 (Sign.half n).point

/-- A text with halves in quotes. -/
def quotedSpelling (signs : Spelling) : String :=
  let quote := quoteFor (signs.map (·.shown '\ufffd'))
  String.ofList (quote :: (signs.flatMap (quotedSign quote) ++ [quote]))

end BlockCode.Text
