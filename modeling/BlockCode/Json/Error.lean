-- Why a text is not JSON, and where. A position counts characters from 0; lines
-- and columns are counted from 1.
namespace BlockCode.Json

inductive Reason where
  | byteOrderMark
  | value
  | propertyName
  | colon
  | comma
  | openString
  | controlCharacter
  | escape
  | unicodeEscape
  | extraData
deriving DecidableEq, Repr

def Reason.text : Reason → String
  | byteOrderMark => "Unexpected UTF-8 BOM (decode using utf-8-sig)"
  | value => "Expecting value"
  | propertyName => "Expecting property name enclosed in double quotes"
  | colon => "Expecting ':' delimiter"
  | comma => "Expecting ',' delimiter"
  | openString => "Unterminated string starting at"
  | controlCharacter => "Invalid control character at"
  | escape => "Invalid \\escape"
  | unicodeEscape => "Invalid \\uXXXX escape"
  | extraData => "Extra data"

/-- A text is refused at a place, or it holds a whole number with more digits
than any reader takes. -/
inductive ReadError where
  | malformed (reason : Reason) (position : Nat)
  | tooManyDigits
deriving DecidableEq, Repr

/-- The line of a position. -/
def lineAt (cs : List Char) (position : Nat) : Nat := (cs.take position).count '\n' + 1

/-- The column of a position: its distance from the newline before it. -/
def columnAt (cs : List Char) (position : Nat) : Nat :=
  ((cs.take position).reverse.takeWhile (· != '\n')).length + 1

/-- A refusal, told with the place in the text. -/
def placed (text : String) (reason : Reason) (position : Nat) : String :=
  let cs := text.toList
  reason.text ++ ": line " ++ toString (lineAt cs position) ++ " column " ++
    toString (columnAt cs position) ++ " (char " ++ toString position ++ ")"

end BlockCode.Json
