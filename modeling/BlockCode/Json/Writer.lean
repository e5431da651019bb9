-- Writing JSON, on one line and without blanks. NaN and the infinities are written
-- under the names by which they are read, and tuples as lists.
import BlockCode.Value.Text

namespace BlockCode.Json

/-- A character between quotes. Control characters are written by their numbers. -/
def writtenChar (c : Char) : List Char :=
  if c == '"' || c == '\\' then ['\\', c]
  else if c.toNat < 0x20 then '\\' :: 'u' :: Text.hexDigits 4 c.toNat
  else [c]

def writeString (s : String) : String :=
  String.ofList ('"' :: (s.toList.flatMap writtenChar ++ ['"']))

/-- A sign between quotes. A half is written by its number. -/
def writtenSign : Sign → List Char
  | .char c => writtenChar c
  | .half n => '\\' :: 'u' :: Text.hexDigits 4 (Sign.half n).point

def writeSpelling (signs : Spelling) : String :=
  String.ofList ('"' :: (signs.flatMap writtenSign ++ ['"']))

def writeFloat : Number.Binary64 → String
  | .nan => "NaN"
  | .infinite negative => if negative then "-Infinity" else "Infinity"
  | x => x.text

mutual
def write : Value → String
  | .null => "null"
  | .bool b => if b then "true" else "false"
  | .int i => toString i
  | .float x => writeFloat x
  | .str s => writeString s
  | .torn t => writeSpelling t.signs
  | .list items => "[" ++ ",".intercalate (writeAll items) ++ "]"
  | .tuple items => "[" ++ ",".intercalate (writeAll items) ++ "]"
  | .table entries => "\x7b" ++ ",".intercalate (writeEntries entries) ++ "\x7d"
termination_by structural v => v

def writeAll : List Value → List String
  | [] => []
  | x :: xs => write x :: writeAll xs
termination_by structural xs => xs

def writeEntries : List (Value × Value) → List String
  | [] => []
  | (k, v) :: rest => (write k ++ ":" ++ write v) :: writeEntries rest
termination_by structural xs => xs
end

end BlockCode.Json
