-- The text of a value. `written` shows a value the way it is written down, with texts in
-- quotes. `shown` is the same, but a text stands for itself. A value that holds a whole
-- number of too many digits is never put into words: `fits` says which values are.
import BlockCode.Value.Basic
import BlockCode.Number.Reading
import BlockCode.Number.Shortest
import BlockCode.Text.Quoted

namespace BlockCode.Value

open Text Number

/-- The parts with a comma and a space between each two. -/
def commas (parts : List String) : String := ", ".intercalate parts

/-- The parts in round brackets. A part that stands alone keeps its comma. -/
def round : List String → String
  | [part] => "(" ++ part ++ ",)"
  | parts => "(" ++ commas parts ++ ")"

mutual
def written : Value → String
  | null => "None"
  | bool b => if b then "True" else "False"
  | int i => toString i
  | float x => x.text
  | str s => quoted s
  | torn t => quotedSpelling t.signs
  | list items => "[" ++ commas (writtenAll items) ++ "]"
  | tuple items => round (writtenAll items)
  | table entries => "\x7b" ++ commas (writtenEntries entries) ++ "\x7d"
termination_by structural v => v

def writtenAll : List Value → List String
  | [] => []
  | x :: xs => x.written :: writtenAll xs
termination_by structural xs => xs

def writtenEntries : List (Value × Value) → List String
  | [] => []
  | (k, v) :: rest => (k.written ++ ": " ++ v.written) :: writtenEntries rest
termination_by structural xs => xs
end

def shown : Value → String
  | str s => s
  | torn t => t.text
  | v => v.written

mutual
/-- The value can be put into words. -/
def fits : Value → Bool
  | int i => (Nat.toDigits 10 i.natAbs).length ≤ mostDigits
  | list items => fitAll items
  | tuple items => fitAll items
  | table entries => fitEntries entries
  | _ => true
termination_by structural v => v

def fitAll : List Value → Bool
  | [] => true
  | x :: xs => x.fits && fitAll xs
termination_by structural xs => xs

def fitEntries : List (Value × Value) → Bool
  | [] => true
  | (k, v) :: rest => k.fits && v.fits && fitEntries rest
termination_by structural xs => xs
end

/-- The word for the kind of a value. -/
def kind : Value → String
  | null => "NoneType"
  | bool _ => "bool"
  | int _ => "int"
  | float _ => "float"
  | str _ => "str"
  | torn _ => "str"
  | list _ => "list"
  | tuple _ => "tuple"
  | table _ => "dict"

@[simp] theorem fits_str (s : String) : (str s).fits = true := rfl

end BlockCode.Value
