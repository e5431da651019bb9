-- The values of a document. Nothing in a document has a fixed kind, so every part
-- of a block that comes from one is such a value. This module says what a value
-- is, when it counts as true, and when two values are the same.
import BlockCode.Number.Extended
import BlockCode.Text.Spelling

namespace BlockCode

open Number

/-- A value of a document. A table keeps its entries in the order in which their
keys first came. Tuples come only from rules. -/
inductive Value where
  | null
  | bool (b : Bool)
  | int (i : Int)
  | float (x : Binary64)
  | str (s : String)
  /-- A text with halves in it. -/
  | torn (t : Torn)
  | list (items : List Value)
  | tuple (items : List Value)
  | table (entries : List (Value × Value))
deriving Repr, Inhabited

namespace Value

/-! ## Truth -/

/-- A value is true unless it is nothing, false, zero or empty. NaN is true. -/
def truth : Value → Bool
  | null => false
  | bool b => b
  | int i => i != 0
  | float x => !x.isZero
  | str s => s != ""
  | torn _ => true
  | list items => !items.isEmpty
  | tuple items => !items.isEmpty
  | table entries => !entries.isEmpty

def isNull : Value → Bool
  | null => true
  | _ => false

theorem isNull_iff (v : Value) : v.isNull = true ↔ v = null := by
  cases v <;> simp [isNull]

/-! ## Texts -/

/-- The spelling of a text. -/
def spelling? : Value → Option Spelling
  | str s => some s
  | torn t => some t.signs
  | _ => none

/-- The text that is spelled so. -/
def ofSpelling (signs : Spelling) : Value :=
  if h : signs.any Sign.isHalf = true then torn { signs, torn := h }
  else str (signs.shown '\ufffd')

def isTorn : Value → Bool
  | torn _ => true
  | _ => false

mutual
/-- The value, with another mark in the place of the halves in its texts. -/
def showing (mark : Char) : Value → Value
  | torn t => torn { t with mark }
  | list items => list (showingAll mark items)
  | tuple items => tuple (showingAll mark items)
  | table entries => table (showingEntries mark entries)
  | v => v
termination_by structural v => v

def showingAll (mark : Char) : List Value → List Value
  | [] => []
  | x :: xs => x.showing mark :: showingAll mark xs
termination_by structural xs => xs

def showingEntries (mark : Char) : List (Value × Value) → List (Value × Value)
  | [] => []
  | (k, v) :: rest => (k.showing mark, v.showing mark) :: showingEntries mark rest
termination_by structural xs => xs
end

/-! ## Sameness -/

/-- The exact number that a value stands for. The truth values stand for 1 and 0. -/
def number? : Value → Option Extended
  | bool b => some (.ofInt (if b then 1 else 0))
  | int i => some (.ofInt i)
  | float x => Extended.ofBinary64? x
  | _ => none

/-- Two values that are not made of others are the same when they are equal
texts or equal numbers. NaN is one value, the same as itself. -/
def sameAtom : Value → Value → Bool
  | null, null => true
  | str s, str t => s == t
  | torn s, torn t => s.signs == t.signs
  | float .nan, float .nan => true
  | v, w =>
    match v.number?, w.number? with
    | some x, some y => x.same y
    | _, _ => false

mutual
/-- The sameness of members of a collection. The order of a table's entries does
not matter. -/
def same : Value → Value → Bool
  | list xs, list ys => sameAll xs ys
  | tuple xs, tuple ys => sameAll xs ys
  | table xs, table ys => xs.length == ys.length && sameEntries xs ys
  | v, w => sameAtom v w
termination_by structural v => v

def sameAll : List Value → List Value → Bool
  | [], [] => true
  | x :: xs, y :: ys => x.same y && sameAll xs ys
  | _, _ => false
termination_by structural xs => xs

/-- Every entry of the first table stands in the second. -/
def sameEntries : List (Value × Value) → List (Value × Value) → Bool
  | [], _ => true
  | (k, v) :: xs, ys => ys.any (fun entry => k.same entry.1 && v.same entry.2) && sameEntries xs ys
termination_by structural xs => xs
end

/-- Equality of values. It is sameness, except that NaN is not equal to itself. -/
def equals (v w : Value) : Bool :=
  match v with
  | float .nan => false
  | _ => v.same w

theorem same_str (s t : String) : (str s).same (str t) = (s == t) := rfl

/-! ## Keys -/

mutual
/-- Lists and tables cannot be looked up: they are not keys. -/
def isKey : Value → Bool
  | list _ => false
  | table _ => false
  | tuple items => areKeys items
  | _ => true
termination_by structural v => v

def areKeys : List Value → Bool
  | [] => true
  | x :: xs => x.isKey && areKeys xs
termination_by structural xs => xs
end

theorem isKey_str (s : String) : (str s).isKey = true := rfl

theorem isKey_of_spelling {v : Value} {signs : Spelling} (h : v.spelling? = some signs) :
    v.isKey = true := by
  cases v <;> first | rfl | cases h

end Value
end BlockCode
