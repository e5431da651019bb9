-- Identifiers. A name that a person typed becomes an identifier of word
-- characters; when it is in use, a number from 2 on is put behind it.
import BlockCode.Text.Word
import BlockCode.Text.Lower
import Std.Data.HashSet

namespace BlockCode

open Text

/-- The identifier of a name, before anybody asks whether it is in use. -/
def plainIdentifier (name : String) : String :=
  if name == "" then "unnamed"
  else
    let cs := name.toList.map fun c => if isWord c then c else '_'
    let cs := if cs.head?.any isDigit then "my_".toList ++ cs else cs
    String.ofList cs

/-- Two names are one for a person when they differ in case at most. -/
def sameName (a b : String) : Bool := lower a == lower b

/-- The candidates for an identifier: the base, then the base with 2, 3 and so on. -/
def candidate (base : String) (n : Nat) : String :=
  if n = 0 then base else base ++ toString (n + 1)

/-- The first candidate from number `n` on that is not in use. -/
def firstFree (inUse : String → Bool) (base : String) : Nat → Nat → String
  | 0, n => candidate base n
  | fuel + 1, n =>
    if inUse (candidate base n) then firstFree inUse base fuel (n + 1) else candidate base n

/-- The first candidate that is not in use. Of one candidate more than there are
identifiers in use, one is free. -/
def fresh (used : List String) (base : String) : String :=
  firstFree (Std.HashSet.ofList used).contains base used.length 0

theorem fresh_eq_firstFree (used : List String) (base : String) :
    fresh used base = firstFree used.contains base used.length 0 := by
  have same : (Std.HashSet.ofList used).contains = used.contains :=
    funext fun identifier => Std.HashSet.contains_ofList
  rw [fresh, same]

end BlockCode
