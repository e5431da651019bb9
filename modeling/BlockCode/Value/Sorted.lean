-- Values in order: texts by code points, numbers by size. Values of different
-- kinds have no order, and nothing has no order with anything.
import BlockCode.Value.Basic

namespace BlockCode.Value

/-- Texts or numbers in order, the smaller first; `none` when there is no order. -/
def before? : Value → Value → Option Bool
  | str s, str t => some (decide (s < t))
  | v, w =>
    match v.number?, w.number? with
    | some x, some y => some (x.lt y)
    | _, _ => do return (← v.spelling?).before (← w.spelling?)

/-- Puts a value behind all that do not come after it. -/
def insertSorted (v : Value) : List Value → Option (List Value)
  | [] => some [v]
  | w :: rest => do
    if ← before? v w then return v :: w :: rest
    return w :: (← insertSorted v rest)

/-- The values in order, or `none` when two of them have no order. -/
def sorted? : List Value → Option (List Value)
  | [] => some []
  | v :: rest => do insertSorted v (← sorted? rest)

/-- The values without those that are the same as an earlier one. -/
def distinct (values : List Value) : List Value :=
  values.foldl (fun seen v => if seen.any (v.same ·) then seen else seen ++ [v]) []

end BlockCode.Value

namespace BlockCode

/-- Texts in the order of their code points. -/
def sortedTexts (texts : List String) : List String :=
  texts.mergeSort (fun s t => !decide (t < s))

end BlockCode
