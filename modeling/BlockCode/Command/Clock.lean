-- Dates. A moment is counted in seconds from the beginning of 1970; a year begins
-- in March here, so that the day that some years lack is the last.
namespace BlockCode.Clock

/-- The year, the month and the day that begin so many days after the first of
March of the year 0. An era is 400 years. -/
def date (days : Nat) : Nat × Nat × Nat :=
  let era := days / 146097
  let day := days % 146097
  let year := (day - day / 1460 + day / 36524 - day / 146096) / 365
  let day := day - (365 * year + year / 4 - year / 100)
  let month := (5 * day + 2) / 153
  let day := day - (153 * month + 2) / 5 + 1
  let (month, late) := if month < 10 then (month + 3, 0) else (month - 9, 1)
  (year + era * 400 + late, month, day)

/-- The days from that first of March to the beginning of 1970. -/
def epoch : Nat := 719468

example : date epoch = (1970, 1, 1) := by decide

-- The last day of February in a year that is divisible by 400.
example : date (epoch + 11016) = (2000, 2, 29) := by decide

/-- A number in so many digits or more. -/
def padded (width n : Nat) : String :=
  let digits := toString n
  String.ofList (List.replicate (width - digits.length) '0') ++ digits

/-- A moment as it stands in the head of a program. -/
def text (seconds : Nat) : String :=
  let (year, month, day) := date (seconds / 86400 + epoch)
  let rest := seconds % 86400
  padded 4 year ++ "-" ++ padded 2 month ++ "-" ++ padded 2 day ++ " " ++
    padded 2 (rest / 3600) ++ ":" ++ padded 2 (rest / 60 % 60) ++ ":" ++ padded 2 (rest % 60) ++
    " UTC"

end BlockCode.Clock
