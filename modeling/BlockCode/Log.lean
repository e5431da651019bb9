-- What is told about the work while it goes on. Notes tell the details; they are
-- shown only to those who ask.
namespace BlockCode

inductive Level where
  | debug
  | info
  | warning
  | error
deriving DecidableEq, Repr

def Level.text : Level → String
  | debug => "DEBUG"
  | info => "INFO"
  | warning => "WARNING"
  | error => "ERROR"

/-- A detail of the work. -/
inductive Note where
  | loaded (blocks : Nat) (path : String)
  | passBegun (language : String) (topBlocks : Nat)
  | renamed (category name identifier : String)
  | provided (desired identifier : String)
  | passEnded (lines blocks helpers : Nat)
deriving DecidableEq, Repr

def Note.text : Note → String
  | loaded blocks path => "Loaded " ++ toString blocks ++ " blocks from " ++ path
  | passBegun language topBlocks =>
    "Generating " ++ language ++ " code for " ++ toString topBlocks ++ " top-level blocks"
  | renamed category name identifier =>
    "Renamed " ++ category ++ " '" ++ name ++ "' to '" ++ identifier ++ "'"
  | provided desired identifier => "Provided function '" ++ desired ++ "' as '" ++ identifier ++ "'"
  | passEnded lines blocks helpers =>
    "Generated " ++ toString lines ++ " lines from " ++ toString blocks ++ " blocks, " ++
      toString helpers ++ " helper functions"

/-- A line of the log: its level in eight places, a bar and the message. -/
def logLine (level : Level) (message : String) : String :=
  let word := level.text
  word ++ String.ofList (List.replicate (8 - word.length) ' ') ++ " | " ++ message ++ "\n"

end BlockCode
