-- Lines of program text. Text is put before lines, comments are made of lines,
-- and a finished program is cleaned of the blanks that nobody sees. A line ends
-- at the newline character and nowhere else, unless said otherwise.
import BlockCode.Text.Blank

namespace BlockCode.Text

/-! ## Putting text before lines -/

/-- The rest of a line that has just ended starts with a character of its own. -/
def startsLine : List Char → Bool
  | [] => false
  | c :: _ => c != '\n'

/-- Puts `lead` before every line but the first. An empty line stays empty. -/
def leadRest (lead : List Char) : List Char → List Char
  | [] => []
  | c :: rest =>
    if c == '\n' && startsLine rest then c :: (lead ++ leadRest lead rest)
    else c :: leadRest lead rest

/-- Puts `lead` before the first line, even an empty one, and before every
other line that is not empty. -/
def leadLines (lead text : String) : String :=
  lead ++ String.ofList (leadRest lead.toList text.toList)

/-- Free text as comment lines: every line is led by the comment marker, and
the last one ends. -/
def commentLines (marker text : String) : String := leadLines marker text ++ "\n"

/-! ## Cleaning a finished program -/

/-- Drops the lines of spaces and tabs at the start. `line` is the text from
the start of the line that is being read. -/
def dropBlankLines (line : List Char) : List Char → List Char
  | [] => line
  | c :: rest =>
    if c == '\n' then dropBlankLines rest rest
    else if isGap c then dropBlankLines line rest
    else line

/-- Drops all white space at the end. -/
def dropEnd : List Char → List Char
  | [] => []
  | c :: rest =>
    let kept := dropEnd rest
    if isBlank c && kept.isEmpty then [] else c :: kept

/-- Drops the spaces and tabs before each newline. -/
def trimLines : List Char → List Char
  | [] => []
  | c :: rest =>
    let trimmed := trimLines rest
    if isGap c && trimmed.head? == some '\n' then trimmed else c :: trimmed

/-- The clean form of a program: no blank lines at the start, one newline at
the end, no spaces or tabs before a newline. Only white space gives the empty
program. -/
def clean (code : String) : String :=
  match dropEnd (dropBlankLines code.toList code.toList) with
  | [] => ""
  | body => String.ofList (trimLines (body ++ ['\n']))

/-! ## Joining and splitting -/

/-- The texts with a newline between each two. -/
def joinLines (texts : List String) : String := "\n".intercalate texts

/-- A text without the newline at its very end, if it has one. -/
def dropNewline (text : String) : String :=
  match text.toList.reverse with
  | '\n' :: rest => String.ofList rest.reverse
  | _ => text

/-- The pieces of a text between the separators. The empty text is one piece. -/
def splitAt {α : Type} [BEq α] (separator : α) : List α → List (List α)
  | [] => [[]]
  | c :: rest =>
    if c == separator then [] :: splitAt separator rest
    else match splitAt separator rest with
      | [] => [[c]]
      | piece :: pieces => (c :: piece) :: pieces

theorem splitAt_ne_nil {α : Type} [BEq α] (separator : α) (cs : List α) :
    splitAt separator cs ≠ [] := by
  cases cs with
  | nil => simp [splitAt]
  | cons c rest =>
    simp only [splitAt]
    split
    · simp
    · split <;> simp

/-- The words of a list that is written with commas. Empty words are dropped. -/
def commaWords (text : String) : List String :=
  ((splitAt ',' text.toList).filter (fun word => !word.isEmpty)).map String.ofList

/-- The characters that end a line when lines are counted for a reader. -/
def isLineEnd (c : Char) : Bool :=
  ['\n', '\r', '\x0b', '\x0c', '\x1c', '\x1d', '\x1e', '\u0085', '\u2028', '\u2029'].contains c

/-- Counts lines. `inside` says that a line has begun and not ended. A carriage
return and a newline together end one line. -/
def countLines (inside : Bool) : List Char → Nat
  | [] => if inside then 1 else 0
  | '\r' :: '\n' :: rest => countLines false rest + 1
  | c :: rest => if isLineEnd c then countLines false rest + 1 else countLines true rest

def lineCount (text : String) : Nat := countLines false text.toList

/-! ## Replacing -/

/-- Puts `new` in the place of every `old`, from left to right. `skip` is how
much of the last place found is still to be passed over. -/
def replaceFrom (old new : List Char) (skip : Nat) : List Char → List Char
  | [] => []
  | c :: rest =>
    match skip with
    | n + 1 => replaceFrom old new n rest
    | 0 =>
      if old.isPrefixOf (c :: rest) then new ++ replaceFrom old new (old.length - 1) rest
      else c :: replaceFrom old new 0 rest

def replaceAll (old new text : String) : String :=
  String.ofList (replaceFrom old.toList new.toList 0 text.toList)

end BlockCode.Text
