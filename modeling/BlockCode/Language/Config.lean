-- The settings of a language: what shapes its text apart from its rules. They
-- can be given by hand or taken from the environment of the program. A setting that
-- is given by hand may be of any kind; it is looked at only when it is needed.
import BlockCode.Fault
import BlockCode.Text.Lines
import BlockCode.Text.Lower

namespace BlockCode

/-- Names with their texts, as the surroundings of a program give them. -/
abbrev Environment := List (String × String)

structure Config where
  /-- What is put before each line of a statement input. -/
  indent : Value := .str "  "
  /-- What is put before each line of a comment. -/
  commentMarker : Value := .str "# "
  /-- The identifiers of one pass are kept for the next, if this counts as true. -/
  stableNames : Value := .bool false
deriving Repr, Inhabited

namespace Config

open Text

/-- A text without the white space around it. -/
def strip (text : String) : String := String.ofList (dropEnd (text.toList.dropWhile isBlank))

/-- A text that says yes. -/
def saysYes (text : String) : Bool := ["1", "true", "yes", "on"].contains (lower (strip text))

/-- The settings that an environment asks for. What it does not name is as ever. -/
def ofEnvironment (env : Environment) : Config where
  indent := .str ((env.lookup "BLOCKGEN_INDENT").getD "  ")
  commentMarker := .str ((env.lookup "BLOCKGEN_COMMENT_PREFIX").getD "# ")
  stableNames := .bool (((env.lookup "BLOCKGEN_STABLE_NAMES").map saysYes).getD false)

/-- Puts the indent before the lines of a text. -/
def indented (c : Config) (text : String) : Except Fault String := do
  return leadLines (← c.indent.asText) text

/-- Puts the comment marker before the lines of a text. -/
def marked (c : Config) (text : String) : Except Fault String := do
  return leadLines (← c.commentMarker.asText) text

/-- Free text as comment lines. -/
def comment (c : Config) (text : String) : Except Fault String := do
  return commentLines (← c.commentMarker.asText) text

end Config
end BlockCode
