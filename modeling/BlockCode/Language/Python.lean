-- A small language for Python programs: numbers, texts, comparisons, variables,
-- printing, branching and counted loops.
import BlockCode.Language.Basic
import BlockCode.Names.HelperFunction

namespace BlockCode.Python

/-! ## Orders of precedence, the tighter the lower -/

def atomic : Int := 0
def functionCall : Int := 2
def exponentiation : Int := 3
def unarySign : Int := 4
def multiplicative : Int := 5
def additive : Int := 6
def relational : Int := 11
def logicalNot : Int := 12
def anything : Int := 99

/-! ## Operators -/

/-- The arithmetic operators: their names in blocks, their signs and orders. -/
def arithmeticOperators : List (String × String × Int) :=
  [("ADD", " + ", additive), ("MINUS", " - ", additive), ("MULTIPLY", " * ", multiplicative),
    ("DIVIDE", " / ", multiplicative), ("POWER", " ** ", exponentiation)]

/-- The comparisons: their names in blocks and their signs. -/
def comparisons : List (String × String) :=
  [("EQ", "=="), ("NEQ", "!="), ("LT", "<"), ("LTE", "<="), ("GT", ">"), ("GTE", ">=")]

/-- Looks up an operator by its name in a block. -/
def operator {α : Type} (table : List (String × α)) (name : Value) : Except Fault α :=
  if !name.isKey then .error .wrongKind
  else match table.find? fun (n, _) => (Value.str n).same name with
  | some (_, a) => .ok a
  | none => .error (.unknownKey name)

/-! ## What rules are made of -/

/-- The expression in an input, or what stands for it when there is none. -/
def valueOr (input : String) (order : Int) (missing : String) : Script String := do
  let code ← Script.request (.value (.str input) (.int order))
  return if code == "" then missing else code

/-- The indented statements in an input. A body without any passes. -/
def bodyOr (input : String) : Script String := do
  let code ← Script.request (.statements (.str input))
  return if code == "" then "  pass\n" else code

/-- The identifier of the variable that a block names. -/
def variableOf (b : Block) : Script String := do
  Script.request (.identifier (← Script.field b "VAR") (.str "variable") false)

def expression (code : String) (order : Int) : RuleResult := .expression code (.int order)

/-- The literal for a text, or for the text of a value that is none. A value that counts as false
stands for the empty text. -/
def literal : Value → Except Fault String
  | .str s => .ok (Text.quoted s)
  | .torn t => .ok (Text.quotedSpelling t.signs)
  | v => do return Text.quoted (← if v.truth then v.text else .ok "")

/-! ## Rules for expressions -/

def textRule : Rule := fun b _ => do
  let v ← Script.field b "TEXT"
  return expression (← Script.done (literal v)) atomic

/-- A number with a sign is an operator at work. -/
def numberRule : Rule := fun b _ => do
  let code ← Script.done (← Script.field b "NUM").text
  return expression code (if code.toList.head? == some '-' then unarySign else atomic)

def arithmeticRule : Rule := fun b _ => do
  let (sign, order) ← Script.done (operator arithmeticOperators (← Script.field b "OP"))
  let left ← valueOr "A" order "0"
  let right ← valueOr "B" order "0"
  return expression (left ++ sign ++ right) order

/-- The helper that tells whether a number is prime. -/
def primeHelper : List String :=
  ["def " ++ Helpers.placeholder ++ "(n):",
    "  if n in (2, 3):",
    "    return True",
    "  if n <= 1 or n % 2 == 0 or n % 3 == 0:",
    "    return False",
    "  for x in range(6, int(n ** 0.5) + 2, 6):",
    "    if n % (x - 1) == 0 or n % (x + 1) == 0:",
    "      return False",
    "  return True"]

def primeRule : Rule := fun _ _ => do
  let lines := Value.list (primeHelper.map Value.str)
  let name ← Script.request (.helper (.str "math_isPrime") lines)
  let number ← valueOr "NUMBER_TO_CHECK" anything "0"
  return expression (name ++ "(" ++ number ++ ")") functionCall

def booleanRule : Rule := fun b _ => do
  let v ← Script.field b "BOOL"
  return expression (if v.equals (.str "TRUE") then "True" else "False") atomic

def compareRule : Rule := fun b _ => do
  let sign ← Script.done (operator comparisons (← Script.field b "OP"))
  let left ← valueOr "A" relational "0"
  let right ← valueOr "B" relational "0"
  return expression (left ++ " " ++ sign ++ " " ++ right) relational

def negateRule : Rule := fun _ _ => do
  let argument ← valueOr "BOOL" logicalNot "True"
  return expression ("not " ++ argument) logicalNot

def getRule : Rule := fun b _ => do
  return expression (← variableOf b) atomic

/-! ## Rules for statements -/

def printRule : Rule := fun _ _ => do
  let argument ← valueOr "TEXT" anything "''"
  return .code ("print(" ++ argument ++ ")\n")

def setRule : Rule := fun b _ => do
  let name ← variableOf b
  let value ← valueOr "VALUE" anything "0"
  return .code (name ++ " = " ++ value ++ "\n")

/-- The other branch is written when the block has an input for it, even an empty one. -/
def ifRule : Rule := fun _ inputs => do
  let condition ← valueOr "IF0" anything "False"
  let body ← bodyOr "DO0"
  let code := "if " ++ condition ++ ":\n" ++ body
  if inputs.has (.str "ELSE") then
    let other ← bodyOr "ELSE"
    return .code (code ++ "else:\n" ++ other)
  else return .code code

/-- The variable that counts is new in each loop. -/
def repeatRule : Rule := fun _ _ => do
  let times ← valueOr "TIMES" anything "0"
  let body ← bodyOr "DO"
  let counter ← Script.request (.ownIdentifier (.str "count") (.str "variable"))
  return .code ("for " ++ counter ++ " in range(" ++ times ++ "):\n" ++ body)

/-! ## The language -/

def reservedWords : List String :=
  ["and", "as", "assert", "break", "class", "continue", "def", "del", "elif", "else", "except",
    "finally", "for", "from", "global", "if", "import", "in", "is", "lambda", "nonlocal", "not",
    "or", "pass", "raise", "return", "try", "while", "with", "yield", "False", "None", "True",
    "print", "range", "len", "str", "int", "float"]

def rules : List (String × Rule) :=
  [("text", textRule), ("text_print", printRule), ("math_number", numberRule),
    ("math_arithmetic", arithmeticRule), ("math_is_prime", primeRule),
    ("logic_boolean", booleanRule), ("logic_compare", compareRule), ("logic_negate", negateRule),
    ("variables_get", getRule), ("variables_set", setRule), ("controls_if", ifRule),
    ("controls_repeat_ext", repeatRule)]

end BlockCode.Python

namespace BlockCode

/-- The language of Python programs. An expression that stands alone is a line. -/
def Language.python (config : Config) : Language where
  name := .str "Python"
  sort := "PythonLite"
  config
  rules := Python.rules.map fun (type, rule) => (.str type, rule)
  reserved := Python.reservedWords
  standing := fun line => .ok (line ++ "\n")

end BlockCode
