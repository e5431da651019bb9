-- A language: a rule for each type of block that it knows, and what it says about
-- orders of precedence, reserved words and expressions that stand alone.
import BlockCode.Language.Config
import BlockCode.Language.Script
import BlockCode.Value.Sorted

namespace BlockCode

/-- What a rule makes of its block. -/
inductive RuleResult where
  /-- Statements. -/
  | code (text : String)
  /-- An expression with its order of precedence. -/
  | expression (text : String) (order : Value)
  /-- Neither of these. -/
  | other (result : Value)

/-- A text is statements, and a text in a pair with an order is an expression. -/
def RuleResult.ofValue : Value → RuleResult
  | .str text => code text
  | .torn t => code t.text
  | .tuple [.str text, order] => expression text order
  | .tuple [.torn t, order] => expression t.text order
  | v => other v

/-- A rule sees its block and the inputs of the block. -/
abbrev Rule := Block → Inputs → Script RuleResult

structure Language where
  /-- Usually a text. A name of another kind is shown in messages as it would be written. -/
  name : Value
  named : name.fits = true := by exact Value.fits_str _
  /-- The word for the sort of language, in its text. -/
  sort : String := "Generator"
  config : Config := {}
  /-- The rules by the types of their blocks, in the order of registration. -/
  rules : List (Value × Rule) := []
  /-- Words that are reserved from the start. -/
  reserved : List String := []
  /-- The order of expressions that nothing can tear apart. -/
  atomicOrder : Value := .int 0
  /-- The order of places that take any expression. -/
  noneOrder : Value := .int 99
  /-- Makes a statement of an expression that stands alone. -/
  standing : String → Except Fault String := .ok

namespace Language

/-- The rule for a type. -/
def rule? (L : Language) (type : Value) : Option Rule :=
  (L.rules.find? fun (t, _) => t.same type).map (·.2)

/-- The rule for a type, if the type can be looked up at all. -/
def ruleFor (L : Language) (type : Value) : Except Fault (Option Rule) :=
  if type.isKey then .ok (L.rule? type) else .error .wrongKind

/-- The language knows the type. -/
def hasRule (L : Language) (type : Value) : Except Fault Bool :=
  return (← L.ruleFor type).isSome

/-- The rules with one more. A rule for the same type is replaced in its place. -/
def setRule (type : Value) (rule : Rule) : List (Value × Rule) → List (Value × Rule)
  | [] => [(type, rule)]
  | (t, r) :: rest => if t.same type then (t, rule) :: rest else (t, r) :: setRule type rule rest

def register (L : Language) (type : Value) (rule : Rule) : Language :=
  { L with rules := setRule type rule L.rules }

def types (L : Language) : List Value := L.rules.map (·.1)

/-- The name of a language, as it stands in messages. -/
def title (L : Language) : String := L.name.shown

/-- A language as it is shown to a person. -/
def text (L : Language) : String :=
  L.sort ++ "(" ++ L.name.written ++ ", rules=" ++ toString L.rules.length ++ ")"

/-! ## Orders of precedence -/

/-- An order is a whole number or a floating-point number, and not NaN. A whole
number beyond all floating-point numbers cannot be told from NaN. -/
def isOrder : Value → Except Fault Bool
  | .int i =>
    if (Number.Binary64.ofRatio false i.natAbs 1).isInfinite then .error .tooLarge else .ok true
  | .float x => .ok !x.isNan
  | _ => .ok false

/-- The order is that of things which never need brackets. -/
def isFree (L : Language) (order : Value) : Bool :=
  order.same L.atomicOrder || order.same L.noneOrder

/-- An expression of order `inner` needs brackets in a place of order `outer`:
it binds more weakly, and neither order is free. -/
def needsBrackets (L : Language) (outer inner : Value) : Bool :=
  Value.before? outer inner == some true && !L.isFree outer && !L.isFree inner

/-- The expression, in brackets where it needs them. -/
def bracketed (L : Language) (code : String) (outer inner : Value) : String :=
  if code != "" && L.needsBrackets outer inner then "(" ++ code ++ ")" else code

end Language
end BlockCode
