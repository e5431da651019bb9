-- The code of blocks. The rule for its type makes the code of a block; the rule
-- asks for the code of what is plugged into the inputs, and the code of the chain
-- behind the block follows. A disabled block is passed over: the chain behind it
-- stands in its place.
import BlockCode.Generation.Session

namespace BlockCode

/-- The code of a chain of blocks. -/
inductive Code where
  | statements (text : String)
  | expression (text : String) (order : Value)

def Code.text : Code → String
  | statements text => text
  | expression text _ => text

/-- An input of a block whose rule is at work: what is plugged into it, and how to
get the code of that. -/
structure Plug where
  name : Value
  kind : SlotKind
  target : Chain
  code : Action Code

namespace Plug

/-- The input of a name, if the name can be looked up at all. -/
def find (plugs : List Plug) (name : Value) : Except Fault (Option Plug) := do
  let name ← name.asKey
  return plugs.find? (·.name.same name)

end Plug

/-! ## Comments -/

/-- The comment of a block, or the empty text. -/
def Block.commentOf (b : Block) : Except Fault String :=
  match b.commentText with
  | .null => .ok ""
  | .str s => .ok s
  | .torn t => .ok t.text
  | _ => .error .wrongKind

/-- The comments of a block and of all that hangs on it, each ended by a newline. -/
def Chain.comments (c : Chain) : Except Fault String := do
  let texts ← c.blocks.mapM Block.commentOf
  return String.join ((texts.filter (· != "")).map (· ++ "\n"))

namespace Language

/-- The comment lines of a block. -/
def ownComment (L : Language) (b : Block) : Except Fault String := do
  let comment ← b.commentOf
  if comment == "" then return ""
  L.config.comment comment

/-- The comment lines for what is plugged into an input for a value. Such blocks
have no line of their own, so their comments stand before the line that they are in. -/
def plugComment (L : Language) (plug : Plug) : Except Fault String := do
  if plug.kind != .value then return ""
  let comments ← plug.target.comments
  if comments == "" then return ""
  L.config.marked comments

/-- All comment lines before the code of a block. -/
def commentsBefore (L : Language) (b : Block) (plugs : List Plug) : Except Fault String := do
  return (← L.ownComment b) ++ String.join (← plugs.mapM L.plugComment)

/-! ## Inputs -/

/-- The expression in the input of a name, for a place of order `outer`. -/
def plugged (L : Language) (b : Block) (plugs : List Plug) (input outer : Value) :
    Action String := do
  if !(← Effect.lift (isOrder outer)) then
    Effect.fail (GenerationError.invalidOuterOrder b outer).fault
  else match ← Effect.lift (Plug.find plugs input) with
  | none => return ""
  | some plug =>
    match plug.target.head? with
    | none => return ""
    | some target =>
      match ← plug.code with
      | .statements text =>
        if text == "" then return ""
        else Effect.fail (GenerationError.missingOrder target).fault
      | .expression text inner =>
        if ← Effect.lift (isOrder inner) then return L.bracketed text outer inner
        else Effect.fail (GenerationError.invalidInnerOrder target inner).fault

/-- The code of a chain. An expression may not stand in a chain. -/
def chained (chain : Chain) (code : Action Code) : Action String := do
  match chain.head? with
  | none => return ""
  | some head =>
    match ← code with
    | .statements text => return text
    | .expression _ _ => Effect.fail (GenerationError.misplacedValue head).fault

/-- The statements in the input of a name, indented. -/
def nestedStatements (L : Language) (plugs : List Plug) (input : Value) : Action String := do
  match ← Effect.lift (Plug.find plugs input) with
  | none => return ""
  | some plug =>
    let text ← chained plug.target plug.code
    if text == "" then return ""
    Effect.lift (L.config.indented text)

/-- The comments of what is plugged into the input of a name. -/
def pluggedComments (plugs : List Plug) (input : Value) : Except Fault String := do
  match ← Plug.find plugs input with
  | none => return ""
  | some plug => plug.target.comments

/-! ## Rules at work -/

/-- Answers a request of the rule for `b`. `nested` makes the program of another
workspace. -/
def answer (L : Language) (nested : Workspace → Action String) (b : Block) (plugs : List Plug) :
    Request → Action String
  | .value input order => L.plugged b plugs input order
  | .statements input => L.nestedStatements plugs input
  | .comments input => Effect.lift (pluggedComments plugs input)
  | .identifier name category caseSensitive => Session.identifier name category caseSensitive
  | .ownIdentifier name category => Session.ownIdentifier name category
  | .helper desired lines => Session.helper L desired lines
  | .reserve words => do
    Session.reserve words
    return ""
  | .pass w => nested w

/-- Runs a script, with the answers to its requests. -/
def perform {α : Type} (answer : Request → Action String) : Script α → Action α
  | .done result => Effect.lift result
  | .ask r next => do perform answer (next (← (answer r).attempt))

/-- The rule for a block. -/
def ruleOf (L : Language) (b : Block) : Action Rule := do
  match ← Effect.lift (L.ruleFor b.type) with
  | some rule => return rule
  | none => Effect.fail (GenerationError.unsupportedType L.name b.type (some b)).fault

/-- The code of a block and of the chain behind it, with the comments before.
A block that gives a value has comment lines only when it stands alone. -/
def withSurroundings (L : Language) (alone : Bool) (b : Block) (plugs : List Plug)
    (code : String) (rest : Action String) : Action String := do
  let comments ←
    if !b.givesValue || alone then Effect.lift (L.commentsBefore b plugs) else pure ""
  return comments ++ code ++ (← rest)

/-- The code of an enabled block and of the chain behind it. -/
def codeOfBlock (L : Language) (nested : Workspace → Action String) (alone : Bool) (b : Block)
    (inputs : Inputs) (plugs : List Plug) (rest : Action String) : Action Code := do
  let rule ← L.ruleOf b
  Effect.change fun s => { s with pass := { s.pass with handled := s.pass.handled + 1 } }
  match ← perform (L.answer nested b plugs) (rule b inputs) with
  | .code code => return .statements (← L.withSurroundings alone b plugs code rest)
  | .expression code order => return .expression (← L.withSurroundings alone b plugs code rest) order
  | .other (.tuple _) => Effect.fail (GenerationError.malformedPair b).fault
  | .other v => Effect.fail (GenerationError.noCode b v).fault

mutual
/-- The code of a chain of blocks. `alone` says that the first block is attached to
no other. -/
def codeOf (L : Language) (nested : Workspace → Action String) (alone : Bool) :
    Chain → Action Code
  | .nil => pure (.statements "")
  | .cons b inputs next =>
    if b.isDisabled then L.codeOf nested false next
    else L.codeOfBlock nested alone b inputs (L.plugs nested inputs)
      (chained next (L.codeOf nested false next))

/-- The inputs of a block with the code of what is in them. -/
def plugs (L : Language) (nested : Workspace → Action String) : Inputs → List Plug
  | .nil => []
  | .cons name kind target rest =>
    { name, kind, target, code := L.codeOf nested false target } :: L.plugs nested rest
end

end Language
end BlockCode
