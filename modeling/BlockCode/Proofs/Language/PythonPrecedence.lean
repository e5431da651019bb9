-- Expressions are bracketed rightly. The code of a tree of blocks is bracketed by orders
-- alone, each operand for itself; read by Python's grammar it is the tree again.
import BlockCode.Proofs.Language.PythonTerms

namespace BlockCode.Python

variable {config : Config} {nested : Workspace → Action String} {s : Session} {b : Block}
  {inputs : Inputs} {t l r : Term}

/-! ## What the code of a tree comes to -/

/-- The session that comes later is in good order, and nothing was lost. -/
structure Later (s after : Session) : Prop where
  onward : s.pass.Onward after.pass
  orderly : after.pass.Orderly reservedWords

theorem Later.trans {after last : Session} (h : Later s after) (h' : Later after last) :
    Later s last := ⟨h.onward.trans h'.onward, h'.orderly⟩

/-- The run of a rule makes a text that is a phrase for the tree. -/
def Makes (config : Config) (nested : Workspace → Action String) (b : Block) (inputs : Inputs)
    (rule : Rule) (t : Term) : Prop :=
  ∀ s : Session, s.pass.Orderly reservedWords → ∃ text e after,
    Language.perform ((Language.python config).answer nested b
      ((Language.python config).plugs nested inputs)) (rule b inputs) s =
        (.ok (.expression text (.int t.order)), after) ∧
      Later s after ∧ (∀ instead, t.tree after.pass instead = some e) ∧
      Phrase (levelOf t.order) text e

/-- The answers to the requests of the rule for `b`. -/
abbrev answers (config : Config) (nested : Workspace → Action String) (b : Block)
    (inputs : Inputs) : Request → Action String :=
  (Language.python config).answer nested b ((Language.python config).plugs nested inputs)

/-- A program that prints a product, of a sum without its right operand and of a negative
number. -/
def product : Workspace where
  nodes :=
    [{ block := { type := .str "text_print" }
       slots := [{ name := .str "TEXT", kind := .value, target := some 1 }] },
      { block := { handle := 1, type := .str "math_arithmetic", output := .bool true,
                   fields := .table [(.str "OP", .str "MULTIPLY")] }
        slots := [{ name := .str "A", kind := .value, target := some 2 },
          { name := .str "B", kind := .value, target := some 4 }]
        parent := some 0 },
      { block := { handle := 2, type := .str "math_arithmetic", output := .bool true,
                   fields := .table [(.str "OP", .str "ADD")] }
        slots := [{ name := .str "A", kind := .value, target := some 3 }], parent := some 1 },
      { block := { handle := 3, type := .str "math_number", output := .bool true,
                   fields := .table [(.str "NUM", .int 1)] }, parent := some 2 },
      { block := { handle := 4, type := .str "math_number", output := .bool true,
                   fields := .table [(.str "NUM", .int (-3))] }, parent := some 1 }]
  members := [0, 1, 2, 3, 4]

end BlockCode.Python
