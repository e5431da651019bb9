-- The names of a program: which identifier each name got, which identifiers are
-- taken, and which words nobody gets. No identifier is given out twice, except to
-- the same name again.
import BlockCode.Names.Identifier
import BlockCode.Text.Lines
import BlockCode.Value.Basic

namespace BlockCode

open Text

structure Names where
  reserved : List String := []
  /-- Reserved words that are no texts. No identifier is one of them. -/
  strangeWords : List Value := []
  /-- The identifiers of names, under the name and its category. -/
  memo : List (Spelling × String) := []
  taken : List String := []
deriving Repr, Inhabited

namespace Names

/-- Adds words that nobody gets. The empty word is no word. -/
def reserve (names : Names) (words : List String) : Names :=
  { names with
    reserved := words.foldl
      (fun all word => if word == "" || all.contains word then all else all ++ [word])
      names.reserved }

/-- Forgets every identifier that was given out. -/
def reset (names : Names) : Names := { names with memo := [], taken := [] }

def inUse (names : Names) : List String := names.taken ++ names.reserved

/-- Gives out an identifier that was never given out, for a base of one's own. -/
def take (names : Names) (base : String) : String × Names :=
  let identifier := fresh names.inUse base
  (identifier, { names with taken := identifier :: names.taken })

def known? (names : Names) (key : Spelling) : Option String := names.memo.lookup key

/-- Keeps the identifier of a name. -/
def keep (names : Names) (key : Spelling) (identifier : String) : Names :=
  { names with memo := (key, identifier) :: names.memo }

end Names
end BlockCode
