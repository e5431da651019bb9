-- Requests for identifiers with names of any kind, as documents hold them. A name
-- that counts as false is the same as no name; any other must be a text. Each
-- request tells what it did.
import BlockCode.Names.Basic
import BlockCode.Fault
import BlockCode.Log
import BlockCode.Effect
import BlockCode.Value.Sorted

namespace BlockCode.Names

open Text

/-- An identifier, the names after it was given out, and what there is to tell. -/
structure Granted where
  identifier : String
  names : Names
  notes : List Note := []

/-- The identifier of a name of any kind, before anybody asks whether it is in use. A half is
no word character. -/
def plainFor (name : Value) : Except Fault String :=
  if !name.truth then .ok "unnamed"
  else match name with
  | .str s => .ok (plainIdentifier s)
  | .torn t => .ok (plainIdentifier (t.signs.shown '_'))
  | _ => .error .wrongKind

/-- Names that differ in case at most, of any kind. -/
def sameValue (a b : Value) : Except Fault Bool :=
  match a.spelling?, b.spelling? with
  | some s, some t => .ok (lowerSpelling s == lowerSpelling t)
  | _, _ => .error .noParts

/-- An identifier that is not its name is worth a note. -/
def renamedNote (name category : Value) (identifier : String) : List Note :=
  if name.equals (.str identifier) then []
  else [.renamed category.shown name.shown identifier]

/-- Gives out an identifier for a name that nobody else shares. -/
def ownFor (names : Names) (name category : Value) : Except Fault Granted := do
  let (identifier, names) := names.take (← plainFor name)
  return { identifier, names, notes := renamedNote name category identifier }

/-- How a value is spelled among others: a text as it is, any other as it is written down. -/
def spell (v : Value) : Except Fault Spelling :=
  match v.spelling? with
  | some signs => .ok signs
  | none => do return ↑(← v.text)

/-- Where the identifier of a name is kept, whatever signs it is spelled with. -/
def place (name category : Spelling) (caseSensitive : Bool) : Spelling :=
  (if caseSensitive then name else lowerSpelling name) ++ .char '_' :: category

/-- Where the identifier of a name of any kind is kept. -/
def keyFor (name category : Value) (caseSensitive : Bool) : Except Fault Spelling := do
  let signs ← match name.spelling? with
    | some signs => .ok signs
    | none => if caseSensitive then spell name else .error .noParts
  return place signs (← spell category) caseSensitive

/-- The identifier of a name: the one that it has, or a new one. -/
def getFor (names : Names) (name category : Value) (caseSensitive : Bool) :
    Except Fault Granted := do
  let key ← keyFor name category caseSensitive
  match names.known? key with
  | some identifier => return { identifier, names }
  | none =>
    let granted ← names.ownFor name category
    return { granted with names := granted.names.keep key granted.identifier }

/-! ## Reserving words of any kind -/

/-- Adds a word of any kind that nobody gets. A word that counts as false is no word. -/
def reserveWord (word : Value) : Effect Names Fault Unit :=
  if !word.truth then return
  else if !word.isKey then Effect.fail .wrongKind
  else Effect.change fun names =>
    match word with
    | .str s => names.reserve [s]
    | v =>
      if names.strangeWords.any (·.same v) then names
      else { names with strangeWords := names.strangeWords ++ [v] }

/-- The words of a text with halves that is written with commas. -/
def tornWords (t : Torn) : List Value := (Text.splitAt (.char ',') t.signs).map .ofSpelling

/-- Adds words that are written as one text with commas, or that are given one by
one. The words before one that cannot be reserved are reserved. -/
def reserveWords : Value → Effect Names Fault Unit
  | .str s => Effect.change (·.reserve (Text.commaWords s))
  | .torn t => (tornWords t).forM reserveWord
  | .list words => words.forM reserveWord
  | .tuple words => words.forM reserveWord
  | .table entries => entries.forM fun entry => reserveWord entry.1
  | _ => Effect.fail .wrongKind

/-- All reserved words in order, if they have one. -/
def reservedWords (names : Names) : Except Fault (List Value) :=
  match Value.sorted? (names.reserved.map .str ++ names.strangeWords) with
  | some words => .ok words
  | none => .error .wrongKind

end BlockCode.Names
