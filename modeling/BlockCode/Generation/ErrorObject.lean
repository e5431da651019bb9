-- Errors as objects. Whoever holds an error sees its class, its attributes and the text that it
-- shows. The text is put together when the error is made, from the attributes that it has then.
-- The same error about another block is an object of its own. It is not made the way that errors
-- of its class are made: it takes over what the attributes are, and shows its text anew.
import BlockCode.Effect
import BlockCode.Fault

namespace BlockCode

/-- The classes of errors. -/
inductive ErrorClass where
  | general
  | unsupportedType
  | invalidOrder
  | malformedValue
  | malformedStatement
  | reentrantPass
deriving DecidableEq, Repr

def ErrorKind.cls : ErrorKind → ErrorClass
  | general => .general
  | unsupportedType _ _ => .unsupportedType
  | invalidOrder => .invalidOrder
  | malformedValue => .malformedValue
  | malformedStatement => .malformedStatement
  | reentrantPass => .reentrantPass

/-- What an attribute of an error can be. -/
inductive Attribute where
  | value (v : Value)
  | block (b : Block)
deriving Repr

namespace Attribute

/-- A block, or nothing in its place. -/
def ofBlock : Option Block → Attribute
  | none => value .null
  | some b => block b

def text : Attribute → String
  | value v => v.shown
  | block b => b.text

/-- The place that an error names. Only blocks have ids. -/
def location : Attribute → String
  | value _ => ""
  | block b => GenerationError.location (some b)

@[simp] theorem location_ofBlock (block : Option Block) :
    (ofBlock block).location = GenerationError.location block := by
  cases block <;> rfl

end Attribute

/-- What an error has, by name. -/
abbrev Attributes := String → Option Attribute

namespace Attributes

def empty : Attributes := fun _ => none

/-- Gives an attribute, in the place of the one that had the name. -/
def set (own : Attributes) (name : String) (a : Attribute) : Attributes := fun asked =>
  if asked = name then some a else own asked

/-- Takes over all that another has. -/
def update (own other : Attributes) : Attributes := fun asked => (other asked).or (own asked)

end Attributes

structure ErrorObject where
  cls : ErrorClass
  attributes : Attributes := .empty
  /-- The text that the error shows. -/
  shown : String := ""

namespace ErrorObject

/-- An attribute that must be there. -/
def get (e : ErrorObject) (name : String) : Except Fault Attribute :=
  match e.attributes name with
  | some a => .ok a
  | none => .error .noParts

/-- The text for the message and the block that the error has now. -/
def format (e : ErrorObject) : Except Fault String := do
  return (← e.get "message").text ++ (← e.get "block").location

end ErrorObject

/-- All errors that were made, in the order of their making. Whoever holds an error knows its place
here. -/
abbrev Errors := List ErrorObject

/-- Work with errors. -/
abbrev ErrorWork := Effect Errors Fault

namespace ErrorWork

/-- An error of a class that has nothing yet. -/
def blank (cls : ErrorClass) : ErrorWork Nat := fun errors =>
  (.ok errors.length, errors ++ [{ cls := cls }])

/-- The error at a place. -/
def look (e : Nat) : ErrorWork ErrorObject := fun errors =>
  match errors[e]? with
  | some error => (.ok error, errors)
  | none => (.error .noParts, errors)

def modify (e : Nat) (f : ErrorObject → ErrorObject) : ErrorWork Unit :=
  Effect.change fun errors => errors.modify e f

/-- Gives an error an attribute. The text that it shows stays. -/
def assign (e : Nat) (name : String) (a : Attribute) : ErrorWork Unit :=
  modify e fun error => { error with attributes := error.attributes.set name a }

/-- Lets an error show the text for what it has now. -/
def settle (e : Nat) : ErrorWork Unit := do
  let text ← Effect.lift (← look e).format
  modify e fun error => { error with shown := text }

/-- What every error is given when it is made. -/
def fill (e : Nat) (message : Value) (block : Option Block) : ErrorWork Unit := do
  assign e "message" (.value message)
  assign e "block" (.ofBlock block)
  settle e

/-- Makes an error of a class that has nothing but a message and a block. -/
def make (cls : ErrorClass) (message : Value) (block : Option Block) : ErrorWork Nat := do
  let e ← blank cls
  fill e message block
  return e

/-- Makes the error that the language has no rule for a type. -/
def makeUnsupported (language type : Value) (block : Option Block) : ErrorWork Nat := do
  let e ← blank .unsupportedType
  assign e "language" (.value language)
  assign e "block_type" (.value type)
  fill e (.str (GenerationError.unsupportedType language type none).message) block
  return e

/-- The same error about another block. -/
def withBlock (e : Nat) (block : Option Block) : ErrorWork Nat := do
  let own ← look e
  let copy ← blank own.cls
  modify copy fun error => { error with attributes := error.attributes.update own.attributes }
  assign copy "block" (.ofBlock block)
  settle copy
  return copy

end ErrorWork
end BlockCode
