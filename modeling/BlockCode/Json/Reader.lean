-- Reading JSON. Besides the standard it takes NaN and the infinities, and a name
-- that stands twice in one object has its last value in its first place.
import BlockCode.Json.Scanner

namespace BlockCode.Json

/-! ## Values that hold values -/

mutual
/-- Reads one value. The fuel bounds the steps; each step reads a character or
hands on to one that does. -/
def scanValue : Nat → List Char → Except Stop (Value × List Char)
  | 0, cs => .error (.at .value cs)
  | fuel + 1, cs =>
    match cs with
    | '"' :: rest => scanString cs fuel [] rest
    | '[' :: rest =>
      match skipSpace rest with
      | ']' :: rest => .ok (.list [], rest)
      | rest => do
        let (items, rest) ← scanItems fuel rest
        return (.list items, rest)
    | '{' :: rest =>
      match skipSpace rest with
      | '}' :: rest => .ok (.table [], rest)
      | rest => do
        let (pairs, rest) ← scanMembers fuel rest
        return (.table (Entries.ofPairs pairs), rest)
    | _ => scanAtom cs

/-- Reads the items of a list up to its end. -/
def scanItems : Nat → List Char → Except Stop (List Value × List Char)
  | 0, cs => .error (.at .value cs)
  | fuel + 1, cs => do
    let (v, rest) ← scanValue fuel cs
    match skipSpace rest with
    | ']' :: rest => return ([v], rest)
    | ',' :: rest =>
      let (items, rest) ← scanItems fuel (skipSpace rest)
      return (v :: items, rest)
    | rest => .error (.at .comma rest)

/-- Reads the members of an object up to its end. -/
def scanMembers : Nat → List Char → Except Stop ((List (Value × Value)) × List Char)
  | 0, cs => .error (.at .value cs)
  | fuel + 1, cs =>
    match cs with
    | '"' :: rest => do
      let (name, rest) ← scanString cs fuel [] rest
      match skipSpace rest with
      | ':' :: rest =>
        let (v, rest) ← scanValue fuel (skipSpace rest)
        match skipSpace rest with
        | '}' :: rest => return ([(name, v)], rest)
        | ',' :: rest =>
          let (pairs, rest) ← scanMembers fuel (skipSpace rest)
          return ((name, v) :: pairs, rest)
        | rest => .error (.at .comma rest)
      | rest => .error (.at .colon rest)
    | _ => .error (.at .propertyName cs)
end

/-! ## Whole texts -/

/-- Reads one value and nothing after it but white space. -/
def scanDocument (cs : List Char) : Except Stop Value := do
  let (v, rest) ← scanValue (2 * cs.length + 2) (skipSpace cs)
  match skipSpace rest with
  | [] => return v
  | rest => .error (.at .extraData rest)

/-- Reads a text that holds one value. -/
def read (text : String) : Except ReadError Value :=
  let cs := text.toList
  if cs.head? == some '\ufeff' then .error (.malformed .byteOrderMark 0)
  else match scanDocument cs with
  | .ok v => .ok v
  | .error (.at reason left) => .error (.malformed reason (cs.length - left.length))
  | .error .tooManyDigits => .error .tooManyDigits

end BlockCode.Json
