-- Files and folders, as a program finds them. A path is followed name by name, and
-- every name before the last must be that of a folder.
import BlockCode.Command.Path
import BlockCode.Fault

namespace BlockCode

inductive Entry where
  | folder
  | text (content : String)
  /-- A file whose bytes are no text. -/
  | binary
deriving DecidableEq, Repr

/-- All entries below the root, each under the names that lead to it. -/
structure Files where
  /-- The folder in which relative paths start. -/
  here : String
  entries : List (List String × Entry)
deriving Repr

namespace Files

/-- Why a path leads nowhere. -/
inductive DeadEnd where
  | missing
  | notFolder
  | tooLong
  | null
deriving DecidableEq, Repr

/-- The bytes that a name in a path can have at most. -/
def longestName : Nat := 255

/-- The bytes that a path can have at most. -/
def longestPath : Nat := 4095

/-- What stands at a place. The root is a folder. -/
def at? (files : Files) (place : List String) : Option Entry :=
  if place.isEmpty then some .folder else files.entries.lookup place

/-- Follows names from a place on. How long a name is matters only in a folder
that is there. -/
def follow (files : Files) (place : List String) : List String → Except DeadEnd (List String)
  | [] => .ok place
  | name :: rest =>
    match files.at? place with
    | none => .error .missing
    | some .folder =>
      if name == "" || name == "." then files.follow place rest
      else if name == ".." then files.follow place.dropLast rest
      else if name.utf8ByteSize > longestName then .error .tooLong
      else files.follow (place ++ [name]) rest
    | some _ => .error .notFolder

/-- The place to which a path leads. There may be nothing at it. -/
def place (files : Files) (path : String) : Except DeadEnd (List String) :=
  let start := if path.startsWith "/" then [] else Path.names files.here
  if path.toList.contains '\x00' then .error .null
  else if path.utf8ByteSize > longestPath then .error .tooLong
  else files.follow start ((Text.splitAt '/' path.toList).map String.ofList)

def isFile (files : Files) (path : String) : Bool :=
  match files.place path with
  | .error _ => false
  | .ok place =>
    match files.at? place with
    | none | some .folder => false
    | some _ => true

/-- A dead end, told with its path. -/
def DeadEnd.fault (path : String) : DeadEnd → Fault
  | missing => .missingFile path
  | notFolder => .fileForFolder path
  | tooLong => .pathTooLong path
  | null => .nullInPath

/-- The text in a file. -/
def read (files : Files) (path : String) : Except Fault String :=
  match files.place path with
  | .error deadEnd => .error (deadEnd.fault path)
  | .ok place =>
    match files.at? place with
    | none => .error (.missingFile path)
    | some .folder => .error (.folderForFile path)
    | some .binary => .error .notText
    | some (.text content) => .ok content

/-- Puts an entry in a place. -/
def put (place : List String) (entry : Entry) :
    List (List String × Entry) → List (List String × Entry)
  | [] => [(place, entry)]
  | (p, e) :: rest => if p == place then (p, entry) :: rest else (p, e) :: put place entry rest

/-- Writes a text into a file, which need not be there before. -/
def write (files : Files) (path content : String) : Except Fault Files :=
  match files.place path with
  | .error deadEnd => .error (deadEnd.fault path)
  | .ok place =>
    match files.at? place with
    | some .folder => .error (.folderForFile path)
    | _ => .ok { files with entries := put place (.text content) files.entries }

theorem lookup_put (place : List String) (entry : Entry) (entries : List (List String × Entry)) :
    (put place entry entries).lookup place = some entry := by
  induction entries with
  | nil => simp [put]
  | cons first rest ih =>
    obtain ⟨p, e⟩ := first
    simp only [put]
    split
    · next h =>
      have : p = place := by simpa using h
      subst this
      simp
    · next h =>
      have : (place == p) = false := by
        simp only [beq_iff_eq] at h
        simpa using fun he => h he.symm
      rw [List.lookup_cons, this, ih]

end Files
end BlockCode
