-- Paths, as texts with slashes. Nothing here asks what there is on the disk.
import BlockCode.Text.Lines

namespace BlockCode.Path

/-- The names in a path, without the empty ones and the single points. -/
def names (path : String) : List String :=
  ((Text.splitAt '/' path.toList).map String.ofList).filter fun name => name != "" && name != "."

/-- What stands before the names: nothing, a slash, or two slashes and no more. -/
def root (path : String) : String :=
  if path.startsWith "//" && !path.startsWith "///" then "//"
  else if path.startsWith "/" then "/"
  else ""

/-- A path without what does not matter in it. -/
def shown (path : String) : String :=
  let text := root path ++ "/".intercalate (names path)
  if text == "" then "." else text

/-- The last name of a path. -/
def fileName (path : String) : String := ((names path).getLast?).getD ""

/-- What stands behind the last slash. -/
def afterSlash (path : String) : String :=
  String.ofList (((Text.splitAt '/' path.toList).getLast?).getD [])

/-- Names with each `..` taking away the name before it. -/
def climb (names : List String) : List String :=
  names.foldl (fun above name => if name == ".." then above.dropLast else above ++ [name]) []

/-- A path that starts in the folder, unless it starts at the root. -/
def joined (folder path : String) : String :=
  if path.startsWith "/" then path else folder ++ "/" ++ path

/-- A path from the root on, without what does not matter in it. One that does not
start there starts in the folder. -/
def absolute (folder path : String) : String :=
  let whole := joined folder path
  root whole ++ "/".intercalate (climb (names whole))

/-- The folder of an absolute path. -/
def folderOf (path : String) : String := root path ++ "/".intercalate (names path).dropLast

end BlockCode.Path
