import SdkLoom.Text.Search

/-!
# Paths

A path as it is written, and what is read off it: its steps, the name at its end, that name's extension.
-/

namespace SdkLoom

namespace Path

/-- Whether a path starts at the root of all files. -/
def isAbsolute (path : String) : Bool := Text.startsWith path "/"

/-- The parts between the slashes. -/
def parts (path : String) : List String := (Text.splitAll (· == '/') path.toList).map String.ofList

/-- Whether a part leads anywhere: empty parts and single dots do not. -/
def isStep (part : String) : Bool := !(part == "" || part == ".")

/-- The names and double dots of a path in order. -/
def steps (path : String) : List String := (parts path).filter isStep

/-- Whether a path can only name a directory, since nothing or a single dot stands after its last slash. -/
def endsInDirectory (path : String) : Bool :=
  match (parts path).getLast? with
  | some part => !isStep part
  | none => true

/-- A path below a directory; an absolute path stays as it is. -/
def join (dir path : String) : String :=
  if isAbsolute path || dir == "" then path
  else if Text.endsWith dir "/" then dir ++ path
  else dir ++ "/" ++ path

/-- The name at the end of a path. -/
def fileName? (path : String) : Option String := (steps path).getLast?.filter (· ≠ "..")

/-- What follows the last dot of the name at the end of a path, if something precedes that dot. -/
def extension? (path : String) : Option String :=
  (fileName? path).bind fun name =>
    (Text.cutAt (· == '.') name.toList.reverse).bind fun (after, before) =>
      if before.isEmpty then none else some (String.ofList after.reverse)

/-- The extension in lower case, empty if there is none. -/
def format (path : String) : String := String.ofList (((extension? path).getD "").toList.map Char.toLower)

end Path

end SdkLoom
