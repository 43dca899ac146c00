import SdkLoom.CommandLine.Invocation

/-!
# The program

The outer layer: it puts the files that a run reads into a file tree, runs the command line on it, and carries out what
changed.
-/

open SdkLoom

namespace SdkLoom.Program

/-- Puts a file into the tree, if it is there. -/
def fetchFile (tree : FileTree) (path : String) : IO FileTree := do
  try
    let bytes ← IO.FS.readBinFile path
    return (tree.writeWithParents path (.ofBytes bytes.toList)).1
  catch _ => return tree

/-- Puts files into the tree. -/
def fetchFiles (tree : FileTree) (paths : List String) : IO FileTree := paths.foldlM fetchFile tree

/-- The files of a tree that another does not have, or has with other content. -/
def changes (old new : FileTree) : List (Place × Content) :=
  new.entries.toList.filterMap fun (p, e) =>
    match e with
    | .directory => none
    | .file c => if old.entries.get? p = some (.file c) then none else some (p, c)

/-- How a place is written as a path. -/
def pathOf : Place → String
  | "/" :: names => "/" ++ String.intercalate "/" names
  | names => String.intercalate "/" names

/-- Writes a file with the directories above it. -/
def store (file : Place × Content) : IO Unit := do
  let dir := pathOf file.1.dropLast
  if dir != "" then IO.FS.createDirAll dir
  match file.2 with
  | .text s => IO.FS.writeFile (pathOf file.1) s
  | .binary bytes => IO.FS.writeBinFile (pathOf file.1) (ByteArray.mk bytes.toArray)

/-- The tree that a run needs. -/
def gather (args : List String) : IO FileTree :=
  match CommandLine.Options.read args with
  | .error _ => return .empty
  | .ok o => do
    let tree ← fetchFiles .empty o.configReads
    fetchFiles tree (o.reads tree)

end SdkLoom.Program

open SdkLoom.Program in
/-- Runs the command line. -/
def main (args : List String) : IO UInt32 := do
  let tree ← gather args
  let result := CommandLine.invoke args tree Introspection.offline
  (changes tree result.tree).forM store
  (← IO.getStdout).putStr result.stdout
  (← IO.getStderr).putStr result.stderr
  return UInt32.ofNat result.code
