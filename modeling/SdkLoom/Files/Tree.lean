import SdkLoom.Error
import SdkLoom.Files.Path
import SdkLoom.Text.Utf8

/-!
# File trees

A `FileTree` holds directories and files by their place, the list of names that leads to them from the working directory, or
after a slash from the root of all files. Paths are followed step by step, so a step up from a directory that is not there
fails. Every change returns the tree as it is then, also when it fails halfway.
-/

namespace SdkLoom

/-- What a file holds: a text, or bytes that are none. -/
inductive Content where
  | text (s : String)
  | binary (bytes : List UInt8)
  deriving DecidableEq

namespace Content

/-- The content that bytes make. -/
def ofBytes (bytes : List UInt8) : Content :=
  match Text.ofBytes? bytes with
  | some s => .text s
  | none => .binary bytes

/-- The text to show for a content. -/
def shown : Content → String
  | .text s => s
  | .binary bytes => Text.ofBytesLossy bytes

end Content

/-- What a place holds. -/
inductive FileEntry where
  | directory
  | file (content : Content)
  deriving DecidableEq

/-- The names that lead to a place. Double dots at the start lead above the working directory, and a slash to the root. -/
abbrev Place := List String

namespace Place

/-- The root of all files. -/
def root : Place := ["/"]

/-- Whether a place is the working directory or above it, or the root: these are directories always. -/
def isFixed (p : Place) : Bool := p == root || p.all (· == "..")

/-- The place above a directory. -/
def up (p : Place) : Place :=
  if p == root then root else if p.isFixed then p ++ [".."] else p.dropLast

/-- Where the steps of a path start. -/
def start (path : String) : Place := if Path.isAbsolute path then root else []

end Place

/-- The files and directories that are known. -/
structure FileTree where
  entries : SortedMap Place FileEntry

namespace FileTree

/-- A working directory without content. -/
def empty : FileTree := ⟨∅⟩

/-- What is at a place. -/
def entry? (t : FileTree) (p : Place) : Option FileEntry :=
  if p.isFixed then some .directory else t.entries.get? p

/-- Puts an entry at a place. -/
def put (t : FileTree) (l : Place) (e : FileEntry) : FileTree := ⟨t.entries.insert l e⟩

/-! ## Following paths -/

/-- Goes from directory to directory. -/
def enter (t : FileTree) : Place → List String → Except FileFault Place
  | here, [] => .ok here
  | here, step :: rest =>
    if step == ".." then enter t here.up rest
    else
      match t.entry? (here ++ [step]) with
      | none => .error .missing
      | some (.file _) => .error .notDirectory
      | some .directory => enter t (here ++ [step]) rest

/-- The place that a path names, whether or not something is there; what leads to it has to be a directory. -/
def locate (t : FileTree) (path : String) : Except FileFault Place :=
  if path == "" then .error .missing
  else
    let steps := Path.steps path
    match steps.getLast? with
    | none => .ok (.start path)
    | some last => do
      let dir ← t.enter (.start path) steps.dropLast
      .ok (if last == ".." then dir.up else dir ++ [last])

/-- What a path names. -/
def find (t : FileTree) (path : String) : Except FileFault FileEntry := do
  let l ← t.locate path
  match t.entry? l with
  | none => .error .missing
  | some .directory => .ok .directory
  | some (.file c) => if Path.endsInDirectory path then .error .notDirectory else .ok (.file c)

/-- Whether a path names a file. -/
def isFile (t : FileTree) (path : String) : Bool :=
  match t.find path with
  | .ok (.file _) => true
  | _ => false

/-- The text of the file that a path names. -/
def read (t : FileTree) (path : String) : Except FileFault String := do
  match ← t.find path with
  | .directory => .error .isDirectory
  | .file (.text s) => .ok s
  | .file (.binary _) => .error .notText

/-! ## Changes -/

/-- Makes the directories that some steps from a directory lead through, up to the first that cannot be one. -/
def makeFrom (t : FileTree) : Place → List String → FileTree × Except FileFault Unit
  | _, [] => (t, .ok ())
  | here, step :: rest =>
    if step == ".." then makeFrom t here.up rest
    else
      let there := here ++ [step]
      match t.entry? there with
      | some (.file _) => (t, .error (if rest.isEmpty then .exists else .notDirectory))
      | some .directory => makeFrom t there rest
      | none => makeFrom (t.put there .directory) there rest

/-- Makes the directory that a path names, with those above it. -/
def makeDirectories (t : FileTree) (path : String) : FileTree × Except FileFault Unit :=
  t.makeFrom (.start path) (Path.steps path)

/-- Writes a file into a directory that is there. -/
def write (t : FileTree) (path : String) (c : Content) : Except FileFault FileTree := do
  let l ← t.locate path
  match t.entry? l with
  | some .directory => .error .isDirectory
  | some (.file _) => if Path.endsInDirectory path then .error .notDirectory else .ok (t.put l (.file c))
  | none => if Path.endsInDirectory path then .error .isDirectory else .ok (t.put l (.file c))

/-- Makes the directories above a file, then writes it. -/
def writeWithParents (t : FileTree) (path : String) (c : Content) : FileTree × Except FileFault Unit :=
  match t.makeFrom (.start path) (Path.steps path).dropLast with
  | (t, .error f) => (t, .error f)
  | (t, .ok ()) =>
    match t.write path c with
    | .ok t => (t, .ok ())
    | .error f => (t, .error f)

/-! ## Listings -/

/-- The names that lead from one place to another below it. -/
def below? (dir p : Place) : Option (List String) :=
  if dir.isPrefixOf p then
    let names := p.drop dir.length
    if names.head?.all fun n => n == "/" || n == ".." then none else some names
  else none

/-- The files below a directory: what leads to each from there, and its text. -/
def listing (t : FileTree) (dir : String) : List (String × String) :=
  match if dir == "" then .error .missing else t.enter (.start dir) (Path.steps dir) with
  | .error _ => []
  | .ok place => t.entries.toList.filterMap fun (p, e) =>
    match e with
    | .directory => none
    | .file c => (below? place p).map fun names => (String.intercalate "/" names, c.shown)

end FileTree

end SdkLoom
