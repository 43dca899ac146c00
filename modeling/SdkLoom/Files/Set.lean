import SdkLoom.Template.Store

/-!
# File sets

The files of a package by path, each a text or a way to produce one. A set is written into a directory file by file
(`FileSet.materialize`): files that cannot be produced or written are reported, and the others are written all the same.
-/

namespace SdkLoom

/-- What a file is produced from: its path, the templates, and the files as they are then. -/
structure FileScope where
  path : String
  templates : TemplateStore
  tree : FileTree

namespace FileScope

/-- The text of a template. -/
def read (scope : FileScope) (name : String) : Except Error String := scope.templates.read scope.tree name

/-- The template of the file itself, filled in with data. -/
def render (scope : FileScope) (data : Json) : Except Error String :=
  scope.templates.render scope.tree (scope.path ++ ".hbs") data

end FileScope

/-- The content of a file to be written. -/
inductive FileContent where
  | text (s : String)
  | produced (make : FileScope → Except Error String)

namespace FileContent

/-- The content that is a copy of a template. -/
def copied (name : String) : FileContent := .produced fun scope => scope.read name

/-- The content that is the template of its file, filled in with data. -/
def rendered (data : Json) : FileContent := .produced fun scope => scope.render data

/-- The content that is the path of its file. -/
def ownPath : FileContent := .produced fun scope => .ok scope.path

/-- The text of a content. -/
def resolve (scope : FileScope) : FileContent → Except Error String
  | .text s => .ok s
  | .produced make => make scope

/-- The kind of a content; of a text also its length in bytes. -/
def describe : FileContent → String
  | .text s => "Text(" ++ toString s.utf8ByteSize ++ ")"
  | .produced _ => "Produce(..)"

end FileContent

/-- Files by path. -/
abbrev FileSet := SortedMap String FileContent

/-- What became of the files of a set. -/
structure Report where
  written : List String
  failed : List String
  skipped : List String

namespace Report

/-- The report on no file. -/
def empty : Report := ⟨[], [], []⟩

/-- Whether no file failed. -/
def success (r : Report) : Bool := r.failed.isEmpty

end Report

namespace FileSet

/-- The text of a file whose text is given. -/
def text? (files : FileSet) (path : String) : Option String :=
  match files.get? path with
  | some (.text s) => some s
  | _ => none

/-- What is to be done with a file: write its text, leave it out since that is empty, or report that there is none. -/
inductive Outcome where
  | write (text : String)
  | skip
  | fail
  deriving DecidableEq

/-- What is to be done with a file whose content is given. -/
def outcome (templates : TemplateStore) (tree : FileTree) (path : String) (content : FileContent) : Outcome :=
  match content.resolve ⟨path, templates, tree⟩ with
  | .error _ => .fail
  | .ok text => if text.isEmpty then .skip else .write text

/-- What is to be done with each file of a set, by path. -/
def outcomes (files : FileSet) (templates : TemplateStore) (tree : FileTree) : List (String × Outcome) :=
  files.toList.map fun (path, content) => (path, outcome templates tree path content)

/-- Carries out one outcome in a directory, and notes what became of it. -/
def step (dir : String) (state : FileTree × Report) (file : String × Outcome) : FileTree × Report :=
  let (tree, report) := state
  match file.2 with
  | .fail => (tree, { report with failed := report.failed ++ [file.1] })
  | .skip => (tree, { report with skipped := report.skipped ++ [file.1] })
  | .write text =>
    match tree.writeWithParents (Path.join dir file.1) (.text text) with
    | (tree, .ok ()) => (tree, { report with written := report.written ++ [file.1] })
    | (tree, .error _) => (tree, { report with failed := report.failed ++ [file.1] })

/-- Writes the files of a set into a directory. All of them are produced before the first is written. -/
def materialize (files : FileSet) (dir : String) (templates : TemplateStore) (tree : FileTree) : FileTree × Report :=
  (files.outcomes templates tree).foldl (step dir) (tree, .empty)

end FileSet

end SdkLoom
