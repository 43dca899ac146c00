import SdkLoom.Files.Tree
import SdkLoom.Template.Builtin
import SdkLoom.Template.Render
import SdkLoom.Text.Printable

/-!
# Template stores

Where the templates of a target come from: a directory of the file tree, or the templates that come with the generator.
-/

namespace SdkLoom

/-- A source of templates. -/
inductive TemplateStore where
  | directory (root : String)
  | builtin (path : String) (files : List (String × String))
  deriving DecidableEq

namespace TemplateStore

/-- The templates of a target below a directory, or its built-in ones if no directory is given. -/
def ofTarget (templates : Option String) (target : Target) : TemplateStore :=
  match templates with
  | some dir => .directory (Path.join dir target.templatePath)
  | none => .builtin target.templatePath (BuiltinTemplates.files target.language)

/-- The directory of a store that has one. -/
def root? : TemplateStore → Option String
  | .directory root => some root
  | .builtin _ _ => none

/-- The text of a template. -/
def read (tree : FileTree) (store : TemplateStore) (name : String) : Except Error String :=
  match store with
  | .directory root => (tree.read (Path.join root name)).mapError (.file (Path.join root name))
  | .builtin path files =>
    match files.lookup name with
    | some text => .ok text
    | none => .error (.file ("builtin:" ++ path ++ "/" ++ name) .noTemplate)

/-- A template filled in with data. -/
def render (tree : FileTree) (store : TemplateStore) (name : String) (data : Json) : Except Error String := do
  let text ← store.read tree name
  match Template.render text data with
  | some out => .ok out
  | none => .error (.render name)

/-! ## Showing stores -/

/-- A character between quotes; quotes and backslashes are escaped, and what does not show is given by its number. -/
def showChar (c : Char) : List Char :=
  if c == '"' || c == '\\' then ['\\', c]
  else if c == '\n' then ['\\', 'n']
  else if c == '\r' then ['\\', 'r']
  else if c == '\t' then ['\\', 't']
  else if c == '\x00' then ['\\', '0']
  else if Text.isPrintable c then [c]
  else ['\\', 'u', '\x7b'] ++ Nat.toDigits 16 c.toNat ++ ['\x7d']

/-- A text between quotes. -/
def showText (s : String) : String := String.ofList ('"' :: s.toList.flatMap showChar ++ ['"'])

/-- The kind of a store and its path. -/
def describe : TemplateStore → String
  | .directory root => "TemplateStore \x7b root: " ++ showText root ++ " \x7d"
  | .builtin path _ => "TemplateStore \x7b builtin: " ++ showText path ++ " \x7d"

end TemplateStore

end SdkLoom
