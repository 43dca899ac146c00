import SdkLoom.Json.Basic

/-!
# Templates

A template is a list of nodes: texts, values, calls of helpers, blocks, which are helpers with a body, and inclusions of
other templates, which a template defines itself.
-/

namespace SdkLoom.Template

/-- Where a value is looked up: a variable that a block sets, the data as a whole, or the value of a block some levels
up. -/
inductive Path where
  | blockVariable (level : Nat) (name : String)
  | root (names : List String)
  | context (ups : Nat) (names : List String)
  deriving DecidableEq, Repr, Inhabited

/-- What is given to a helper. A path keeps its spelling, since that may be the name of a helper. -/
inductive Argument where
  | literal (value : Json)
  | path (spelling : String) (path : Path)
  | call (name : String) (args : List Argument) (named : List (String × Argument))
  deriving Inhabited

/-- A helper with what it is given. -/
structure Call where
  name : String
  args : List Argument
  named : List (String × Argument)
  deriving Inhabited

/-- The name of a template to include: as it is written, or the text of a value. -/
inductive Name where
  | written (name : String)
  | computed (arg : Argument)
  deriving Inhabited

/-- A template to include with what it is given, and the space that its lines are set in by. -/
structure Inclusion where
  name : Name
  args : List Argument
  named : List (String × Argument)
  indent : Option String
  deriving Inhabited

/-- A part of a template. The body of an inclusion stands in for a template that is not there, and the body of a
declaration is the template that it declares. -/
inductive Node where
  | text (s : String)
  | value (arg : Argument)
  | call (call : Call)
  | block (call : Call) (params : List String) (body : List Node) (inverse : Option (List Node))
  | inclusion (inclusion : Inclusion) (body : Option (List Node))
  | declaration (call : Call) (body : Option (List Node))
  deriving Inhabited

end SdkLoom.Template
