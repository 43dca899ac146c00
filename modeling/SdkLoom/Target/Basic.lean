import SdkLoom.Target.Primitives

/-!
# Targets

A target is a language for which packages are generated: its spellings of scalars, its files, and how they come about.
-/

namespace SdkLoom

/-- How the files of a target come about. -/
inductive Strategy where
  | templates
  | go
  deriving DecidableEq, Repr, Inhabited

/-- The spelling of a strategy. -/
def Strategy.code : Strategy → String
  | .templates => "templates"
  | .go => "go"

/-- A package with the version range that is asked of it. -/
abbrev Dependency := String × String

/-- The layout of an npm package, and what every generated package depends on. -/
structure NpmLayout where
  main : String
  types : Option String
  dir : String
  build : String
  dependencies : List Dependency
  peerDependencies : List Dependency
  devDependencies : List Dependency
  deriving DecidableEq, Repr, Inhabited

/-- A target. -/
structure Target where
  language : String
  primitives : Primitives
  rendered : List String
  copied : List String
  strategy : Strategy
  npm : Option NpmLayout
  deriving DecidableEq, Repr, Inhabited

/-- The family of templates to which all targets belong. -/
def templateFamily : String := "graphql"

/-- The directory of a target's templates. -/
def Target.templatePath (t : Target) : String := "sdk/" ++ templateFamily ++ "/" ++ t.language

end SdkLoom
