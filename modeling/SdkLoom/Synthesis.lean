import SdkLoom.Files.Set
import SdkLoom.Go.Package

/-!
# The files of a package

A package holds copies of templates and templates filled in with variables; a Go package also holds the client that is
written for its definition. A path that is given twice has the later content.
-/

namespace SdkLoom

/-- The module of a Go package: the name of the package, if variables give one. -/
def Go.moduleName (vars : Json) : String :=
  match vars.member? "packageName" with
  | some (.str name) => name
  | _ => Go.defaultModule

/-- The files of a target that come from templates. -/
def Target.templateFiles (target : Target) (vars : Json) : List (String × FileContent) :=
  (target.copied.map fun path => (path, FileContent.copied path))
  ++ target.rendered.map fun path => (path, FileContent.rendered vars)

/-- The files that are written for a definition. -/
def Target.sourceFiles (target : Target) (d : Definition) (vars : Json) : List (String × FileContent) :=
  match target.strategy with
  | .templates => []
  | .go =>
    ((Go.Package.ofDefinition d target.primitives).files (Go.moduleName vars)).map fun (path, text) => (path, .text text)

/-- The files of a package. -/
def Definition.synthesize (d : Definition) (target : Target) (vars : Json) : FileSet :=
  .ofList (target.templateFiles vars ++ target.sourceFiles d vars)

end SdkLoom
