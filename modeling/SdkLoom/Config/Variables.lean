import SdkLoom.Config.Codec
import SdkLoom.Definition.Codec
import SdkLoom.Npm.Manifest
import SdkLoom.Target.Basic

/-!
# Template variables

What templates are filled in with. The variables come in layers, and a later layer wins: general settings, the settings of
the package, the variables of the configuration, the definition, and last what no one may change.
-/

namespace SdkLoom.Config

/-- The version of a package that has none yet. -/
def initialVersion : String := "0.0.0"

/-- The version of the package: the configured one, or that of an npm package generated before, or the first. -/
def versionFor (c : Config) (target : Target) (tree : FileTree) : String :=
  (c.packageVersion.or (target.npm.bind fun _ => Npm.previousVersion tree c.targetDir)).getD initialVersion

/-- The spellings of scalars as a variable. -/
def primitivesJson (p : Primitives) : Json :=
  .obj [("boolean", .str p.boolean), ("float", .str p.float), ("int", .str p.int), ("text", .str p.text),
    ("unknown", .str p.unknown)]

/-- General settings. -/
def generalVars (c : Config) (target : Target) (version : String) : List (String × Json) :=
  [("defaultEnv", .str defaultSource),
    ("envs", (Env.mapToJson c.envs).sorted),
    ("language", .str target.language),
    ("primitives", primitivesJson target.primitives),
    ("packageVersion", .str version)]

/-- The settings of the package, as far as they are made. -/
def packageVars (c : Config) : List (String × Json) :=
  Npm.optionalMember "packageName" (c.packageName.map .str)
  ++ Npm.optionalMember "packageDescription" (c.packageDescription.map .str)
  ++ Npm.optionalMember "repository" c.repository
  ++ Npm.optionalMember "publishConfig" c.publishConfig
  ++ Npm.optionalMember "dependencies" (c.dependencies.map Json.ofMap)
  ++ Npm.optionalMember "peerDependencies" (c.peerDependencies.map Json.ofMap)
  ++ Npm.optionalMember "devDependencies" (c.devDependencies.map Json.ofMap)

/-- The members of a definition, sorted by key. -/
def definitionVars (d : Definition) : List (String × Json) :=
  match d.toJson.sorted with
  | .obj members => members
  | _ => []

/-- What no one may change: the kind of repository, and the manifest of an npm package. -/
def fixedVars (c : Config) (target : Target) (version : String) : List (String × Json) :=
  ("repoType", .str (c.repoType.getD "default"))
    :: Npm.optionalMember "packageJson" (target.npm.map fun layout => Npm.manifest layout c version)

/-- The template variables. -/
def templateVars (c : Config) (d : Definition) (target : Target) (tree : FileTree) : SortedMap String Json :=
  let version := c.versionFor target tree
  .ofList (c.generalVars target version ++ c.packageVars ++ c.vars.toList ++ definitionVars d
    ++ c.fixedVars target version)

/-- The template variables as one value. -/
def templateData (c : Config) (d : Definition) (target : Target) (tree : FileTree) : Json :=
  Json.ofMap (c.templateVars d target tree)

end SdkLoom.Config
