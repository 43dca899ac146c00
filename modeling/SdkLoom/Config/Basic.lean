import SdkLoom.Json.Basic
import SdkLoom.Target.Basic

/-!
# Configurations

What a run of the generator is told. Every setting may be left open, and one configuration may be laid over another: what
the upper one sets wins, entry by entry where a setting is a map.
-/

namespace SdkLoom

/-- An environment: the endpoint of its GraphQL service, which may name the source by a placeholder, and further entries for
templates. -/
structure Env where
  graphql : Option String
  extra : SortedMap String Json

/-- An environment without entries. -/
def Env.empty : Env := ⟨none, ∅⟩

/-- A configuration. -/
structure Config where
  template : Option String
  source : Option String
  target : Option String
  language : Option String
  vars : SortedMap String Json
  envs : SortedMap String Env
  packageName : Option String
  packageVersion : Option String
  packageDescription : Option String
  repository : Option Json
  publishConfig : Option Json
  dependencies : Option (SortedMap String Json)
  peerDependencies : Option (SortedMap String Json)
  devDependencies : Option (SortedMap String Json)
  repoType : Option String
  ignoredModels : List String

namespace Config

/-- The configuration that sets nothing. -/
def empty : Config where
  template := none
  source := none
  target := none
  language := none
  vars := ∅
  envs := ∅
  packageName := none
  packageVersion := none
  packageDescription := none
  repository := none
  publishConfig := none
  dependencies := none
  peerDependencies := none
  devDependencies := none
  repoType := none
  ignoredModels := []

/-- Lays `b` over `a`. -/
def overlay (a b : Config) : Config where
  template := b.template.or a.template
  source := b.source.or a.source
  target := b.target.or a.target
  language := b.language.or a.language
  vars := a.vars.overlay b.vars
  envs := a.envs.overlay b.envs
  packageName := b.packageName.or a.packageName
  packageVersion := b.packageVersion.or a.packageVersion
  packageDescription := b.packageDescription.or a.packageDescription
  repository := b.repository.or a.repository
  publishConfig := b.publishConfig.or a.publishConfig
  dependencies := b.dependencies.or a.dependencies
  peerDependencies := b.peerDependencies.or a.peerDependencies
  devDependencies := b.devDependencies.or a.devDependencies
  repoType := b.repoType.or a.repoType
  ignoredModels := a.ignoredModels ++ b.ignoredModels

/-- Sets a template variable. -/
def setVar (c : Config) (key : String) (value : Json) : Config := { c with vars := c.vars.insert key value }

/-- Sets the endpoint of an environment, and keeps its further entries. -/
def setEnv (c : Config) (name graphql : String) : Config :=
  { c with envs := c.envs.insert name { (c.envs.get? name).getD .empty with graphql := some graphql } }

/-! ## Settings with their defaults -/

/-- The source that is read unless another is named. -/
def defaultSource : String := "prod"

/-- The language that is generated unless another is named. -/
def defaultLanguage : String := "go"

/-- The name of the configuration that is looked for in the target directory. -/
def defaultFile : String := ".sdkgen.yml"

/-- The family of templates. -/
def templateName (c : Config) : String := c.template.getD templateFamily

/-- The environment that the schema is read from. -/
def sourceName (c : Config) : String := c.source.getD defaultSource

/-- The language to generate. -/
def languageName (c : Config) : String := c.language.getD defaultLanguage

/-- The directory to write into. -/
def targetDir (c : Config) : String := c.target.getD "."

end Config

end SdkLoom
